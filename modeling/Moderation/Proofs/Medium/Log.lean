import Moderation.Medium.Basic
import Moderation.Proofs.Mailbox.Recipient
/-!
# Media as logs

A medium is a log: messages are put at its end and stay at their places. `Medium.Log` says what nodes may
rely on, whatever the medium is made of: a message that is sent becomes the last one, and a poll collects
messages from places that the node's connection has not passed, passes them, and passes none back. Both
mailboxes and buses are such media.
-/

namespace Moderation

/-- A medium whose messages have places. -/
class Medium.Log (M : Type) (Link : outParam Type) [Medium M Link] where
  /-- The messages ever put there, the first one first. -/
  messages : M → List Bytes
  /-- A node is connected, so that messages are kept. -/
  Open : M → Prop
  /-- A connection will not collect the message at a place any more. -/
  Passed : M → Link → Nat → Prop
  /-- The places from which a poll collects. -/
  due : Timestamp → M → Link → List Nat
  /-- The medium, which from now on fails to be read and to be written to, or does not. -/
  disturbed : Option StoreError → Option StoreError → M → M
  messages_connect (m : M) : messages (Medium.connect m).2 = messages m
  open_connect (m : M) : Open (Medium.connect m).2
  passed_connect {m : M} {link : Link} {k : Nat} : Passed m link k → Passed (Medium.connect m).2 link k
  messages_send {now : Timestamp} {message : Bytes} {m m' : M} :
    Open m → Medium.send now message m = .ok m' → messages m' = messages m ++ [message]
  open_send {now : Timestamp} {message : Bytes} {m m' : M} :
    Open m → Medium.send now message m = .ok m' → Open m'
  passed_send {now : Timestamp} {message : Bytes} {m m' : M} {link : Link} {k : Nat} :
    Medium.send now message m = .ok m' → k < (messages m).length → Passed m link k → Passed m' link k
  messages_disturbed (read write : Option StoreError) (m : M) : messages (disturbed read write m) = messages m
  open_disturbed {read write : Option StoreError} {m : M} : Open m → Open (disturbed read write m)
  passed_disturbed {read write : Option StoreError} {m : M} {link : Link} {k : Nat} :
    Passed m link k → Passed (disturbed read write m) link k
  /-- A poll that succeeds gives the messages at its places. -/
  poll_due {now : Timestamp} {m : M} {link : Link} {collected : List Bytes} :
    (Medium.poll now m link).1 = .ok collected → collected.map some = (due now m link).map ((messages m)[·]?)
  nodup_due (now : Timestamp) (m : M) (link : Link) : (due now m link).Nodup
  not_passed_of_due {now : Timestamp} {m : M} {link : Link} {k : Nat} : k ∈ due now m link → ¬Passed m link k
  passed_of_due {now : Timestamp} {m : M} {link : Link} {k : Nat} :
    k ∈ due now m link → Passed m (Medium.poll now m link).2 k
  passed_poll {now : Timestamp} {m : M} {link : Link} {k : Nat} :
    Passed m link k → Passed m (Medium.poll now m link).2 k

namespace Medium.Log

variable {M Link : Type} [Medium M Link] [Medium.Log M Link]

/-- From each place that is due comes one message. -/
theorem length_due {now : Timestamp} {m : M} {link : Link} {collected : List Bytes}
    (h : (Medium.poll now m link).1 = .ok collected) : (due now m link).length = collected.length := by
  simpa using (congrArg List.length (poll_due h)).symm

/-- The medium becomes another one, in which more messages may have been put: they lie behind those that
were there, and what a connection has passed stays passed. -/
structure Grows (m m' : M) : Prop where
  messages : messages m <+: messages m'
  stays_open : Open m → Open m'
  passed {link : Link} {k : Nat} : k < (Log.messages m).length → Passed m link k → Passed m' link k

namespace Grows

theorem refl (m : M) : Grows m m := ⟨List.prefix_rfl, id, fun _ h => h⟩

theorem connect (m : M) : Grows m (Medium.connect m).2 :=
  ⟨messages_connect m ▸ List.prefix_rfl, fun _ => open_connect m, fun _ => passed_connect⟩

theorem send {now : Timestamp} {message : Bytes} {m m' : M} (hopen : Open m)
    (h : Medium.send now message m = .ok m') : Grows m m' :=
  ⟨messages_send hopen h ▸ List.prefix_append _ _, fun _ => open_send hopen h, passed_send h⟩

theorem disturbed (read write : Option StoreError) (m : M) : Grows m (Log.disturbed read write m) :=
  ⟨messages_disturbed read write m ▸ List.prefix_rfl, open_disturbed, fun _ => passed_disturbed⟩

/-- Messages stay at their places. -/
theorem getElem? {m m' : M} (h : Grows m m') {k : Nat} {message : Bytes}
    (hk : (Log.messages m)[k]? = some message) : (Log.messages m')[k]? = some message := by
  obtain ⟨more, hmore⟩ := h.messages
  rw [← hmore, List.getElem?_append_left (List.getElem?_eq_some_iff.1 hk).1, hk]

end Grows

/-- The places of the messages that one medium has and the other one does not have yet. -/
def placed (m m' : M) : List Nat :=
  List.range' (messages m).length ((messages m').length - (messages m).length)

@[simp] theorem length_placed (m m' : M) : (placed m m').length = (messages m').length - (messages m).length :=
  List.length_range'

theorem placed_append {m m' m'' : M} (h : messages m <+: messages m') (h' : messages m' <+: messages m'') :
    placed m m' ++ placed m' m'' = placed m m'' := by
  have hle := h.length_le
  have hle' := h'.length_le
  have hend : (messages m').length = (messages m).length + ((messages m').length - (messages m).length) := by
    omega
  unfold placed
  -- The second list of places begins where the first one ends.
  conv_lhs => enter [2, 1]; rw [hend]
  rw [List.range'_append_1]
  congr 1
  omega

end Medium.Log

/-! ## Mailboxes -/

namespace Mailbox

def due (now : Timestamp) (m : Mailbox) (c : Cursor) : List Nat :=
  match (c.claim now).1 with
  | none => []
  | some w => (m.rowsIn w).map Row.place

/-- The cursor has come to the time of the letter at a place. -/
def Passed (m : Mailbox) (c : Cursor) (k : Nat) : Prop :=
  ∃ last, c.last = some last ∧ ∀ letter, m.letters[k]? = some letter → letter.time ≤ last

theorem mem_due {now : Timestamp} {m : Mailbox} {c : Cursor} {k : Nat} : k ∈ due now m c ↔
    ∃ w letter, (c.claim now).1 = some w ∧ m.letters[k]? = some letter ∧ w.Holds letter.time := by
  unfold due
  cases (c.claim now).1 with
  | none => simp
  | some w =>
    simp only [List.mem_map, mem_rowsIn, mem_rows, Option.some.injEq, exists_and_left, exists_eq_left']
    constructor
    · rintro ⟨r, ⟨hr, hw⟩, rfl⟩
      exact ⟨r.letter, hr, hw⟩
    · rintro ⟨letter, hl, hw⟩
      exact ⟨⟨k, letter⟩, ⟨hl, hw⟩, rfl⟩

theorem nodup_due (now : Timestamp) (m : Mailbox) (c : Cursor) : (due now m c).Nodup := by
  unfold due
  split
  · exact List.nodup_nil
  · exact nodup_places (nodup_rowsIn m _) fun r hr => (mem_rowsIn.1 hr).1

theorem poll_due {now : Timestamp} {m : Mailbox} {c : Cursor} {collected : List Bytes}
    (h : (c.poll now m).1 = .ok collected) :
    collected.map some = (due now m c).map ((m.letters.map Letter.payload)[·]?) := by
  unfold Cursor.poll at h
  unfold due
  split at h
  · next hc =>
    cases h
    simp [hc]
  · next w c' hc =>
    unfold select at h
    cases hm : m.readFailure with
    | some e => simp [hm, Except.map] at h
    | none =>
      simp only [hm, Except.map, Except.ok.injEq] at h
      simp only [hc, ← h, ← map_letter_rowsIn, List.map_map]
      refine List.map_congr_left fun r hr => ?_
      simp [mem_rows.1 (mem_rowsIn.1 hr).1]

theorem not_passed_of_due {now : Timestamp} {m : Mailbox} {c : Cursor} {k : Nat} (h : k ∈ due now m c) :
    ¬m.Passed c k := by
  obtain ⟨w, letter, hw, hl, hholds⟩ := mem_due.1 h
  rintro ⟨last, hlast, hpassed⟩
  rcases c.claim_cases now with ⟨-, hc⟩ | ⟨_, -, -, hc⟩ | ⟨last', hlast', -, hc⟩
  · simp [hc] at hw
  · simp [hc] at hw
  · simp only [hc, Option.some.injEq] at hw
    subst hw
    -- A window begins past the cursor, and the cursor past what it has passed.
    obtain rfl := Option.some.inj (hlast.symm.trans hlast')
    exact UInt64.not_le.2 hholds.1 (hpassed letter hl)

theorem passed_of_due {now : Timestamp} {m : Mailbox} {c : Cursor} {k : Nat} (h : k ∈ due now m c) :
    m.Passed (c.poll now m).2 k := by
  obtain ⟨w, letter, hw, hl, hholds⟩ := mem_due.1 h
  rcases c.claim_cases now with ⟨-, hc⟩ | ⟨_, -, -, hc⟩ | ⟨last, -, -, hc⟩
  · simp [hc] at hw
  · simp [hc] at hw
  · simp only [hc, Option.some.injEq] at hw
    subst hw
    refine ⟨now, by simp [Cursor.poll, hc], fun letter' hl' => ?_⟩
    obtain rfl := Option.some.inj (hl.symm.trans hl')
    exact hholds.2

theorem passed_poll {now : Timestamp} {m : Mailbox} {c : Cursor} {k : Nat} (h : m.Passed c k) :
    m.Passed (c.poll now m).2 k := by
  obtain ⟨last, hlast, hpassed⟩ := h
  have hcursor : (c.poll now m).2 = (c.claim now).2 := by
    unfold Cursor.poll
    split <;> simp [*]
  obtain ⟨last', hlast', hle⟩ := c.le_claim now last hlast
  exact ⟨last', hcursor ▸ hlast', fun letter hl => UInt64.le_trans (hpassed letter hl) hle⟩

/-- A mailbox that is written to keeps its letters at their places. -/
theorem insert_letters {now : Timestamp} {message : Bytes} {m m' : Mailbox}
    (h : m.insert now message = .ok m') : m'.letters = m.letters ++ [⟨now, message⟩] := by
  unfold insert at h
  split at h
  · cases h
  · cases h
    rfl

theorem readFailure_insert {now : Timestamp} {message : Bytes} {m m' : Mailbox}
    (h : m.insert now message = .ok m') : m'.readFailure = m.readFailure := by
  unfold insert at h
  split at h
  · cases h
  · cases h
    rfl

end Mailbox

instance : Medium.Log Mailbox Cursor where
  messages m := m.letters.map Letter.payload
  Open _ := True
  Passed := Mailbox.Passed
  due := Mailbox.due
  disturbed read write m := { m with readFailure := read, writeFailure := write }
  messages_connect _ := rfl
  open_connect _ := trivial
  passed_connect h := h
  messages_send _ h := by simp [Mailbox.insert_letters h]
  open_send _ _ := trivial
  passed_send h hk := by
    rintro ⟨last, hlast, hpassed⟩
    refine ⟨last, hlast, fun letter hl => hpassed letter ?_⟩
    rw [Mailbox.insert_letters h, List.getElem?_append_left (by simpa using hk)] at hl
    exact hl
  messages_disturbed _ _ _ := rfl
  open_disturbed _ := trivial
  passed_disturbed h := h
  poll_due := Mailbox.poll_due
  nodup_due := Mailbox.nodup_due
  not_passed_of_due := Mailbox.not_passed_of_due
  passed_of_due := Mailbox.passed_of_due
  passed_poll := Mailbox.passed_poll

/-! ## Buses -/

namespace Bus

def unread (b : Bus) (s : Subscription) : List (Frame × Nat) :=
  (b.frames.toList.zipIdx.drop (max s.next b.dropped)).filter fun f => s.Matches f.1

/-- The subscription has passed the frame at a place. -/
def Passed (b : Bus) (s : Subscription) (k : Nat) : Prop := k < s.next ∧ k < b.frames.size

theorem drain_eq (b : Bus) (s : Subscription) : s.drain b =
    ((b.unread s).map Prod.fst, { s.catchUp b with next := b.frames.size }) := by
  -- The places are of no matter to what is received.
  have hfst : (b.frames.toList.zipIdx.drop (max s.next b.dropped)).map Prod.fst =
      b.frames.toList.drop (max s.next b.dropped) := by
    rw [List.map_drop, List.zipIdx_map_fst]
  simp only [Subscription.drain, Subscription.unread, Subscription.catchUp, unread, ← hfst, List.filter_map]
  rfl

theorem nodup_unread (b : Bus) (s : Subscription) : ((b.unread s).map Prod.snd).Nodup := by
  have hplaces : (b.frames.toList.zipIdx.map Prod.snd).Nodup := by
    rw [List.zipIdx_map_snd]
    exact List.nodup_range'
  exact hplaces.sublist ((List.filter_sublist.trans (List.drop_sublist _ _)).map _)

theorem getElem?_of_mem_unread {b : Bus} {s : Subscription} {f : Frame × Nat} (h : f ∈ b.unread s) :
    b.frames.toList[f.2]? = some f.1 ∧ s.next ≤ f.2 := by
  obtain ⟨i, hi⟩ := List.mem_iff_getElem?.1 (List.mem_filter.1 h).1
  rw [List.getElem?_drop, List.getElem?_zipIdx, Option.map_eq_some_iff] at hi
  obtain ⟨frame, hframe, rfl⟩ := hi
  simp only [Nat.zero_add]
  exact ⟨hframe, by omega⟩

theorem publish_frames {b : Bus} (h : 0 < b.subscribers) (f : Frame) :
    (b.publish f).2.frames = b.frames.push f := by
  simp [publish, Nat.ne_of_gt h]

end Bus

instance : Medium.Log Bus Subscription where
  messages b := b.frames.toList.map Frame.payload
  Open b := 0 < b.subscribers
  Passed := Bus.Passed
  due _ b s := (b.unread s).map Prod.snd
  disturbed _ _ b := b
  messages_connect _ := rfl
  open_connect _ := Nat.succ_pos _
  passed_connect h := h
  messages_send hopen h := by
    cases h
    simp [Bus.publish_frames hopen]
  open_send hopen h := by
    cases h
    simp only [Bus.publish]
    split <;> exact hopen
  passed_send h hk := by
    rintro ⟨hnext, hsize⟩
    cases h
    refine ⟨hnext, ?_⟩
    simp only [Bus.publish]
    split
    · exact hsize
    · simp only [Array.size_push]
      omega
  messages_disturbed _ _ _ := rfl
  open_disturbed h := h
  passed_disturbed h := h
  poll_due := by
    intro _ b s collected h
    simp only [Medium.poll, Bus.drain_eq, Except.ok.injEq] at h
    subst h
    simp only [List.map_map]
    refine List.map_congr_left fun f hf => ?_
    simp only [Function.comp, List.getElem?_map, (Bus.getElem?_of_mem_unread hf).1, Option.map_some]
  nodup_due _ b s := b.nodup_unread s
  not_passed_of_due h := by
    obtain ⟨f, hf, rfl⟩ := List.mem_map.1 h
    rintro ⟨hnext, -⟩
    exact Nat.not_lt.2 (Bus.getElem?_of_mem_unread hf).2 hnext
  passed_of_due h := by
    obtain ⟨f, hf, rfl⟩ := List.mem_map.1 h
    have hsize : f.2 < _ := (List.getElem?_eq_some_iff.1 (Bus.getElem?_of_mem_unread hf).1).1
    simp only [Medium.poll, Bus.drain_eq]
    exact ⟨hsize, hsize⟩
  passed_poll h := by
    simp only [Medium.poll, Bus.drain_eq]
    exact ⟨h.2, h.2⟩

end Moderation
