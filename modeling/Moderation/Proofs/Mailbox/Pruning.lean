import Moderation.Proofs.Mailbox.Mailroom
/-!
# Pruning a mailbox

Letters from before a cutoff are removed. A recipient whose cursor has come to the last instant before the cutoff, or
further, cannot tell: whatever is put there afterwards, wherever the clock goes and however polls come between one
another, its polls return what they would have returned, `pruned_unseen`. What carries this is that two mailboxes with
the same letters from the cutoff on, `Mailbox.AgreeFrom`, give the same for every window that begins there, and that
cursors never go back. A recipient that is further behind can tell, `pruned_seen_by_laggard`.
-/

namespace Moderation

/-- The window holds no instant before `cutoff`: it begins, at the earliest, right before it. -/
def Window.From (cutoff : Timestamp) (w : Window) : Prop := cutoff.toNat ≤ w.after.toNat + 1

theorem Window.From.le {cutoff t : Timestamp} {w : Window} (h : w.From cutoff) (ht : w.Holds t) : cutoff ≤ t := by
  have hlt := UInt64.lt_iff_toNat_lt.1 ht.1
  rw [UInt64.le_iff_toNat_le]
  unfold From at h
  omega

/-! ## Mailboxes that agree from a cutoff on -/

namespace Mailbox

variable {m m' : Mailbox} {cutoff : Timestamp} {w : Window}

/-- Pruning counts the letters from before the cutoff and keeps the others as they are. -/
theorem prune_eq (m : Mailbox) (cutoff : Timestamp) : m.prune cutoff =
    (m.letters.countP fun l => l.time < cutoff, { m with letters := m.letters.filter fun l => ¬l.time < cutoff }) := by
  have hkept : (m.letters.filter fun l => cutoff ≤ l.time) = m.letters.filter fun l => ¬l.time < cutoff := by
    apply List.filter_congr
    intro l _
    simp only [UInt64.not_lt]
  have hall := List.length_eq_countP_add_countP (fun l => l.time < cutoff) (l := m.letters)
  simp only [decide_eq_true_eq] at hall
  simp only [prune, hkept, ← List.countP_eq_length_filter, Prod.mk.injEq, and_true]
  omega

/-- The mailboxes work alike, and their letters from `cutoff` on are the same in the same order. -/
structure AgreeFrom (cutoff : Timestamp) (m m' : Mailbox) : Prop where
  readFailure : m'.readFailure = m.readFailure
  writeFailure : m'.writeFailure = m.writeFailure
  letters : (m'.letters.filter fun l => cutoff ≤ l.time) = m.letters.filter fun l => cutoff ≤ l.time

theorem agreeFrom_prune (m : Mailbox) (cutoff : Timestamp) : m.AgreeFrom cutoff (m.prune cutoff).2 where
  readFailure := rfl
  writeFailure := rfl
  letters := by simp [prune]

/-- Nothing from before the cutoff is read in a window that begins there. -/
theorem AgreeFrom.select_eq (h : m.AgreeFrom cutoff m') (hw : w.From cutoff) : m'.select w = m.select w := by
  have hwindow (m : Mailbox) : (m.letters.filter fun l => w.Holds l.time) =
      (m.letters.filter fun l => cutoff ≤ l.time).filter fun l => w.Holds l.time := by
    rw [List.filter_filter]
    apply List.filter_congr
    intro l _
    by_cases hl : w.Holds l.time
    · simp [hl, hw.le hl]
    · simp [hl]
  unfold select inWindow
  rw [h.readFailure, hwindow m', h.letters, ← hwindow m]

theorem AgreeFrom.insert (h : m.AgreeFrom cutoff m') (l : Letter) :
    (∃ e, m.insert l.time l.payload = .error e ∧ m'.insert l.time l.payload = .error e) ∨
      ∃ n n', m.insert l.time l.payload = .ok n ∧ m'.insert l.time l.payload = .ok n' ∧ n.AgreeFrom cutoff n' := by
  unfold Mailbox.insert
  rw [h.writeFailure]
  cases hfails : m.writeFailure with
  | some e => exact .inl ⟨e, rfl, rfl⟩
  | none =>
    refine .inr ⟨_, _, rfl, rfl, ?_⟩
    constructor
    · exact h.readFailure
    · rfl
    · simp only [List.filter_append, h.letters]

end Mailbox

/-! ## Recipients that cannot tell -/

theorem Claim.returned?_read (c : Claim) (m : Mailbox) : (c.read m).returned? =
    some (c.returned?.getD ((m.select c.window).map fun ls => ls.map Letter.payload)) := by
  unfold read
  split
  · next r hr => simp [returned?, hr]
  · next hr => simp [returned?, hr]

namespace Recipient

variable {m m' : Mailbox} {cutoff : Timestamp} {r r' : Recipient}

/-- The recipient's cursor has come to the last instant before `cutoff` or further, and no poll that is under way is to
read anything before that. -/
structure Past (cutoff : Timestamp) (r : Recipient) : Prop where
  cursor : ∃ t ∈ r.cursor.last, cutoff.toNat ≤ t.toNat + 1
  unread : ∀ c ∈ r.claims, c.Unread → c.window.From cutoff

/-- What a recipient has seen: the readings of the clock with which its polls came to the cursor, the windows that they
claimed and what they returned. -/
def seen (r : Recipient) : List Timestamp × List (Window × Option (Except StoreError (List Bytes))) :=
  (r.shown, r.claims.map fun c => (c.window, c.returned?))

/-- The recipients are at the same place, have the same polls under way and have seen the same. -/
structure Alike (r r' : Recipient) : Prop where
  cursor : r'.cursor = r.cursor
  looks : r'.looks = r.looks
  seen : r'.seen = r.seen

theorem Past.look (h : r.Past cutoff) (now : Timestamp) : (r.look now).Past cutoff := { h with }

/-- A cursor that has come so far claims only windows that begin there. -/
theorem Past.claim (h : r.Past cutoff) (i : Nat) : (r.claim i).Past cutoff := by
  unfold Recipient.claim
  split
  · exact h
  next now hnow =>
  obtain ⟨t, ht, hcutoff⟩ := h.cursor
  rcases r.cursor.claim_cases now with ⟨hl, -⟩ | ⟨last, hl, -, hc⟩ | ⟨last, hl, hlt, hc⟩
  · rw [hl] at ht
    cases ht
  · constructor
    · rw [hc]
      exact ⟨t, ht, hcutoff⟩
    · simpa [hc] using h.unread
  · obtain rfl := Option.some.inj (hl.symm.trans ht)
    have hnow := UInt64.lt_iff_toNat_lt.1 hlt
    constructor
    · rw [hc]
      exact ⟨now, rfl, by omega⟩
    · intro c hmem hunread
      simp only [hc, Option.toList_some, List.map_cons, List.map_nil, List.mem_append, List.mem_singleton] at hmem
      rcases hmem with hmem | rfl
      · exact h.unread c hmem hunread
      · exact hcutoff

theorem Past.read (h : r.Past cutoff) (m : Mailbox) (i : Nat) : (r.read m i).Past cutoff := by
  constructor
  · exact h.cursor
  · intro c hc hunread
    obtain ⟨c₀, hc₀, rfl | rfl⟩ := exists_of_mem_read hc
    -- A window that is read is no longer to be read.
    · have hread := c₀.returned?_read m
      rw [Claim.returned?, show (c₀.read m).reading = none from hunread] at hread
      cases hread
    · exact h.unread c hc₀ hunread

theorem Alike.look (h : r.Alike r') (now : Timestamp) : (r.look now).Alike (r'.look now) where
  cursor := h.cursor
  looks := by simp only [Recipient.look, h.looks]
  seen := h.seen

theorem Alike.claim (h : r.Alike r') (i : Nat) : (r.claim i).Alike (r'.claim i) := by
  obtain ⟨hshown, hclaims⟩ := Prod.mk.inj h.seen
  unfold Recipient.claim
  rw [h.looks]
  split
  · exact h
  · constructor
    · rw [h.cursor]
    · rfl
    · simp only [Recipient.seen, List.map_append, hshown, hclaims, h.cursor]

/-- What a poll reads is the same in both mailboxes: its window begins at the cutoff, or it has been read before. -/
theorem Alike.read (h : r.Alike r') (hpast : r.Past cutoff) (hm : m.AgreeFrom cutoff m') (i : Nat) :
    (r.read m i).Alike (r'.read m' i) := by
  obtain ⟨hshown, hclaims⟩ := Prod.mk.inj h.seen
  constructor
  · exact h.cursor
  · exact h.looks
  · refine Prod.ext hshown ?_
    apply List.ext_getElem?
    intro j
    have hj := congrArg (·[j]?) hclaims
    simp only [List.getElem?_map] at hj
    simp only [Recipient.read, Recipient.seen, List.getElem?_map, List.getElem?_modify, Option.map_eq_map, Option.map_map]
    cases hc : r.claims[j]? with
    | none => simpa [hc] using hj
    | some c =>
      rw [hc, Option.map_some, Option.map_eq_some_iff] at hj
      obtain ⟨c', hc', heq⟩ := hj
      obtain ⟨hwindow, hreturned⟩ := Prod.mk.inj heq
      simp only [hc', Option.map_some, Function.comp, Option.some.injEq, Prod.mk.injEq]
      by_cases hij : i = j
      · simp only [hij, if_true, Claim.read_window, Claim.returned?_read, hwindow, hreturned, true_and]
        cases hread : c.reading with
        | some r => simp [Claim.returned?, hread]
        | none =>
          have hfrom : c.window.From cutoff := hpast.unread c (List.mem_of_getElem? hc) hread
          rw [hm.select_eq hfrom]
      · simp [hij, hwindow, hreturned]

/-- A whole poll gives the same and leaves the cursor at the same place. -/
theorem Past.poll_eq (h : r.Past cutoff) (hr : r.Alike r') (hm : m.AgreeFrom cutoff m') (now : Timestamp) :
    r'.cursor.poll now m' = r.cursor.poll now m := by
  obtain ⟨t, ht, hcutoff⟩ := h.cursor
  rw [hr.cursor]
  unfold Cursor.poll
  rcases r.cursor.claim_cases now with ⟨hl, -⟩ | ⟨last, -, -, hc⟩ | ⟨last, hl, -, hc⟩
  · rw [hl] at ht
    cases ht
  · rw [hc]
  · obtain rfl := Option.some.inj (hl.symm.trans ht)
    have hfrom : Window.From cutoff ⟨last, now⟩ := hcutoff
    simp only [hc]
    rw [hm.select_eq hfrom]

end Recipient

/-! ## Two mailrooms -/

namespace Mailroom

variable {s s' : Mailroom} {cutoff : Timestamp}

/-- The mailrooms differ in letters from before `cutoff` alone, and no recipient can tell. -/
structure AgreeFrom (cutoff : Timestamp) (s s' : Mailroom) : Prop where
  mailbox : s.mailbox.AgreeFrom cutoff s'.mailbox
  clock : s'.clock = s.clock
  stamped : s'.stamped = s.stamped
  recipients : ∀ b : Nat, Option.Rel (fun r r' => r.Past cutoff ∧ r.Alike r') s.recipients[b]? s'.recipients[b]?

theorem AgreeFrom.put (h : s.AgreeFrom cutoff s') (l : Letter) : (s.put l).AgreeFrom cutoff (s'.put l) := by
  unfold Mailroom.put
  rcases h.mailbox.insert l with ⟨e, hm, hm'⟩ | ⟨n, n', hm, hm', hagree⟩
  · simp only [hm, hm']
    exact h
  · simp only [hm, hm']
    exact { h with mailbox := hagree }

/-- What a step makes of a recipient, it makes of it in both. -/
theorem AgreeFrom.stepOf (h : s.AgreeFrom cutoff s') (b : Nat) (a : Step) {r r' : Recipient} (hpast : r.Past cutoff)
    (halike : r.Alike r') : (s.stepOf b a r).Past cutoff ∧ (s.stepOf b a r).Alike (s'.stepOf b a r') := by
  unfold Mailroom.stepOf
  rw [h.clock]
  cases a with
  | look b' =>
    by_cases hb : b' = b
    · simp only [hb, if_true]
      exact ⟨hpast.look s.clock, halike.look s.clock⟩
    · simp only [hb, if_false]
      exact ⟨hpast, halike⟩
  | claim b' i =>
    by_cases hb : b' = b
    · simp only [hb, if_true]
      exact ⟨hpast.claim i, halike.claim i⟩
    · simp only [hb, if_false]
      exact ⟨hpast, halike⟩
  | read b' i =>
    by_cases hb : b' = b
    · simp only [hb, if_true]
      exact ⟨hpast.read s.mailbox i, halike.read hpast h.mailbox i⟩
    · simp only [hb, if_false]
      exact ⟨hpast, halike⟩
  | put | move | fail | stamp | post => exact ⟨hpast, halike⟩

theorem AgreeFrom.recipients_step (h : s.AgreeFrom cutoff s') (a : Step) (b : Nat) :
    Option.Rel (fun r r' => r.Past cutoff ∧ r.Alike r') (s.step a).recipients[b]? (s'.step a).recipients[b]? := by
  rw [Mailroom.recipients_step, Mailroom.recipients_step]
  have hb := h.recipients b
  cases hr : s.recipients[b]? with
  | none =>
    rw [hr] at hb
    cases hr' : s'.recipients[b]? with
    | none => exact .none
    | some r' =>
      rw [hr'] at hb
      cases hb
  | some r =>
    rw [hr] at hb
    cases hr' : s'.recipients[b]? with
    | none =>
      rw [hr'] at hb
      cases hb
    | some r' =>
      rw [hr'] at hb
      cases hb with
      | some hrel => exact .some (h.stepOf b a hrel.1 hrel.2)

/-- Every step keeps it so. -/
theorem AgreeFrom.step (h : s.AgreeFrom cutoff s') (a : Step) : (s.step a).AgreeFrom cutoff (s'.step a) := by
  have hrecipients := h.recipients_step a
  cases a with
  | put l => exact { h.put l with recipients := hrecipients }
  | move c =>
    refine ⟨h.mailbox, ?_, h.stamped, hrecipients⟩
    simp only [Mailroom.step, h.clock]
  | fail read write => exact ⟨⟨rfl, rfl, h.mailbox.letters⟩, h.clock, h.stamped, hrecipients⟩
  | stamp payload =>
    refine ⟨h.mailbox, h.clock, ?_, hrecipients⟩
    simp only [Mailroom.step, h.clock, h.stamped]
  | post i =>
    simp only [Mailroom.step, h.stamped] at hrecipients ⊢
    split
    · exact h
    · next l hl =>
      have hput := h.put l
      exact ⟨hput.mailbox, hput.clock, rfl, hput.recipients⟩
  | look b => exact ⟨h.mailbox, h.clock, h.stamped, hrecipients⟩
  | claim b i => exact ⟨h.mailbox, h.clock, h.stamped, hrecipients⟩
  | read b i => exact ⟨h.mailbox, h.clock, h.stamped, hrecipients⟩

theorem AgreeFrom.run (h : s.AgreeFrom cutoff s') (steps : List Step) :
    (s.run steps).AgreeFrom cutoff (s'.run steps) := by
  induction steps generalizing s s' with
  | nil => exact h
  | cons a steps ih =>
    rw [run_cons, run_cons]
    exact ih (h.step a)

/-- The mailroom after its mailbox was pruned. -/
def pruned (cutoff : Timestamp) (s : Mailroom) : Mailroom := { s with mailbox := (s.mailbox.prune cutoff).2 }

theorem agreeFrom_pruned (hpast : ∀ r ∈ s.recipients, r.Past cutoff) : s.AgreeFrom cutoff (s.pruned cutoff) where
  mailbox := s.mailbox.agreeFrom_prune cutoff
  clock := rfl
  stamped := rfl
  recipients := by
    intro b
    change Option.Rel _ s.recipients[b]? s.recipients[b]?
    cases hr : s.recipients[b]? with
    | none => exact .none
    | some r => exact .some ⟨hpast r (List.mem_of_getElem? hr), rfl, rfl, rfl⟩

/-- For every content of a mailbox, every set of recipients whose cursors have come to the last instant before a cutoff
or further, and whatever steps follow: pruning removes and counts the letters from before the cutoff and no others, and
afterwards each recipient sees of every poll, whether other steps come between or not, what it would have seen if the
mailbox had not been pruned. -/
theorem pruned_unseen (s : Mailroom) (cutoff : Timestamp) (hpast : ∀ r ∈ s.recipients, r.Past cutoff)
    (steps : List Step) :
    s.mailbox.prune cutoff = (s.mailbox.letters.countP fun l => l.time < cutoff,
      { s.mailbox with letters := s.mailbox.letters.filter fun l => ¬l.time < cutoff }) ∧
    ∀ (b : Nat) (r : Recipient), (s.run steps).recipients[b]? = some r →
      ∃ r', ((s.pruned cutoff).run steps).recipients[b]? = some r' ∧ r'.cursor = r.cursor ∧ r'.seen = r.seen ∧
        ∀ now, r'.cursor.poll now ((s.pruned cutoff).run steps).mailbox = r.cursor.poll now (s.run steps).mailbox := by
  have hagree := (agreeFrom_pruned hpast).run steps
  refine ⟨s.mailbox.prune_eq cutoff, ?_⟩
  intro b r hr
  have hb := hagree.recipients b
  rw [hr] at hb
  cases hr' : ((s.pruned cutoff).run steps).recipients[b]? with
  | none =>
    rw [hr'] at hb
    cases hb
  | some r' =>
    rw [hr'] at hb
    cases hb with
    | some hrel => exact ⟨r', rfl, hrel.2.cursor, hrel.2.seen, hrel.1.poll_eq hrel.2 hagree.mailbox⟩

/-- One cursor is right before the cutoff and the other far behind it, the clock goes back and on again, a letter comes
with a time from before the cutoff, and one is read between two others of its time. -/
theorem pruned_unseen_by_two :
    let m : Mailbox := { letters := [⟨12, [1]⟩, ⟨5, [2]⟩, ⟨10, [3]⟩, ⟨9, [4]⟩, ⟨12, [5]⟩] }
    let s : Mailroom := { mailbox := m, clock := 11, recipients := [{ cursor := ⟨some 9⟩ }, { cursor := ⟨some 11⟩ }] }
    let steps : List Step := [.look 0, .claim 0 0, .put ⟨3, [6]⟩, .move (.set 4), .look 1, .claim 1 0, .read 0 0,
      .move (.set 12), .look 0, .look 1, .claim 1 0, .claim 0 0, .stamp [7], .read 1 0, .post 0, .read 0 1]
    (s.mailbox.prune 10).1 = 2 ∧
      ((s.pruned 10).run steps).recipients.map (fun r => r.claims.map Claim.returned?) =
        [[some (.ok [[3]]), some (.ok [[1], [5], [7]])], [some (.ok [[1], [5]])]] ∧
      ∀ (b : Nat) (r : Recipient), (s.run steps).recipients[b]? = some r →
        ∃ r', ((s.pruned 10).run steps).recipients[b]? = some r' ∧ r'.seen = r.seen := by
  intro m s steps
  have hpast : ∀ r ∈ s.recipients, r.Past 10 := by
    intro r hr
    simp only [s, List.mem_cons, List.not_mem_nil, or_false] at hr
    rcases hr with rfl | rfl
    · exact ⟨⟨9, rfl, by decide⟩, by simp⟩
    · exact ⟨⟨11, rfl, by decide⟩, by simp⟩
  obtain ⟨hprune, hseen⟩ := pruned_unseen s 10 hpast steps
  refine ⟨?_, by cbv, ?_⟩
  · rw [hprune]
    decide
  · intro b r hr
    obtain ⟨r', hr', -, hsame, -⟩ := hseen b r hr
    exact ⟨r', hr', hsame⟩

end Mailroom

/-- A cursor that is further behind misses a letter that was pruned. -/
theorem Cursor.pruned_seen_by_laggard {cutoff t : Timestamp} (h : t.toNat + 1 < cutoff.toNat) (payload : Bytes) :
    let m : Mailbox := { letters := [⟨t + 1, payload⟩] }
    let c : Cursor := ⟨some t⟩
    (c.poll (t + 1) m).1 = .ok [payload] ∧ (c.poll (t + 1) (m.prune cutoff).2).1 = .ok [] := by
  intro m c
  have hbound := cutoff.toNat_lt
  have hsucc : (t + 1).toNat = t.toNat + 1 := by
    rw [UInt64.toNat_add]
    exact Nat.mod_eq_of_lt (by simp; omega)
  have hlt : t < t + 1 := by
    rw [UInt64.lt_iff_toNat_lt]
    omega
  have hearly : ¬cutoff ≤ t + 1 := by
    rw [UInt64.le_iff_toNat_le]
    omega
  have hclaim : c.claim (t + 1) = (some ⟨t, t + 1⟩, ⟨some (t + 1)⟩) := if_neg (UInt64.not_le.2 hlt)
  simp [poll, hclaim, m, Mailbox.prune, Mailbox.select, Mailbox.inWindow, Window.Holds, hlt, hearly, Except.map]

end Moderation
