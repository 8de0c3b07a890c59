import Moderation.Proofs.Mailbox.Mailroom
/-!
# Delivery through a mailbox

A letter that is put into a mailbox reaches a recipient when it was put there before the recipient read the
window that holds its time. `delivered_once_if_expected` says so of every run in which the mailbox works: the
letter is received in one poll, or, when the recipient's cursor has come to its time already, in none.
-/

namespace Moderation

namespace Claim

variable {m : Mailbox} {c : Claim}

/-- A window is read once. -/
theorem read_of_not_unread (h : ¬c.Unread) : c.read m = c := by
  unfold read
  split
  · rfl
  · exact absurd ‹_› h

theorem read_of_unread (h : c.Unread) :
    c.read m = { c with reading := some ⟨m.letters.length, m.select c.window⟩ } := by
  unfold read
  rw [show c.reading = none from h]

end Claim

namespace Recipient

/-- How many times the polls were given the letter at a place. -/
def deliveries (m : Mailbox) (place : Nat) (r : Recipient) : Nat := ((r.rows m).map Row.place).count place

/-- The recipient has stayed the same but for polls, none of which read a mailbox that had no more than
`n` letters. -/
structure Continues (n : Nat) (r r' : Recipient) : Prop where
  /-- What came to the cursor is remembered. -/
  shown : r.shown <+: r'.shown
  /-- A window that was read stays as it is, and one that was not stays claimed. -/
  claims : ∀ (i : Nat) (c : Claim), r.claims[i]? = some c →
    ∃ c', r'.claims[i]? = some c' ∧ c'.window = c.window ∧ (¬c.Unread → c' = c)
  /-- What has been read since was read late. -/
  late : ∀ (i : Nat) (c' : Claim), r'.claims[i]? = some c' →
    r.claims[i]? = some c' ∨ ∀ k o, c'.reading = some ⟨k, o⟩ → n < k

/-- Every reading gave letters. -/
def Answered (r : Recipient) : Prop := ∀ c ∈ r.claims, ∀ k e, c.reading ≠ some ⟨k, .error e⟩

variable {m : Mailbox} {r r' r'' : Recipient} {n : Nat}

/-! ## Polls go on -/

theorem Continues.refl (n : Nat) (r : Recipient) : r.Continues n r where
  shown := List.prefix_rfl
  claims _ c hc := ⟨c, hc, rfl, fun _ => rfl⟩
  late _ _ hc := .inl hc

theorem Continues.trans (h : r.Continues n r') (h' : r'.Continues n r'') : r.Continues n r'' where
  shown := h.shown.trans h'.shown
  claims i c hc := by
    obtain ⟨c', hc', hw, hread⟩ := h.claims i c hc
    obtain ⟨c'', hc'', hw', hread'⟩ := h'.claims i c' hc'
    refine ⟨c'', hc'', hw'.trans hw, fun hu => ?_⟩
    obtain rfl := hread hu
    exact hread' hu
  late i c'' hc'' := by
    rcases h'.late i c'' hc'' with hc' | hlate
    · exact h.late i c'' hc'
    · exact .inr hlate

theorem Continues.look (n : Nat) (r : Recipient) (now : Timestamp) : r.Continues n (r.look now) :=
  { Continues.refl n r with }

theorem Continues.claim (n : Nat) (r : Recipient) (i : Nat) : r.Continues n (r.claim i) := by
  refine ⟨?_, fun j c hc => ⟨c, ?_, rfl, fun _ => rfl⟩, fun j c hc => ?_⟩
  · unfold Recipient.claim
    split
    · exact List.prefix_rfl
    · exact List.prefix_append _ _
  · unfold Recipient.claim
    split
    · exact hc
    · rw [List.getElem?_append_left (List.getElem?_eq_some_iff.1 hc).1, hc]
  · rcases unread_of_claim hc with hc | hu
    · exact .inl hc
    · exact .inr fun k o h => by simp [show c.reading = none from hu] at h

theorem Continues.read (hn : n < m.letters.length) (r : Recipient) (i : Nat) : r.Continues n (r.read m i) := by
  refine ⟨List.prefix_rfl, fun j c hc => ⟨_, getElem?_read.2 ⟨c, hc, rfl⟩, ?_⟩, fun j c' hc' => ?_⟩
  · split
    · exact ⟨c.read_window m, Claim.read_of_not_unread⟩
    · exact ⟨rfl, fun _ => rfl⟩
  · obtain ⟨c, hc, rfl⟩ := getElem?_read.1 hc'
    split
    · by_cases hu : c.Unread
      -- It is read now, when there are more than `n` letters.
      · refine .inr fun k o hr => ?_
        simp only [Claim.read_of_unread hu, Option.some.injEq, Reading.mk.injEq] at hr
        exact hr.1 ▸ hn
      · exact .inl (by rw [Claim.read_of_not_unread hu, hc])
    · exact .inl hc

/-! ## Reading without failure -/

theorem answered_new : Answered {} := by
  intro c hc
  simp at hc

theorem Answered.claim (h : r.Answered) (i : Nat) : (r.claim i).Answered := by
  intro c hc k e
  obtain ⟨j, hj⟩ := List.mem_iff_getElem?.1 hc
  rcases unread_of_claim hj with hj | hu
  · exact h c (List.mem_of_getElem? hj) k e
  · simp [show c.reading = none from hu]

theorem Answered.read (h : r.Answered) (hm : m.readFailure = none) (i : Nat) : (r.read m i).Answered := by
  intro c hc k e
  obtain ⟨c₀, hc₀, rfl | rfl⟩ := exists_of_mem_read hc
  · by_cases hu : c₀.Unread
    · simp [Claim.read_of_unread hu, Mailbox.select, hm]
    · rw [Claim.read_of_not_unread hu]
      exact h c₀ hc₀ k e
  · exact h c hc₀ k e

/-! ## Which letters a recipient receives -/

/-- A letter that was given is in the mailbox, and some window was read that holds it. -/
theorem Sound.of_mem_rows (h : r.Sound m) {q : Row} (hq : q ∈ r.rows m) : q ∈ m.rows ∧
    ∃ c ∈ r.claims, c.window.Holds q.time ∧ ∃ k o, c.reading = some ⟨k, o⟩ ∧ q.place < k := by
  obtain ⟨c, hc, hq⟩ := List.mem_flatMap.1 hq
  obtain ⟨k, letters, hr, hq, hk, hw⟩ := (Claim.mem_rows (h.readings c hc)).1 hq
  exact ⟨hq, c, hc, hw, k, _, hr, hk⟩

/-- A letter is received when the window that holds its time was read and the mailbox had it by then. -/
theorem Sound.deliveries_eq_one (h : r.Sound m) {q : Row} (hq : q ∈ m.rows) {c : Claim}
    (hc : c ∈ r.claims) {k : Nat} {letters : List Letter} (hr : c.reading = some ⟨k, .ok letters⟩)
    (hk : q.place < k) (hw : c.window.Holds q.time) : r.deliveries m q.place = 1 := by
  have hmem : q ∈ r.rows m :=
    List.mem_flatMap.2 ⟨c, hc, (Claim.mem_rows (h.readings c hc)).2 ⟨k, letters, hr, hq, hk, hw⟩⟩
  have hplaces := Mailbox.nodup_places h.partitions.once fun p hp => (h.of_mem_rows hp).1
  exact List.count_eq_one_of_mem hplaces (List.mem_map_of_mem hmem)

/-- A letter is not received when each window that holds its time was read before it was put there, or
is still to be read. -/
theorem Sound.deliveries_eq_zero (h : r.Sound m) {q : Row} (hq : q ∈ m.rows)
    (hearly : ∀ c ∈ r.claims, c.window.Holds q.time → ∀ k o, c.reading = some ⟨k, o⟩ → k ≤ q.place) :
    r.deliveries m q.place = 0 := by
  refine List.count_eq_zero.2 fun hmem => ?_
  obtain ⟨q', hq', hplace⟩ := List.mem_map.1 hmem
  obtain ⟨hrow, c, hc, hw, k, o, hr, hk⟩ := h.of_mem_rows hq'
  obtain rfl := Mailbox.eq_of_place hrow hq hplace
  exact absurd hk (Nat.not_lt.2 (hearly c hc hw k o hr))

/-- A window that is read late, if it holds a letter's time, gives the letter. -/
theorem Sound.deliveries_of_late (h : r.Sound m) (ha : r.Answered) {q : Row} (hq : q ∈ m.rows)
    {c : Claim} (hc : c ∈ r.claims) (hread : ¬c.Unread) (hw : c.window.Holds q.time)
    (hlate : ∀ k o, c.reading = some ⟨k, o⟩ → q.place < k) : r.deliveries m q.place = 1 := by
  obtain ⟨⟨k, o⟩, hr⟩ := Option.ne_none_iff_exists'.1 hread
  cases o with
  | error e => exact absurd hr (ha c hc k e)
  | ok letters => exact h.deliveries_eq_one hq hc hr (hlate k _ hr) hw

/-! ## A letter that is put there while polls go on

The recipient is `r` when the letter comes to a mailbox `m`, and `r'` when all its polls are done. -/

section Arrival

variable {m' : Mailbox} {c c' t : Timestamp}

/-- The cursor had not come to the time yet, or a window that holds it was claimed and not read. -/
def Expects (t : Timestamp) (r : Recipient) : Prop :=
  (∀ c ∈ r.cursor.last, c < t) ∨ ∃ d ∈ r.claims, d.Unread ∧ d.window.Holds t

instance (t : Timestamp) (r : Recipient) : Decidable (r.Expects t) := inferInstanceAs (Decidable (_ ∨ _))

/-- One window holds an instant. -/
theorem Sound.eq_of_holds (h : r.Sound m) {d e : Claim} (hd : d ∈ r.claims) (he : e ∈ r.claims)
    (hdt : d.window.Holds t) (het : e.window.Holds t) : d = e := by
  have : Std.Symm fun d e : Claim => ∀ t, ¬(d.window.Holds t ∧ e.window.Holds t) :=
    ⟨fun d e hde t ⟨he, hd⟩ => hde t ⟨hd, he⟩⟩
  by_contra hne
  exact h.partitions.disjoint.forall hd he hne t ⟨hdt, het⟩

theorem Continues.head?_shown (hcont : r.Continues n r') {b : Timestamp} (hb : r.shown.head? = some b) :
    r'.shown.head? = some b := by
  obtain ⟨later, hlater⟩ := hcont.shown
  rw [← hlater, List.head?_append, hb]
  rfl

/-- The time of a letter that the recipient expects comes to lie in a window that is read late. -/
theorem Continues.exists_late (h : r.Sound m) (h' : r'.Sound m') (hcont : r.Continues n r')
    (hc : r.cursor.last = some c) (hc' : r'.cursor.last = some c') (htime : t ≤ c')
    (hdone : ∀ d ∈ r'.claims, ¬d.Unread) (hexp : r.Expects t) :
    ∃ d ∈ r'.claims, d.window.Holds t ∧ ∀ k o, d.reading = some ⟨k, o⟩ → n < k := by
  rcases hexp with hlt | ⟨d, hd, hu, hw⟩
  · -- The window is claimed later: those that were claimed by then end at the cursor.
    obtain ⟨b, hb, -⟩ := h.tiling c hc
    have hbt : b < t := UInt64.lt_of_le_of_lt ((h.latest c hc).2 b (List.mem_of_mem_head? hb)) (hlt c hc)
    obtain ⟨d, hd, hw⟩ := (h'.covers t).2 ⟨b, c', hcont.head?_shown hb, hc', hbt, htime⟩
    refine ⟨d, hd, hw, ?_⟩
    obtain ⟨i, hi⟩ := List.mem_iff_getElem?.1 hd
    refine (hcont.late i d hi).resolve_left fun hi' => ?_
    obtain ⟨_, e, _, he, _, hte⟩ := (h.covers t).1 ⟨d, List.mem_of_getElem? hi', hw⟩
    exact UInt64.not_lt.2 hte (hlt e he)
  · -- The window was claimed by then and is read later.
    obtain ⟨i, hi⟩ := List.mem_iff_getElem?.1 hd
    obtain ⟨e, he, hwin, -⟩ := hcont.claims i d hi
    refine ⟨e, List.mem_of_getElem? he, hwin ▸ hw, (hcont.late i e he).resolve_left fun hi' => ?_⟩
    obtain rfl := Option.some.inj (hi.symm.trans hi')
    exact hdone d (List.mem_of_getElem? he) hu

/-- The time of a letter that the recipient does not expect lies in no window that is read late. -/
theorem Continues.early (h : r.Sound m) (h' : r'.Sound m') (hcont : r.Continues n r')
    (hc : r.cursor.last = some c) (hexp : ¬r.Expects t) {d' : Claim} (hd' : d' ∈ r'.claims)
    (hw : d'.window.Holds t) : d' ∈ r.claims := by
  rw [Expects, not_or] at hexp
  obtain ⟨hle, hread⟩ := hexp
  -- An old window `d` holds the time, and it has been read, so it is still the same; no other one holds it.
  have htc : t ≤ c := by simpa [hc] using hle
  obtain ⟨b, hb, -⟩ := h.tiling c hc
  obtain ⟨b', _, hb', _, hbt, _⟩ := (h'.covers t).1 ⟨d', hd', hw⟩
  obtain rfl := Option.some.inj ((hcont.head?_shown hb).symm.trans hb')
  obtain ⟨d, hd, hdw⟩ := (h.covers t).2 ⟨b, c, hb, hc, hbt, htc⟩
  obtain ⟨i, hi⟩ := List.mem_iff_getElem?.1 hd
  obtain ⟨e, he, hwin, hkeep⟩ := hcont.claims i d hi
  obtain rfl := hkeep fun hu => hread ⟨d, hd, hu, hdw⟩
  obtain rfl := h'.eq_of_holds hd' (List.mem_of_getElem? he) hw hdw
  exact hd

/-- The letter is received once if the recipient expects its time, and is not received otherwise. -/
theorem Continues.deliveries_eq (h : r.Sound m) (h' : r'.Sound m')
    (hcont : r.Continues m.letters.length r') (ha : r'.Answered) {letter : Letter}
    (hq : ⟨m.letters.length, letter⟩ ∈ m'.rows) (hc : r.cursor.last = some c)
    (hc' : r'.cursor.last = some c') (htime : letter.time ≤ c') (hdone : ∀ d ∈ r'.claims, ¬d.Unread) :
    r'.deliveries m' m.letters.length = if r.Expects letter.time then 1 else 0 := by
  split
  · next hexp =>
    obtain ⟨d, hd, hw, hlate⟩ := hcont.exists_late h h' hc hc' htime hdone hexp
    exact h'.deliveries_of_late ha hq hd (hdone d hd) hw hlate
  · next hexp =>
    refine h'.deliveries_eq_zero hq fun d' hd' hw k o hr => ?_
    cases o with
    | error e => exact absurd hr (ha d' hd' k e)
    | ok letters => exact (h.readings d' (hcont.early h h' hc hexp hd' hw) k letters hr).1

end Arrival

end Recipient

/-! ## Mailrooms without failures -/

namespace Mailroom

variable {s : Mailroom} {b n : Nat}

/-- The mailbox works, and has worked whenever it was read. -/
structure Working (s : Mailroom) : Prop where
  readable : s.mailbox.readFailure = none
  writable : s.mailbox.writeFailure = none
  answered : ∀ (b : Nat) (r : Recipient), s.recipients[b]? = some r → r.Answered

theorem working_opened {m : Mailbox} (hread : m.readFailure = none) (hwrite : m.writeFailure = none)
    (clock : Timestamp) (n : Nat) : (opened m clock n).Working := by
  refine ⟨hread, hwrite, fun b r hr => ?_⟩
  simp only [opened, List.getElem?_replicate] at hr
  split at hr
  · cases hr
    exact Recipient.answered_new
  · cases hr

theorem put_failures (s : Mailroom) (letter : Letter) :
    (s.put letter).mailbox.readFailure = s.mailbox.readFailure ∧
      (s.put letter).mailbox.writeFailure = s.mailbox.writeFailure := by
  unfold put Mailbox.insert
  cases hw : s.mailbox.writeFailure <;> simp [hw]

theorem Working.step (h : s.Working) {a : Step} (ha : ∀ read write, a ≠ .fail read write) :
    (s.step a).Working := by
  have hfailures : (s.step a).mailbox.readFailure = s.mailbox.readFailure ∧
      (s.step a).mailbox.writeFailure = s.mailbox.writeFailure := by
    cases a with
    | put letter => exact put_failures s letter
    | post i =>
      simp only [Mailroom.step]
      split
      · exact ⟨rfl, rfl⟩
      · exact put_failures s _
    | fail read write => exact absurd rfl (ha read write)
    | _ => exact ⟨rfl, rfl⟩
  refine ⟨hfailures.1.trans h.readable, hfailures.2.trans h.writable, fun b r' hr' => ?_⟩
  rw [recipients_step, Option.map_eq_some_iff] at hr'
  obtain ⟨r, hr, rfl⟩ := hr'
  have hanswered := h.answered b r hr
  rcases stepOf_cases s b a r with hr | hr | ⟨i, hr⟩ | ⟨i, hr⟩ <;> rw [hr]
  · exact hanswered
  · exact hanswered
  · exact hanswered.claim i
  · exact hanswered.read h.readable i

theorem Working.run (h : s.Working) {steps : List Step} (hsteps : ∀ read write, .fail read write ∉ steps) :
    (s.run steps).Working := by
  induction steps generalizing s with
  | nil => exact h
  | cons a steps ih =>
    refine ih (h.step fun read write ha => ?_) fun read write ha => ?_
    · exact hsteps read write (ha ▸ List.mem_cons_self)
    · exact hsteps read write (List.mem_cons_of_mem _ ha)

theorem continues_step (hn : n < s.mailbox.letters.length) (a : Step) (r : Recipient) :
    r.Continues n (s.stepOf b a r) := by
  rcases stepOf_cases s b a r with hr | hr | ⟨i, hr⟩ | ⟨i, hr⟩ <;> rw [hr]
  · exact Recipient.Continues.refl n r
  · exact Recipient.Continues.look n r _
  · exact Recipient.Continues.claim n r i
  · exact Recipient.Continues.read hn r i

theorem continues_run (hn : n < s.mailbox.letters.length) (steps : List Step) {r : Recipient}
    (hr : s.recipients[b]? = some r) : ∃ r', (s.run steps).recipients[b]? = some r' ∧ r.Continues n r' := by
  induction steps generalizing s r with
  | nil => exact ⟨r, hr, Recipient.Continues.refl n r⟩
  | cons a steps ih =>
    have hn' := Nat.lt_of_lt_of_le hn (letters_prefix_step s a).length_le
    obtain ⟨r', hr', hcont⟩ := ih hn' (r := s.stepOf b a r) (by rw [recipients_step, hr]; rfl)
    exact ⟨r', hr', (continues_step hn a r).trans hcont⟩

theorem Working.letters_post (hw : s.Working) {i : Nat} {letter : Letter} (hi : s.stamped[i]? = some letter) :
    (s.step (.post i)).mailbox.letters = s.mailbox.letters ++ [letter] := by
  simp only [Mailroom.step, hi, put_letters, hw.writable, if_true]

/-- A letter that is put there stays at its place. -/
theorem Working.mem_rows_run (hw : s.Working) {i : Nat} {letter : Letter} (hi : s.stamped[i]? = some letter)
    (after : List Step) :
    ⟨s.mailbox.letters.length, letter⟩ ∈ ((s.step (.post i)).run after).mailbox.rows := by
  obtain ⟨later, hlater⟩ := letters_prefix_run (s.step (.post i)) after
  rw [Mailbox.mem_rows, ← hlater, hw.letters_post hi]
  simp

theorem Working.deliveries_of_post (hw : s.Working) (hs : s.Sound) {i : Nat} {letter : Letter}
    (hi : s.stamped[i]? = some letter) {after : List Step} (hafter : ∀ read write, .fail read write ∉ after)
    {r r' : Recipient} (hr : s.recipients[b]? = some r) (hbase : r.cursor.last.isSome)
    (hr' : ((s.step (.post i)).run after).recipients[b]? = some r')
    (hpolled : ∃ t ∈ r'.shown, letter.time < t) (hdone : ∀ d ∈ r'.claims, ¬d.Unread) :
    r'.deliveries ((s.step (.post i)).run after).mailbox s.mailbox.letters.length =
      if r.Expects letter.time then 1 else 0 := by
  have hw' : ((s.step (.post i)).run after).Working := (hw.step (by simp)).run hafter
  have hs' : r'.Sound _ := (hs.run [.post i]).run after b r' hr'
  have hcont : r.Continues s.mailbox.letters.length r' := by
    have hn : s.mailbox.letters.length < (s.step (.post i)).mailbox.letters.length := by
      simp [hw.letters_post hi]
    obtain ⟨r'', hr'', hcont⟩ := continues_run hn after (b := b) (r := r) (by rw [recipients_step, hr]; rfl)
    rwa [Option.some.inj (hr''.symm.trans hr')] at hcont
  obtain ⟨c, hc⟩ := Option.isSome_iff_exists.1 hbase
  obtain ⟨t, ht, hlt⟩ := hpolled
  cases hc' : r'.cursor.last with
  | none => simp [(hs'.fresh hc').1] at ht
  | some c' =>
    have htime : letter.time ≤ c' := UInt64.le_trans (UInt64.le_of_lt hlt) ((hs'.latest c' hc').2 t ht)
    exact hcont.deliveries_eq (hs b r hr) hs' (hw'.answered b r' hr') (hw.mem_rows_run hi after) hc hc'
      htime hdone

/-- In a mailroom whose mailbox works, a node puts the `i`-th of the stamped letters there when the
`b`-th recipient is `r`. When that recipient has come to the cursor with a later time since then and its polls
are done, they have been given the letter once if the recipient expected the letter's time, and never otherwise.
All that they were given are letters of the mailbox, each at its place, and where nothing comes between, a letter is
sent and a poll made as the medium lets it. -/
theorem delivered_once_if_expected {m : Mailbox} (hread : m.readFailure = none) (hwrite : m.writeFailure = none)
    (clock : Timestamp) (recipients : Nat) (before after : List Step)
    (hsteps : ∀ read write, .fail read write ∉ before ++ after) (i b : Nat) (letter : Letter) (r r' : Recipient)
    (hi : ((opened m clock recipients).run before).stamped[i]? = some letter)
    (hr : ((opened m clock recipients).run before).recipients[b]? = some r) (hbase : r.cursor.last.isSome)
    (hr' : ((opened m clock recipients).run (before ++ .post i :: after)).recipients[b]? = some r')
    (hpolled : ∃ t ∈ r'.shown.drop r.shown.length, letter.time < t) (hdone : ∀ d ∈ r'.claims, ¬d.Unread) :
    let s := (opened m clock recipients).run before
    let s' := (opened m clock recipients).run (before ++ .post i :: after)
    r'.deliveries s'.mailbox s.mailbox.letters.length = (if r.Expects letter.time then 1 else 0) ∧
      (r'.rows s'.mailbox).map Row.letter = r'.letters ∧ (∀ q ∈ r'.rows s'.mailbox, q ∈ s'.mailbox.rows) ∧
      s.Whole b r ∧ s'.Whole b r' := by
  intro s s'
  have hw : s.Working := (working_opened hread hwrite clock recipients).run fun read write h =>
    hsteps read write (List.mem_append_left _ h)
  have hs : s.Sound := (sound_opened m clock recipients).run before
  have hs' : r'.Sound s'.mailbox := (sound_opened m clock recipients).run _ b r' hr'
  refine ⟨?_, hs'.map_letter_rows, fun q hq => (hs'.of_mem_rows hq).1, whole hr, whole hr'⟩
  obtain ⟨t, ht, hlt⟩ := hpolled
  have hrun : s' = (s.step (.post i)).run after := run_append _ before (.post i :: after)
  change s'.recipients[b]? = some r' at hr'
  rw [hrun] at hr' ⊢
  exact hw.deliveries_of_post hs hi (fun read write h => hsteps read write (List.mem_append_right _ h)) hr hbase
    hr' ⟨t, List.mem_of_mem_drop ht, hlt⟩ hdone

/-- A letter is stamped between two polls and put there when the second one has claimed its time. -/
theorem delivered_while_claimed :
    let before : List Step := [.look 0, .claim 0 0, .move (.advance 5), .stamp [7], .look 0, .claim 0 0]
    let after : List Step := [.read 0 0, .move (.advance 5), .look 0, .claim 0 0, .read 0 1]
    let s' := (opened {} 100 1).run (before ++ .post 0 :: after)
    ∃ r r', ((opened {} 100 1).run before).recipients[0]? = some r ∧ r.cursor.last = some 105 ∧
      s'.recipients[0]? = some r' ∧ r'.deliveries s'.mailbox 0 = 1 ∧ r'.letters = [⟨105, [7]⟩] ∧
      r'.claims.map Claim.returned? = [some (.ok [[7]]), some (.ok [])] := by
  intro before after s'
  let r : Recipient := { cursor := ⟨some 105⟩, shown := [100, 105], claims := [{ window := ⟨100, 105⟩ }] }
  obtain ⟨hdelivered, -⟩ := delivered_once_if_expected (m := {}) rfl rfl 100 1 before after (by simp [before, after])
    0 0 ⟨105, [7]⟩ r _ rfl rfl rfl rfl (by decide) (by decide)
  refine ⟨r, _, rfl, rfl, rfl, ?_, by cbv, by cbv⟩
  exact hdelivered.trans (if_pos (.inr ⟨_, List.mem_singleton_self _, by decide, by decide⟩))

/-- A letter that is put there after a poll and at its time is lost: the poll came before it, and the
next poll, at a later time, does not look back to it. That poll is given the letter that was put there last. -/
theorem letter_at_cursor_lost :
    let before : List Step := [.look 0, .claim 0 0, .look 1, .claim 1 0, .stamp [7]]
    let after : List Step := [.move (.advance 1), .stamp [8], .post 0, .look 0, .claim 0 0, .read 0 0]
    let s := (opened {} 100 2).run before
    let s' := (opened {} 100 2).run (before ++ .post 0 :: after)
    s.stamped = [⟨100, [7]⟩] ∧ s.recipients[0]?.map (·.cursor.last) = some (some 100) ∧
      s'.mailbox.letters = [⟨100, [7]⟩, ⟨101, [8]⟩] ∧ s'.clock = 101 ∧
      s'.recipients[0]?.map (·.cursor.last) = some (some 101) ∧
      s'.recipients[0]?.map (·.claims.map Claim.returned?) = some [some (.ok [[8]])] ∧
      s'.recipients[0]?.map (·.deliveries s'.mailbox 0) = some 0 ∧
      s'.recipients[0]?.map (·.deliveries s'.mailbox 1) = some 1 := by
  refine ⟨rfl, rfl, rfl, rfl, rfl, by cbv, by cbv, by cbv⟩

end Mailroom

end Moderation
