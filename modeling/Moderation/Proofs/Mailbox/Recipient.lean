import Mathlib.Data.List.Chain
import Moderation.Medium.Basic
import Moderation.Proofs.Mailbox.Rows
/-!
# Recipients of a mailbox

A poll is not one step: it looks at the clock, then claims a window, then reads it, and another poll
of the same recipient can come between any two of these. A recipient is the cursor with the polls that are
under way and with a record of what it claimed and of what it was given. `Recipient.Sound` is what each of the
three steps keeps, and `Recipient.Partitions` is what follows: the windows divide up the time from the baseline
to the cursor, and every row goes to the poll whose window holds it. Three steps with nothing between them are
the poll that the medium offers (`Recipient.poll_eq`).
-/

namespace Moderation

/-! ## Windows end to end -/

/-- Windows that lead from `a` to an instant: none is empty, and each begins where the one before it
ended. -/
inductive Tiling (a : Timestamp) : List Window → Timestamp → Prop
  | nil : Tiling a [] a
  | snoc {ws b c} : Tiling a ws b → b < c → Tiling a (ws ++ [⟨b, c⟩]) c

namespace Tiling

variable {a b : Timestamp} {ws : List Window}

theorem le (h : Tiling a ws b) : a ≤ b := by
  induction h with
  | nil => exact UInt64.le_refl _
  | snoc _ hbc ih => exact UInt64.le_trans ih (UInt64.le_of_lt hbc)

theorem proper (h : Tiling a ws b) : ∀ w ∈ ws, w.after < w.upTo := by
  induction h with
  | nil => simp
  | snoc _ hbc ih =>
    intro w hw
    rcases List.mem_append.1 hw with hw | hw
    · exact ih w hw
    · obtain rfl := List.mem_singleton.1 hw
      exact hbc

theorem upTo_le (h : Tiling a ws b) : ∀ w ∈ ws, w.upTo ≤ b := by
  induction h with
  | nil => simp
  | snoc _ hbc ih =>
    intro w hw
    rcases List.mem_append.1 hw with hw | hw
    · exact UInt64.le_trans (ih w hw) (UInt64.le_of_lt hbc)
    · obtain rfl := List.mem_singleton.1 hw
      exact UInt64.le_refl _

/-- The last window ends where the windows lead to. -/
theorem getLast? (h : Tiling a ws b) : ∀ w ∈ ws.getLast?, w.upTo = b := by
  cases h with
  | nil => simp
  | snoc => simp

/-- An instant lies in one of the windows when it lies between their ends. -/
theorem holds_iff (h : Tiling a ws b) {t : Timestamp} : (∃ w ∈ ws, w.Holds t) ↔ a < t ∧ t ≤ b := by
  induction h with
  | nil => simp only [List.not_mem_nil, false_and, exists_false]; grind
  | @snoc ws b c hws hbc ih =>
    -- The new window begins at `b`, where the others lead to.
    have hab := hws.le
    simp only [List.mem_append, List.mem_singleton, or_and_right, exists_or, exists_eq_left, ih]
    simp only [Window.Holds]
    grind

/-- A window ends before the later ones begin. -/
theorem pairwise (h : Tiling a ws b) : ws.Pairwise fun v w => v.upTo ≤ w.after := by
  induction h with
  | nil => exact List.Pairwise.nil
  | snoc hws _ ih =>
    refine List.pairwise_append.2 ⟨ih, List.pairwise_singleton _ _, fun v hv w hw => ?_⟩
    obtain rfl := List.mem_singleton.1 hw
    exact hws.upTo_le v hv

/-- A window ends where the next one begins. -/
theorem isChain (h : Tiling a ws b) : ws.IsChain fun v w => v.upTo = w.after := by
  induction h with
  | nil => exact List.IsChain.nil
  | snoc hws _ ih =>
    refine List.isChain_append.2 ⟨ih, List.isChain_singleton _, fun v hv w hw => ?_⟩
    simp only [List.head?_cons, Option.mem_def, Option.some.injEq] at hw
    subst hw
    exact hws.getLast? v hv

end Tiling

/-! ## Reading step by step -/

/-- What the reading of a window gave. -/
structure Reading where
  /-- How many letters the mailbox had by then. -/
  size : Nat
  /-- What the mailbox gave: letters, or why they could not be read. -/
  outcome : Except StoreError (List Letter)

/-- A window that a poll claimed, and what it read there once it has. -/
structure Claim where
  window : Window
  reading : Option Reading := none

namespace Claim

/-- The letters that the poll was given. -/
def letters (c : Claim) : List Letter :=
  match c.reading with
  | some ⟨_, .ok letters⟩ => letters
  | _ => []

/-- What the poll that claimed the window returned, if it has read it. -/
def returned? (c : Claim) : Option (Except StoreError (List Bytes)) :=
  c.reading.map fun r => r.outcome.map fun letters => letters.map Letter.payload

/-- The letters that the poll was given, each at its place. -/
def rows (m : Mailbox) (c : Claim) : List Row :=
  match c.reading with
  | some ⟨n, .ok letters⟩ => List.zipWith (fun q letter => { q with letter }) ((m.first n).rowsIn c.window) letters
  | _ => []

/-- The poll has claimed its window and not read it. -/
def Unread (c : Claim) : Prop := c.reading = none

instance (c : Claim) : Decidable c.Unread :=
  match h : c.reading with
  | none => isTrue h
  | some _ => isFalse (by simp [Unread, h])

/-- Reads the window, if that is still to be done. -/
def read (m : Mailbox) (c : Claim) : Claim :=
  match c.reading with
  | some _ => c
  | none => { c with reading := some ⟨m.letters.length, m.select c.window⟩ }

end Claim

/-- A node's side of a mailbox. -/
structure Recipient where
  /-- The end of the last window. -/
  cursor : Cursor := {}
  /-- The readings of the clock with which polls have not come to the cursor yet. -/
  looks : List Timestamp := []
  /-- The readings with which polls came to the cursor. -/
  shown : List Timestamp := []
  claims : List Claim := []

namespace Recipient

def look (now : Timestamp) (r : Recipient) : Recipient := { r with looks := r.looks ++ [now] }

/-- The poll that looked `i`-th among those on their way comes to the cursor. -/
def claim (i : Nat) (r : Recipient) : Recipient :=
  match r.looks[i]? with
  | none => r
  | some now =>
    { cursor := (r.cursor.claim now).2
      looks := r.looks.eraseIdx i
      shown := r.shown ++ [now]
      claims := r.claims ++ (r.cursor.claim now).1.toList.map fun w => { window := w } }

/-- The poll that claimed the `i`-th window reads it. -/
def read (m : Mailbox) (i : Nat) (r : Recipient) : Recipient :=
  { r with claims := r.claims.modify i (Claim.read m) }

/-- A poll that nothing comes between, and what it returns: what was read in its window, if it claimed one. -/
def poll (now : Timestamp) (m : Mailbox) (r : Recipient) : Except StoreError (List Bytes) × Recipient :=
  let r' := ((r.look now).claim r.looks.length).read m r.claims.length
  ((r'.claims[r.claims.length]?.bind Claim.returned?).getD (.ok []), r')

/-- The letters that the polls were given, window by window in the order of the claims. -/
def letters (r : Recipient) : List Letter := r.claims.flatMap Claim.letters

/-- These letters, each at its place. -/
def rows (m : Mailbox) (r : Recipient) : List Row := r.claims.flatMap (Claim.rows m)

end Recipient

/-! ## Cursors -/

namespace Cursor

/-- What a claim does: it sets the place, it finds that the clock has not moved on, or it takes the
window up to now. -/
theorem claim_cases (c : Cursor) (now : Timestamp) :
    (c.last = none ∧ c.claim now = (none, ⟨some now⟩)) ∨
    (∃ last, c.last = some last ∧ now ≤ last ∧ c.claim now = (none, c)) ∨
    (∃ last, c.last = some last ∧ last < now ∧ c.claim now = (some ⟨last, now⟩, ⟨some now⟩)) := by
  unfold claim
  split
  · exact .inl ⟨‹_›, rfl⟩
  · next last h =>
    by_cases hle : now ≤ last
    · exact .inr (.inl ⟨last, h, hle, if_pos hle⟩)
    · exact .inr (.inr ⟨last, h, UInt64.not_le.1 hle, if_neg hle⟩)

/-- A cursor that has a place has one that is no earlier in `c'`. -/
def Le (c c' : Cursor) : Prop := ∀ t, c.last = some t → ∃ t', c'.last = some t' ∧ t ≤ t'

theorem Le.refl (c : Cursor) : c.Le c := fun t h => ⟨t, h, UInt64.le_refl _⟩

theorem Le.trans {c₁ c₂ c₃ : Cursor} (h : c₁.Le c₂) (h' : c₂.Le c₃) : c₁.Le c₃ := by
  intro t ht
  obtain ⟨t', ht', hle⟩ := h t ht
  obtain ⟨t'', ht'', hle'⟩ := h' t' ht'
  exact ⟨t'', ht'', UInt64.le_trans hle hle'⟩

theorem le_claim (c : Cursor) (now : Timestamp) : c.Le (c.claim now).2 := by
  intro t ht
  rcases claim_cases c now with ⟨h, -⟩ | ⟨last, h, -, hc⟩ | ⟨last, h, hlt, hc⟩
  · simp [h] at ht
  · exact ⟨t, by rw [hc, ht], UInt64.le_refl _⟩
  · rw [h, Option.some.injEq] at ht
    exact ⟨now, by rw [hc], ht ▸ UInt64.le_of_lt hlt⟩

end Cursor

/-! ## What every step keeps -/

namespace Claim

@[simp] theorem read_window (m : Mailbox) (c : Claim) : (c.read m).window = c.window := by
  unfold read
  split <;> rfl

/-- The reading is of the mailbox as it was after some of its letters. -/
def Sound (m : Mailbox) (c : Claim) : Prop :=
  ∀ n letters, c.reading = some ⟨n, .ok letters⟩ →
    n ≤ m.letters.length ∧ letters = (m.first n).inWindow c.window

theorem Sound.mono {m m' : Mailbox} {c : Claim} (h : c.Sound m) (hm : m.letters <+: m'.letters) :
    c.Sound m' := by
  intro n letters hr
  obtain ⟨hn, rfl⟩ := h n letters hr
  exact ⟨Nat.le_trans hn hm.length_le, (Mailbox.inWindow_first_mono hn hm _).symm⟩

theorem Sound.read {m : Mailbox} {c : Claim} (h : c.Sound m) : (c.read m).Sound m := by
  intro n letters hr
  unfold Claim.read at hr ⊢
  split at hr
  · exact h n letters hr
  · simp only [Option.some.injEq, Reading.mk.injEq, Mailbox.select] at hr
    obtain ⟨rfl, hr⟩ := hr
    split at hr
    · cases hr
    · cases hr
      exact ⟨Nat.le_refl _, by simp [*, Mailbox.first_length]⟩

/-- The letters that were given are at the places of the window, in their order. -/
theorem Sound.rows_eq {m : Mailbox} {c : Claim} (h : c.Sound m) {n : Nat} {letters : List Letter}
    (hr : c.reading = some ⟨n, .ok letters⟩) : c.rows m = (m.first n).rowsIn c.window := by
  obtain ⟨-, rfl⟩ := h n letters hr
  simp only [rows, hr, ← Mailbox.map_letter_rowsIn, List.zipWith_map_right, List.zipWith_self, List.map_id']

theorem Sound.map_letter_rows {m : Mailbox} {c : Claim} (h : c.Sound m) : (c.rows m).map Row.letter = c.letters := by
  rcases hr : c.reading with _ | ⟨n, e | letters⟩
  · simp only [rows, Claim.letters, hr, List.map_nil]
  · simp only [rows, Claim.letters, hr, List.map_nil]
  · obtain ⟨-, rfl⟩ := h n letters hr
    rw [h.rows_eq hr, Mailbox.map_letter_rowsIn, Claim.letters, hr]

/-- A poll was given the letters of its window that were in the mailbox when it read, and no others. -/
theorem mem_rows {m : Mailbox} {c : Claim} (h : c.Sound m) {q : Row} :
    q ∈ c.rows m ↔
      ∃ n letters, c.reading = some ⟨n, .ok letters⟩ ∧ q ∈ m.rows ∧ q.place < n ∧ c.window.Holds q.time := by
  rcases hr : c.reading with _ | ⟨n, e | letters⟩
  · simp [rows, hr]
  · simp [rows, hr]
  · simp [h.rows_eq hr, Mailbox.mem_rowsIn, Mailbox.mem_rows_first, and_assoc]

theorem Sound.holds {m : Mailbox} {c : Claim} (h : c.Sound m) {q : Row} (hq : q ∈ c.rows m) :
    c.window.Holds q.time := by
  obtain ⟨_, _, _, _, _, hw⟩ := (mem_rows h).1 hq
  exact hw

theorem Sound.sorted {m : Mailbox} {c : Claim} (h : c.Sound m) : (c.rows m).Pairwise Row.Before := by
  rcases hr : c.reading with _ | ⟨n, e | letters⟩
  · simp [rows, hr]
  · simp [rows, hr]
  · rw [h.rows_eq hr]
    exact Mailbox.rowsIn_sorted _ _

end Claim

namespace Recipient

/-- The record agrees with the cursor and with the mailbox. -/
structure Sound (m : Mailbox) (r : Recipient) : Prop where
  /-- A recipient without a place has not polled. -/
  fresh : r.cursor.last = none → r.shown = [] ∧ r.claims = []
  /-- The windows lead from the first reading of the clock to the cursor. -/
  tiling : ∀ c, r.cursor.last = some c →
    ∃ b, r.shown.head? = some b ∧ Tiling b (r.claims.map Claim.window) c
  /-- The cursor is the latest reading of the clock. -/
  latest : ∀ c, r.cursor.last = some c → c ∈ r.shown ∧ ∀ t ∈ r.shown, t ≤ c
  /-- What was read was there. -/
  readings : ∀ c ∈ r.claims, c.Sound m

theorem sound_new (m : Mailbox) : Sound m {} where
  fresh := by simp
  tiling := by simp
  latest := by simp
  readings := by simp

variable {m m' : Mailbox} {r : Recipient}

theorem Sound.mono (h : r.Sound m) (hm : m.letters <+: m'.letters) : r.Sound m' :=
  { h with readings := fun c hc => (h.readings c hc).mono hm }

theorem Sound.look (h : r.Sound m) (now : Timestamp) : (r.look now).Sound m :=
  { h with }

theorem getElem?_read {i j : Nat} {c : Claim} : (r.read m i).claims[j]? = some c ↔
    ∃ c₀, r.claims[j]? = some c₀ ∧ c = if i = j then c₀.read m else c₀ := by
  simp only [Recipient.read, List.getElem?_modify, Option.map_eq_map, Option.map_eq_some_iff]
  simp only [eq_comm]

theorem exists_of_mem_read {i : Nat} {c : Claim} (hc : c ∈ (r.read m i).claims) :
    ∃ c₀ ∈ r.claims, c = c₀.read m ∨ c = c₀ := by
  obtain ⟨j, hj⟩ := List.mem_iff_getElem?.1 hc
  obtain ⟨c₀, hc₀, rfl⟩ := getElem?_read.1 hj
  refine ⟨c₀, List.mem_of_getElem? hc₀, ?_⟩
  split
  · exact .inl rfl
  · exact .inr rfl

/-- The window of a new claim is still to be read. -/
theorem unread_of_claim {i j : Nat} {c : Claim} (hc : (r.claim i).claims[j]? = some c) :
    r.claims[j]? = some c ∨ c.Unread := by
  unfold Recipient.claim at hc
  split at hc
  · exact .inl hc
  · rw [List.getElem?_append] at hc
    split at hc
    · exact .inl hc
    · have hc := List.mem_of_getElem? hc
      simp only [List.mem_map] at hc
      obtain ⟨w, -, rfl⟩ := hc
      exact .inr rfl

theorem Sound.read (h : r.Sound m) (i : Nat) : (r.read m i).Sound m := by
  -- Only the reading of one claim changes, so what is said of windows stays as it is.
  have hwindows : (r.read m i).claims.map Claim.window = r.claims.map Claim.window := by
    refine List.ext_getElem? fun j => ?_
    simp only [Recipient.read, List.getElem?_map, List.getElem?_modify, Option.map_eq_map, Option.map_map]
    congr 1
    funext c
    simp only [Function.comp]
    split <;> simp
  refine ⟨fun hc => ?_, fun c hc => ?_, h.latest, fun c hc => ?_⟩
  · obtain ⟨hs, hcl⟩ := h.fresh hc
    exact ⟨hs, by simp [Recipient.read, hcl]⟩
  · rw [hwindows]
    exact h.tiling c hc
  · obtain ⟨c₀, hc₀, rfl | rfl⟩ := exists_of_mem_read hc
    · exact (h.readings c₀ hc₀).read
    · exact h.readings c hc₀

theorem Sound.claim (h : r.Sound m) (i : Nat) : (r.claim i).Sound m := by
  unfold Recipient.claim
  split
  · exact h
  next now hnow =>
  rcases r.cursor.claim_cases now with ⟨hl, hc⟩ | ⟨last, hl, hle, hc⟩ | ⟨last, hl, hlt, hc⟩
  -- The first reading becomes the baseline.
  · obtain ⟨hs, hcl⟩ := h.fresh hl
    refine ⟨?_, ?_, ?_, ?_⟩ <;> simp [hc, hs, hcl, Tiling.nil]
  -- The clock has not moved on: the reading is remembered, and neither cursor nor windows change.
  · obtain ⟨b, hb, ht⟩ := h.tiling last hl
    obtain ⟨hmem, hmax⟩ := h.latest last hl
    refine ⟨?_, ?_, ?_, ?_⟩
    · simp [hc, hl]
    · simp only [hc, hl, Option.some.injEq, forall_eq', Option.toList_none, List.map_nil, List.append_nil]
      exact ⟨b, by simp [List.head?_append, hb], ht⟩
    · simp only [hc, hl, Option.some.injEq, forall_eq', List.mem_append, List.mem_singleton]
      refine ⟨.inl hmem, ?_⟩
      rintro t (ht | rfl)
      · exact hmax t ht
      · exact hle
    · simpa [hc] using h.readings
  -- A window from the old place to the reading is put behind the others, and nothing is read from it yet.
  · obtain ⟨b, hb, ht⟩ := h.tiling last hl
    obtain ⟨hmem, hmax⟩ := h.latest last hl
    refine ⟨?_, ?_, ?_, ?_⟩
    · simp [hc]
    · simp only [hc, Option.some.injEq, forall_eq', Option.toList_some, List.map_cons, List.map_nil,
        List.map_append]
      exact ⟨b, by simp [List.head?_append, hb], ht.snoc hlt⟩
    · simp only [hc, Option.some.injEq, forall_eq', List.mem_append, List.mem_singleton, or_true, true_and]
      rintro t (ht | rfl)
      · exact UInt64.le_trans (hmax t ht) (UInt64.le_of_lt hlt)
      · exact UInt64.le_refl _
    · simp only [hc, Option.toList_some, List.map_cons, List.map_nil, List.mem_append, List.mem_singleton]
      rintro c (hc | rfl)
      · exact h.readings c hc
      · intro n letters hr
        simp at hr

theorem cursor_le_claim (r : Recipient) (i : Nat) : r.cursor.Le (r.claim i).cursor := by
  unfold Recipient.claim
  split
  · exact Cursor.Le.refl _
  · exact Cursor.le_claim _ _

/-! ## What the record says -/

/-- The windows divide up the time since the baseline, and each poll has the rows of its window. -/
structure Partitions (m : Mailbox) (r : Recipient) : Prop where
  /-- No window is empty. -/
  proper : ∀ c ∈ r.claims, c.window.after < c.window.upTo
  /-- No instant lies in two windows. -/
  disjoint : r.claims.Pairwise fun c d => ∀ t, ¬(c.window.Holds t ∧ d.window.Holds t)
  /-- Each window begins where the one before it ended. -/
  meet : (r.claims.map Claim.window).IsChain fun v w => v.upTo = w.after
  /-- The windows hold the time after the first reading of the clock up to the cursor, and no other. -/
  covers : ∀ t, (∃ c ∈ r.claims, c.window.Holds t) ↔
    ∃ b c, r.shown.head? = some b ∧ r.cursor.last = some c ∧ b < t ∧ t ≤ c
  /-- The cursor is the latest reading of the clock that came to it, if one did. -/
  latest : ∀ c, r.cursor.last = some c ↔ c ∈ r.shown ∧ ∀ t ∈ r.shown, t ≤ c
  /-- All letters that a poll was given are at some place. -/
  placed : ∀ c ∈ r.claims, (c.rows m).map Row.letter = c.letters
  /-- None is given twice from one place. -/
  once : (r.rows m).Nodup
  /-- A poll that read when there were `n` letters was given those of them that its window holds. -/
  complete : ∀ c ∈ r.claims, ∀ n letters, c.reading = some ⟨n, .ok letters⟩ →
    ∀ q, q ∈ c.rows m ↔ q ∈ m.rows ∧ q.place < n ∧ c.window.Holds q.time
  /-- In the order of the claims the letters are sorted by time, and in one time by place. -/
  sorted : (r.rows m).Pairwise Row.Before

theorem Sound.covers (h : r.Sound m) (t : Timestamp) : (∃ c ∈ r.claims, c.window.Holds t) ↔
    ∃ b c, r.shown.head? = some b ∧ r.cursor.last = some c ∧ b < t ∧ t ≤ c := by
  cases hl : r.cursor.last with
  | none => simp [(h.fresh hl).2]
  | some last =>
    obtain ⟨b, hb, ht⟩ := h.tiling last hl
    have hwindows := ht.holds_iff (t := t)
    simp only [List.mem_map, exists_exists_and_eq_and] at hwindows
    simp [hwindows, hb]

theorem Sound.pairwise (h : r.Sound m) :
    r.claims.Pairwise fun c d => c.window.upTo ≤ d.window.after := by
  cases hl : r.cursor.last with
  | none => simp [(h.fresh hl).2]
  | some last =>
    obtain ⟨b, -, ht⟩ := h.tiling last hl
    exact List.pairwise_map.1 ht.pairwise

theorem Sound.sorted (h : r.Sound m) : (r.rows m).Pairwise Row.Before := by
  refine List.pairwise_flatMap.2 ⟨fun c hc => (h.readings c hc).sorted, ?_⟩
  -- Rows of different claims differ in time, since the windows do.
  refine h.pairwise.imp_of_mem fun {c d} hc hd hcd p hp q hq => .inl ?_
  have hpc := (h.readings c hc).holds hp
  have hqd := (h.readings d hd).holds hq
  exact UInt64.lt_of_le_of_lt (UInt64.le_trans hpc.2 hcd) hqd.1

/-- All letters that the polls were given are at some place. -/
theorem Sound.map_letter_rows (h : r.Sound m) : (r.rows m).map Row.letter = r.letters := by
  rw [rows, List.map_flatMap, letters]
  exact List.flatMap_congr fun c hc => (h.readings c hc).map_letter_rows

theorem Sound.latest_iff (h : r.Sound m) (c : Timestamp) :
    r.cursor.last = some c ↔ c ∈ r.shown ∧ ∀ t ∈ r.shown, t ≤ c := by
  refine ⟨h.latest c, fun ⟨hmem, hmax⟩ => ?_⟩
  cases hl : r.cursor.last with
  | none => simp [(h.fresh hl).1] at hmem
  | some last =>
    obtain ⟨hlmem, hlmax⟩ := h.latest last hl
    rw [UInt64.le_antisymm (hmax last hlmem) (hlmax c hmem)]

theorem Sound.partitions (h : r.Sound m) : r.Partitions m where
  proper c hc := by
    cases hl : r.cursor.last with
    | none => simp [(h.fresh hl).2] at hc
    | some last =>
      obtain ⟨b, -, ht⟩ := h.tiling last hl
      exact ht.proper _ (List.mem_map_of_mem hc)
  disjoint := h.pairwise.imp fun hcd t ⟨hc, hd⟩ =>
    UInt64.lt_irrefl _ (UInt64.lt_of_le_of_lt (UInt64.le_trans hc.2 hcd) hd.1)
  meet := by
    cases hl : r.cursor.last with
    | none => simp [(h.fresh hl).2]
    | some last =>
      obtain ⟨b, -, ht⟩ := h.tiling last hl
      exact ht.isChain
  covers := h.covers
  latest := h.latest_iff
  placed c hc := (h.readings c hc).map_letter_rows
  once := h.sorted.imp fun {p q} hpq => by
    rintro rfl
    exact hpq.irrefl
  complete c hc n letters hr q := by
    rw [(h.readings c hc).rows_eq hr, Mailbox.mem_rowsIn, Mailbox.mem_rows_first, and_assoc]
  sorted := h.sorted

/-! ## A poll that nothing comes between -/

/-- A poll that comes to the cursor at once leaves the other polls on their way. -/
theorem claim_look (r : Recipient) (now : Timestamp) :
    (r.look now).claim r.looks.length =
      { cursor := (r.cursor.claim now).2
        looks := r.looks
        shown := r.shown ++ [now]
        claims := r.claims ++ (r.cursor.claim now).1.toList.map fun w => { window := w } } := by
  have hlook : (r.look now).looks[r.looks.length]? = some now := by simp [look]
  simp only [claim, hlook]
  simp [look, List.eraseIdx_append_of_length_le]

/-- Such a poll is the one that the medium offers: it returns the same and leaves the cursor at the same place. -/
theorem poll_eq (r : Recipient) (now : Timestamp) (m : Mailbox) :
    ((r.poll now m).1, (r.poll now m).2.cursor) = Medium.poll now m r.cursor := by
  change _ = r.cursor.poll now m
  simp only [poll, read, claim_look, Cursor.poll]
  rcases r.cursor.claim now with ⟨_ | w, c⟩
  · simp
  · simp [Claim.returned?, Claim.read]

end Recipient

end Moderation
