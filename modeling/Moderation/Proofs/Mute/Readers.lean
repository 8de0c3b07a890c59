import Mathlib.Data.List.Induction
import Moderation.Proofs.Mute.Recording
/-!
# Readers of a cache that asks on demand

Whoever looks a visitor up loads the visitor's entry, waits for its value and, if that is over, removes the entry and
loads once more. Each of these is a step of its own, and in between other readers take their turns, mutes are recorded
and cleared, visitors come in, the cache is swept and the store answers. A look-up at one go is that of a reader who
takes all turns in a row (`exists_turns_read`, `exists_turns_resume`).
-/

namespace Moderation

/-- What numbers the values anew that it changes. -/
def Table.Numbers {κ α : Type} (number : α → Nat) (f : κ → α → Nat → α × Nat) : Prop :=
  ∀ k a n, f k a n = (a, n) ∨ (number (f k a n).1 = n ∧ (f k a n).2 = n + 1)

namespace Table.Numbers

variable {κ α : Type} {number : α → Nat} {f : κ → α → Nat → α × Nat}

theorem le_scanRows (hf : Numbers number f) (rows : List (κ × α)) (n : Nat) : n ≤ (scanRows f rows n).2 := by
  induction rows generalizing n with
  | nil => exact Nat.le_refl n
  | cons r rows ih =>
    refine Nat.le_trans ?_ (ih (f r.1 r.2 n).2)
    rcases hf r.1 r.2 n with hsame | ⟨-, hnext⟩
    · exact Nat.le_of_eq (by rw [hsame])
    · exact hnext ▸ Nat.le_succ n

/-- A row is one that was there, or bears a new number. -/
theorem mem_scanRows (hf : Numbers number f) {rows : List (κ × α)} {n : Nat} {r : κ × α}
    (h : r ∈ (scanRows f rows n).1) : r ∈ rows ∨ n ≤ number r.2 ∧ number r.2 < (scanRows f rows n).2 := by
  induction rows generalizing n with
  | nil => cases h
  | cons first rows ih =>
    have hrest := hf.le_scanRows rows (f first.1 first.2 n).2
    rcases List.mem_cons.1 h with rfl | h
    · rcases hf first.1 first.2 n with hsame | ⟨hnumber, hnext⟩
      · exact .inl (by simp [hsame])
      · refine .inr ⟨Nat.le_of_eq hnumber.symm, ?_⟩
        simp only [scanRows]
        omega
    · rcases ih h with hold | ⟨hlow, hhigh⟩
      · exact .inl (List.mem_cons_of_mem first hold)
      · refine .inr ⟨?_, hhigh⟩
        rcases hf first.1 first.2 n with hsame | ⟨-, hnext⟩
        · rwa [hsame] at hlow
        · omega

/-- The new numbers are given out in the order of the rows. -/
theorem map_scanRows (hf : Numbers number f) {rows : List (κ × α)} {n : Nat} (hrows : ∀ r ∈ rows, number r.2 < n)
    {m : Nat} (hm : n ≤ m) : ((scanRows f rows m).1.filter fun r => n ≤ number r.2).map (fun r => number r.2) =
      List.range' m ((scanRows f rows m).2 - m) := by
  induction rows generalizing m with
  | nil => simp [scanRows]
  | cons first rows ih =>
    have hlater : ∀ r ∈ rows, number r.2 < n := fun r hr => hrows r (List.mem_cons_of_mem first hr)
    rcases hf first.1 first.2 m with hsame | ⟨hnumber, hnext⟩
    · have hold : ¬n ≤ number first.2 := Nat.not_le.2 (hrows first List.mem_cons_self)
      simp only [scanRows, hsame, List.filter_cons, hold, decide_false, Bool.false_eq_true, if_false]
      exact ih hlater hm
    · have hrest := hf.le_scanRows rows (m + 1)
      have hlength : (scanRows f rows (m + 1)).2 - m = (scanRows f rows (m + 1)).2 - (m + 1) + 1 := by omega
      simp only [scanRows, hnext, List.filter_cons, hnumber, hm, decide_true, if_true, List.map_cons]
      rw [ih hlater (Nat.le_succ_of_le hm), hlength, List.range'_succ]

end Table.Numbers

namespace Mute

namespace OnDemand

/-! ## Turns -/

/-- How far a reader has come. -/
inductive Stage where
  /-- It is to load the entry, so many times at most. -/
  | loading (left : Nat)
  /-- It waits for the value of the entry with that number. -/
  | awaiting (entry : Nat) (source : Source) (left : Nat)
  /-- The value was over, and the entry with that number is to be removed. -/
  | evicting (entry : Nat) (left : Nat)
  | done (v : Option Punishment)
deriving DecidableEq

/-- Somebody who looks a visitor up and wants no mute that is over at `second`. -/
structure Reader where
  key : Visitor
  second : Seconds
  stage : Stage
deriving DecidableEq

namespace Reader

/-- A reader goes on by one step, if what it waits for is there. -/
def turn (now : Timestamp) (r : Reader) (c : OnDemand) : Reader × OnDemand :=
  match r.stage with
  | .loading 0 => ({ r with stage := .done none }, c)
  | .loading (left + 1) =>
    let (e, c) := c.load now r.key
    ({ r with stage := .awaiting e.id e.source left }, c)
  | .awaiting entry source left =>
    match source.value? c.ledger with
    | some v =>
      ({ r with stage := if ∃ p ∈ v, p.ExpiredAt r.second then .evicting entry left else .done v }, c)
    | none => (r, c)
  | .evicting entry left => ({ r with stage := .loading left }, c.dropEntry r.key entry)
  | .done _ => (r, c)

/-- So many turns in a row. -/
def turns (now : Timestamp) : Nat → Reader → OnDemand → Reader × OnDemand
  | 0, r, c => (r, c)
  | n + 1, r, c =>
    let (r, c) := r.turn now c
    turns now n r c

/-- What the reader would be told by now. -/
inductive Told : Reader → Reply → Prop
  | value {key : Visitor} {second : Seconds} {v : Option Punishment} : Told ⟨key, second, .done v⟩ (.value v)
  | later {key : Visitor} {second : Seconds} {q : InquiryId} {entry again : Nat} :
    Told ⟨key, second, .awaiting entry (.asked q) again⟩ (.later (.reading q key entry second again))

end Reader

variable {c : OnDemand} {now : Timestamp} {key : Visitor} {second : Seconds}

theorem Reader.turn_of_value {source : Source} {v : Option Punishment} (hv : source.value? c.ledger = some v)
    (hlive : ∀ p ∈ v, ¬p.ExpiredAt second) (now : Timestamp) (key : Visitor) (id left : Nat) :
    Reader.turn now ⟨key, second, .awaiting id source left⟩ c = (⟨key, second, .done v⟩, c) := by
  have hlive' : ¬∃ p ∈ v, p.ExpiredAt second := fun ⟨p, hp, hover⟩ => hlive p hp hover
  simp only [turn, hv, hlive', if_false]

/-- A look-up that has loaded an entry whose value is there answers with that, or removes the entry and reads again. -/
theorem read_of_value {c' : OnDemand} {e : Entry} {v : Option Punishment} (hload : c.load now key = (e, c'))
    (hv : e.value? c'.ledger = some v) (tries : Nat) : c.read now key second (tries + 1) =
      if ∃ p ∈ v, p.ExpiredAt second then (c'.dropEntry key e.id).read now key second tries else (.value v, c') := by
  conv_lhs => unfold read
  simp only [hload, hv]
  cases e.source <;> rfl

/-- A look-up that has loaded an entry whose value is not there waits for it. -/
theorem read_of_awaited {c' : OnDemand} {e : Entry} {q : InquiryId} (hload : c.load now key = (e, c'))
    (hsource : e.source = .asked q) (hv : e.value? c'.ledger = none) (tries : Nat) :
    c.read now key second (tries + 1) = (.later (.reading q key e.id second tries), c') := by
  simp only [read, hload, hsource, hv]

/-- A reader whose value is there comes in some turns to where a look-up comes that goes on with this value. -/
theorem exists_turns_awaiting {source : Source} {tries : Nat} {v : Option Punishment}
    (hv : source.value? c.ledger = some v) (id : Nat) (hread : ∀ c : OnDemand, ∃ n r,
      Reader.turns now n ⟨key, second, .loading tries⟩ c = (r, (c.read now key second tries).2) ∧
        r.Told (c.read now key second tries).1) :
    let read := if ∃ p ∈ v, p.ExpiredAt second then (c.dropEntry key id).read now key second tries else (.value v, c)
    ∃ n r, Reader.turns now n ⟨key, second, .awaiting id source tries⟩ c = (r, read.2) ∧ r.Told read.1 := by
  have hfirst (n : Nat) : Reader.turns now (n + 1) ⟨key, second, .awaiting id source tries⟩ c = Reader.turns now n
      ⟨key, second, if ∃ p ∈ v, p.ExpiredAt second then .evicting id tries else .done v⟩ c := by
    simp only [Reader.turns, Reader.turn, hv]
  by_cases hover : ∃ p ∈ v, p.ExpiredAt second
  · obtain ⟨n, r, hturns, htold⟩ := hread (c.dropEntry key id)
    simp only [hover, if_true] at hfirst ⊢
    exact ⟨n + 2, r, (hfirst (n + 1)).trans hturns, htold⟩
  · simp only [hover, if_false] at hfirst ⊢
    exact ⟨1, _, hfirst 0, .value⟩

/-- To read at one go is to take turns in a row. -/
theorem exists_turns_read (now : Timestamp) (key : Visitor) (second : Seconds) (tries : Nat) (c : OnDemand) :
    ∃ n r, Reader.turns now n ⟨key, second, .loading tries⟩ c = (r, (c.read now key second tries).2) ∧
      r.Told (c.read now key second tries).1 := by
  induction tries generalizing c with
  | zero => exact ⟨1, _, rfl, .value⟩
  | succ tries ih =>
    rcases hload : c.load now key with ⟨e, c'⟩
    have hfirst (n : Nat) : Reader.turns now (n + 1) ⟨key, second, .loading (tries + 1)⟩ c =
        Reader.turns now n ⟨key, second, .awaiting e.id e.source tries⟩ c' := by
      simp only [Reader.turns, Reader.turn, hload]
    cases hv : e.value? c'.ledger with
    | none =>
      cases hsource : e.source with
      | asked q =>
        rw [read_of_awaited hload hsource hv]
        exact ⟨1, _, hfirst 0, hsource ▸ .later⟩
      | known v =>
        rw [Entry.value?, hsource] at hv
        cases hv
    | some v =>
      obtain ⟨n, r, hturns, htold⟩ := exists_turns_awaiting hv e.id ih
      rw [read_of_value hload hv]
      exact ⟨n + 1, r, (hfirst n).trans hturns, htold⟩

/-- To go on at one go with what was waited for is to take turns in a row. -/
theorem exists_turns_resume {r : Reader} {w : Waiting} (h : r.Told (.later w)) (now : Timestamp) (c : OnDemand) :
    ∃ n r', Reader.turns now n r c = (r', (c.resume now w).2) ∧ r'.Told (c.resume now w).1 := by
  cases h with
  | @later key second q entry again =>
    cases hv : c.ledger.answer? q with
    | none =>
      simp only [resume, hv]
      exact ⟨0, _, rfl, .later⟩
    | some v =>
      have hvalue : (Source.asked q).value? c.ledger = some v := hv
      simp only [resume, hv]
      exact exists_turns_awaiting hvalue entry (exists_turns_read now key second again)

end OnDemand

end Mute

end Moderation
