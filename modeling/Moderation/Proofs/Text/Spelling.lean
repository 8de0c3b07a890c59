import Mathlib.Data.List.TakeWhile
import Mathlib.Data.Nat.Digits.Defs
import Moderation.Text.Blank
import Moderation.Text.Numeral
/-!
# How values are spelled

What is left of a text without the blanks around it, and which texts denote a 64-bit number, are said by what they are
made of and not by how they are read.
-/

namespace Moderation

namespace Blank

/-- The text is `inner` with blanks around it, and `inner` neither begins nor ends with one. -/
def Surrounds (cs inner : List Char) : Prop :=
  (∃ before after, cs = before ++ inner ++ after ∧ (∀ c ∈ before, isBlank c) ∧ ∀ c ∈ after, isBlank c) ∧
    (∀ c ∈ inner.head?, ¬isBlank c) ∧ ∀ c ∈ inner.getLast?, ¬isBlank c

theorem dropWhile_eq_self {cs : List Char} (h : ∀ c ∈ cs.head?, ¬isBlank c) : cs.dropWhile isBlank = cs := by
  cases cs with
  | nil => rfl
  | cons c cs => exact List.dropWhile_cons_of_neg (h c rfl)

theorem trim_of_surrounds {cs inner : List Char} (h : Surrounds cs inner) : trim cs = inner := by
  obtain ⟨⟨before, after, rfl, hbefore, hafter⟩, hhead, hlast⟩ := h
  rw [trim, List.append_assoc, List.dropWhile_append_of_pos hbefore]
  cases inner with
  | nil =>
    rw [List.nil_append, List.dropWhile_eq_nil_iff.2 hafter]
    rfl
  | cons c cs =>
    have hfront : (c :: cs ++ after).dropWhile isBlank = c :: cs ++ after := dropWhile_eq_self hhead
    rw [hfront, List.reverse_append, List.dropWhile_append_of_pos (by simpa using hafter), dropWhile_eq_self,
      List.reverse_reverse]
    rwa [List.head?_reverse]

theorem not_isBlank_of_head? {cs : List Char} {c : Char} (h : c ∈ (cs.dropWhile isBlank).head?) : ¬isBlank c := by
  have hnot := List.head?_dropWhile_not isBlank cs
  rw [Option.mem_def.1 h] at hnot
  simpa using hnot

theorem exists_eq_append_dropWhile (cs : List Char) :
    ∃ before, cs = before ++ cs.dropWhile isBlank ∧ ∀ c ∈ before, isBlank c :=
  ⟨cs.takeWhile isBlank, List.takeWhile_append_dropWhile.symm, fun _ hc => List.mem_takeWhile_imp hc⟩

theorem surrounds_trim (cs : List Char) : Surrounds cs (trim cs) := by
  obtain ⟨before, hcs, hbefore⟩ := exists_eq_append_dropWhile cs
  obtain ⟨after, hfront, hafter⟩ := exists_eq_append_dropWhile (cs.dropWhile isBlank).reverse
  have hfront : cs.dropWhile isBlank = trim cs ++ after.reverse := by
    rw [← List.reverse_reverse (cs.dropWhile isBlank), hfront, List.reverse_append]
    rfl
  refine ⟨⟨before, after.reverse, ?_, hbefore, by simpa using hafter⟩, fun c hc => ?_, fun c hc => ?_⟩
  · rw [List.append_assoc, ← hfront]
    exact hcs
  · -- What is left begins as the text does without the blanks in front.
    have hbegins : c ∈ (cs.dropWhile isBlank).head? := by
      rw [hfront, List.head?_append, Option.mem_def.1 hc]
      rfl
    exact not_isBlank_of_head? hbegins
  · rw [trim, List.getLast?_reverse] at hc
    exact not_isBlank_of_head? hc

/-- Trimming takes the blanks off both ends, and nothing else. -/
theorem trim_eq_iff {cs inner : List Char} : trim cs = inner ↔ Surrounds cs inner := by
  constructor
  · rintro rfl
    exact surrounds_trim cs
  · exact trim_of_surrounds

end Blank

namespace Numeral

/-- The text is a decimal numeral of `n`, with or without a plus sign in front. Zeros in front do not matter. -/
def Denotes (cs : List Char) (n : Nat) : Prop :=
  ∃ digits : List Char, (cs = digits ∨ cs = '+' :: digits) ∧ digits ≠ [] ∧ (∀ d ∈ digits, d.isDigit) ∧
    n = Nat.ofDigits 10 (digits.reverse.map fun d => d.toNat - '0'.toNat)

theorem ofDigits?_eq_some_iff {cs : List Char} {n : Nat} : ofDigits? cs = some n ↔
    cs ≠ [] ∧ (∀ d ∈ cs, d.isDigit) ∧ n = Nat.ofDigits 10 (cs.reverse.map fun d => d.toNat - '0'.toNat) := by
  have hvalue : Nat.ofDigits 10 (cs.reverse.map fun d => d.toNat - '0'.toNat) =
      cs.foldl (fun n c => 10 * n + (c.toNat - '0'.toNat)) 0 := by
    rw [Nat.ofDigits_eq_foldr, List.foldr_map, List.foldr_reverse]
    simp only [Nat.cast_id, Nat.add_comm]
  rw [hvalue, ofDigits?]
  by_cases hdigits : cs ≠ [] ∧ ∀ d ∈ cs, d.isDigit
  · rw [if_neg (by simpa using hdigits)]
    exact ⟨fun h => ⟨hdigits.1, hdigits.2, (Option.some.inj h).symm⟩, fun h => congrArg some h.2.2.symm⟩
  · rw [if_pos (by simpa [or_iff_not_imp_left] using hdigits)]
    exact iff_of_false (by simp) fun h => hdigits ⟨h.1, h.2.1⟩

theorem unsigned_of_digits {cs : List Char} (h : ∀ d ∈ cs, d.isDigit) : unsigned cs = cs := by
  unfold unsigned
  split
  · exact absurd (h '+' List.mem_cons_self) (by decide)
  · rfl

theorem eq_unsigned_or (cs : List Char) : cs = unsigned cs ∨ cs = '+' :: unsigned cs := by
  unfold unsigned
  split
  · exact .inr rfl
  · exact .inl rfl

/-- A text is read as a number of 64 bits if it is a numeral of that number, and only then. -/
theorem word?_eq_some_iff {cs : List Char} {n : UInt64} : word? cs = some n ↔ Denotes cs n.toNat := by
  constructor
  · intro h
    unfold word? at h
    split at h
    · next m hm =>
      split at h
      · next hlt =>
        cases h
        refine ⟨unsigned cs, eq_unsigned_or cs, ?_⟩
        rw [UInt64.toNat_ofNat_of_lt' hlt]
        exact ofDigits?_eq_some_iff.1 hm
      · cases h
    · cases h
  · rintro ⟨digits, hcs, hdenotes⟩
    have hunsigned : unsigned cs = digits := by
      rcases hcs with rfl | rfl
      · exact unsigned_of_digits hdenotes.2.1
      · rfl
    simp only [word?, hunsigned, ofDigits?_eq_some_iff.2 hdenotes]
    rw [if_pos n.toNat_lt, UInt64.ofNat_toNat]

end Numeral

end Moderation
