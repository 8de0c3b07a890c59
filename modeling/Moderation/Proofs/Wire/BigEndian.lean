import Mathlib.Algebra.Order.Ring.Nat
import Moderation.Wire.BigEndian
/-!
# Reading numbers back

`toNat_ofNat` and `ofNat_toNat` say that bytes and the numbers below the power of 256 correspond.
-/

namespace Moderation.BigEndian

@[simp] theorem length_ofNat (width n : Nat) : (ofNat width n).length = width := by
  induction width generalizing n with
  | zero => rfl
  | succ width ih => simp [ofNat, ih]

theorem toNat_append (bs : Bytes) (b : UInt8) : toNat (bs ++ [b]) = 256 * toNat bs + b.toNat := by
  simp [toNat]

theorem toNat_ofNat {width n : Nat} (h : n < 256 ^ width) : toNat (ofNat width n) = n := by
  induction width generalizing n with
  | zero =>
    simp only [Nat.pow_zero] at h
    simp [ofNat, toNat]
    omega
  | succ width ih =>
    have hq : n / 256 < 256 ^ width := by
      rw [Nat.div_lt_iff_lt_mul (by decide)]
      simpa [Nat.pow_succ] using h
    rw [ofNat, toNat_append, ih hq, UInt8.toNat_ofNat']
    omega

theorem toNat_lt (bs : Bytes) : toNat bs < 256 ^ bs.length := by
  induction h : bs.length generalizing bs with
  | zero =>
    rw [List.eq_nil_of_length_eq_zero h]
    decide
  | succ n ih =>
    have hne : bs ≠ [] := by rintro rfl; simp at h
    rw [← List.dropLast_concat_getLast hne, toNat_append]
    have := ih bs.dropLast (by simp [h])
    have := (bs.getLast hne).toNat_lt
    rw [Nat.pow_succ]
    omega

theorem ofNat_toNat (bs : Bytes) : ofNat bs.length (toNat bs) = bs := by
  induction h : bs.length generalizing bs with
  | zero => rw [List.eq_nil_of_length_eq_zero h]; rfl
  | succ n ih =>
    have hne : bs ≠ [] := by rintro rfl; simp at h
    have hb := (bs.getLast hne).toNat_lt
    have hl : bs = bs.dropLast ++ [bs.getLast hne] := (List.dropLast_concat_getLast hne).symm
    rw [hl, toNat_append, ofNat]
    have hd : (256 * toNat bs.dropLast + (bs.getLast hne).toNat) / 256 = toNat bs.dropLast := by
      omega
    have hm : UInt8.ofNat (256 * toNat bs.dropLast + (bs.getLast hne).toNat) = bs.getLast hne := by
      apply UInt8.toNat_inj.1
      rw [UInt8.toNat_ofNat']
      omega
    rw [hd, hm, ih bs.dropLast (by simp [h])]

end Moderation.BigEndian
