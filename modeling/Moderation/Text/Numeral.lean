/-!
# Decimal numerals

Unsigned 64-bit numerals as settings give them: ASCII digits after at most one plus sign.
-/

namespace Moderation.Numeral

/-- The number that a run of digits denotes; `none` for an empty run or any other character. -/
def ofDigits? (cs : List Char) : Option Nat :=
  if cs.isEmpty || !cs.all Char.isDigit then none
  else some (cs.foldl (fun n c => 10 * n + (c.toNat - '0'.toNat)) 0)

def unsigned : List Char → List Char
  | '+' :: cs => cs
  | cs => cs

def word? (cs : List Char) : Option UInt64 :=
  match ofDigits? (unsigned cs) with
  | some n => if n < UInt64.size then some (UInt64.ofNat n) else none
  | none => none

end Moderation.Numeral
