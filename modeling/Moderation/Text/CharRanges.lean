/-!
# Sets of characters

A set of characters as the ranges of its code points, which is how the tables of a standard give it.
-/

namespace Moderation

abbrev CharRanges := List (Nat × Nat)

def CharRanges.has (rs : CharRanges) (c : Char) : Bool :=
  rs.any fun r => r.1 ≤ c.toNat && c.toNat ≤ r.2

end Moderation
