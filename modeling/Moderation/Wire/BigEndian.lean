import Moderation.Text.Hex
/-!
# Big-endian numbers

A number as a fixed count of bytes, most significant first.
-/

namespace Moderation.BigEndian

def ofNat : (width : Nat) → Nat → Bytes
  | 0, _ => []
  | width + 1, n => ofNat width (n / 256) ++ [UInt8.ofNat n]

def toNat (bs : Bytes) : Nat := bs.foldl (fun n b => 256 * n + b.toNat) 0

end Moderation.BigEndian
