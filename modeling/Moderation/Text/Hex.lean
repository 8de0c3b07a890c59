/-!
# Hexadecimal text

Two digits for each byte, high half first. Digits are written in lower case and read in either.
-/

namespace Moderation

abbrev Bytes := List UInt8

namespace Hex

def digits : List Char :=
  ['0', '1', '2', '3', '4', '5', '6', '7', '8', '9', 'a', 'b', 'c', 'd', 'e', 'f']

def digit (n : Nat) : Char := digits.getD n '0'

def value? (c : Char) : Option Nat :=
  if '0' ≤ c ∧ c ≤ '9' then some (c.toNat - '0'.toNat)
  else if 'a' ≤ c ∧ c ≤ 'f' then some (c.toNat - 'a'.toNat + 10)
  else if 'A' ≤ c ∧ c ≤ 'F' then some (c.toNat - 'A'.toNat + 10)
  else none

/-- The digits of a number without leading zeros; a lone `0` for zero. -/
def ofNat (n : Nat) : List Char := Nat.toDigits 16 n

def ofByte (b : UInt8) : List Char := [digit (b.toNat / 16), digit (b.toNat % 16)]

def encode (bs : Bytes) : List Char := bs.flatMap ofByte

/-- Reads pairs of digits; fails on any other character and on an odd digit. -/
def decode? (cs : List Char) : Option Bytes := go [] cs
where
  /-- Reads the pairs after those already held in reverse. -/
  go (held : Bytes) : List Char → Option Bytes
    | [] => some held.reverse
    | [_] => none
    | a :: b :: rest =>
      match value? a, value? b with
      | some x, some y => go (UInt8.ofNat (16 * x + y) :: held) rest
      | _, _ => none

end Hex

end Moderation
