import Moderation.Clock
import Moderation.Identity.Uuid
import Moderation.Wire.BigEndian
/-!
# Values on the wire

A message is a sequence of typed values with nothing between them. Numbers are big-endian, a truth
value is one byte, and a text is preceded by its length in bytes as two bytes.
-/

namespace Moderation.Wire

inductive EncodeError where
  /-- The text of that field has more bytes than its length can say. -/
  | stringTooLong (field : String) (length : Nat)
deriving DecidableEq

def maxTextLength : Nat := 65535

instance : ToString EncodeError where
  toString
    | .stringTooLong field length => s!"String too long for {field}: {length} bytes > {maxTextLength}"

inductive Value where
  | long (n : Int64)
  | byte (b : UInt8)
  | flag (b : Bool)
  | uuid (u : Uuid)
  | text (field : String) (s : String)

def utf8 (s : String) : Bytes := s.toUTF8.data.toList

namespace Value

def encode : Value → Except EncodeError Bytes
  | long n => .ok (BigEndian.ofNat 8 n.toUInt64.toNat)
  | byte b => .ok [b]
  | flag b => .ok [if b then 1 else 0]
  | uuid u => .ok u.bytes
  | text field s =>
    if s.utf8ByteSize ≤ maxTextLength then .ok (BigEndian.ofNat 2 s.utf8ByteSize ++ utf8 s)
    else .error (.stringTooLong field s.utf8ByteSize)

end Value

/-- Writes a value behind what has been written; a value that cannot be written leaves it alone. -/
def put (written : Bytes) (v : Value) : Except EncodeError Unit × Bytes :=
  match v.encode with
  | .ok bs => (.ok (), written ++ bs)
  | .error e => (.error e, written)

/-- Writes values one after the other, up to the first that cannot be written. -/
def putAll (written : Bytes) : List Value → Except EncodeError Unit × Bytes
  | [] => (.ok (), written)
  | v :: vs =>
    match put written v with
    | (.ok (), written) => putAll written vs
    | failed => failed

end Moderation.Wire
