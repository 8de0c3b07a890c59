import Moderation.Wire.Value
/-!
# Reading from the wire

A reader takes values off the front of its input. What a failed reader has already taken stays taken:
nothing if the input is too short, and the bytes of the value if they denote none.
-/

namespace Moderation.Wire

inductive DecodeError where
  | truncated (field : String) (needed : Nat)
  | unknownPacketType (n : UInt8)
  | unknownOrdinal (field : String) (n : UInt8)
  | invalidBoolean (b : UInt8)
  | invalidUtf8 (field : String)
deriving DecidableEq

instance : ToString DecodeError where
  toString
    | .truncated field needed => s!"Truncated input: needed {needed} more bytes for {field}"
    | .unknownPacketType n => s!"Unknown packet type discriminant: {n}"
    | .unknownOrdinal field n => s!"Unknown ordinal {n} for {field}"
    | .invalidBoolean b => s!"Invalid boolean byte {b}"
    | .invalidUtf8 field => s!"Invalid UTF-8 in {field}"

/-- Takes from the front of the input, or fails; what is left is known either way. -/
abbrev Reader (α : Type) := ExceptT DecodeError (StateM Bytes) α

/-- Takes `n` bytes, or nothing if there are fewer. -/
def take (field : String) (n : Nat) : Reader Bytes := do
  let input ← get
  if input.length < n then
    throw (.truncated field (n - input.length))
  set (input.drop n)
  return input.take n

def takeLong (field : String) : Reader Int64 := do
  return (UInt64.ofNat (BigEndian.toNat (← take field 8))).toInt64

def takeByte (field : String) : Reader UInt8 := do
  return (← take field 1).headD 0

def takeFlag (field : String) : Reader Bool := do
  match ← takeByte field with
  | 0 => return false
  | 1 => return true
  | b => throw (.invalidBoolean b)

def takeUuid (field : String) : Reader Uuid := do
  return (Uuid.ofBytes? (← take field 16)).getD Uuid.nil

def ofUtf8? (bs : Bytes) : Option String := String.fromUTF8? ⟨bs.toArray⟩

def takeText (field : String) : Reader String := do
  let length := BigEndian.toNat (← take field 2)
  match ofUtf8? (← take field length) with
  | some s => return s
  | none => throw (.invalidUtf8 field)

inductive Shape where
  | long
  | byte
  | flag
  | uuid
  | text
deriving DecidableEq

def Value.shape : Value → Shape
  | long _ => .long
  | byte _ => .byte
  | flag _ => .flag
  | uuid _ => .uuid
  | text _ _ => .text

def Shape.take (field : String) : Shape → Reader Value
  | .long => .long <$> takeLong field
  | .byte => .byte <$> takeByte field
  | .flag => .flag <$> takeFlag field
  | .uuid => .uuid <$> takeUuid field
  | .text => .text field <$> takeText field

end Moderation.Wire
