import Moderation.Punishment.Json
import Moderation.Wire.Reader
/-!
# Wire values in JSON

Reading of values that are to be written, each under the name of its type, and writing of values that
were read.
-/

namespace Moderation

def Json.toByte? (v : Json) : Option UInt8 :=
  match v.toNat? with
  | some n => if n < 256 then some (UInt8.ofNat n) else none
  | none => none

namespace Wire

def Shape.ofName? : String → Option Shape
  | "i64" => some long
  | "u8" => some byte
  | "bool" => some flag
  | "uuid" => some uuid
  | "string" => some text
  | _ => none

def Value.ofJson? (v : Json) : Option Value :=
  match v.alternative? with
  | some (name, some v) =>
    match Shape.ofName? name, v with
    | some .long, v => v.toInt64?.map long
    | some .byte, v => v.toByte?.map byte
    | some .flag, v => v.toBool?.map flag
    | some .uuid, v => (Uuid.ofJson? v).map uuid
    | some .text, .array [.string field, .string s] => some (text field s)
    | _, _ => none
  | _ => none

def Value.toJson : Value → Json
  | long n => Json.ofInt64 n
  | byte b => Json.ofNat b.toNat
  | flag b => .bool b
  | uuid u => u.toJson
  | text _ s => .string s

end Wire

end Moderation
