import Moderation.Json.Basic
import Moderation.Text.Hex
/-!
# Writing JSON text

Compact text: no blanks. Strings escape the quote, the backslash and the characters below the space.
-/

namespace Moderation.Json

def escape (c : Char) : List Char :=
  if c = '"' then ['\\', '"']
  else if c = '\\' then ['\\', '\\']
  else if c = '\x08' then ['\\', 'b']
  else if c = '\t' then ['\\', 't']
  else if c = '\n' then ['\\', 'n']
  else if c = '\x0c' then ['\\', 'f']
  else if c = '\r' then ['\\', 'r']
  else if c < ' ' then ['\\', 'u', '0', '0'] ++ Hex.ofByte c.toNat.toUInt8
  else [c]

def quoted (s : String) : List Char := '"' :: s.toList.flatMap escape ++ ['"']

mutual

def chars : Json → List Char
  | null => "null".toList
  | bool true => "true".toList
  | bool false => "false".toList
  | integer n => (toString n).toList
  | string s => quoted s
  | array [] => ['[', ']']
  | array (v :: vs) => '[' :: chars v ++ elemChars vs
  | object [] => ['\x7b', '\x7d']
  | object ((name, v) :: ms) => '\x7b' :: quoted name ++ ':' :: chars v ++ memberChars ms
  | unheld => "null".toList

/-- The text of the elements after the first, with the closing bracket. -/
def elemChars : List Json → List Char
  | [] => [']']
  | v :: vs => ',' :: chars v ++ elemChars vs

def memberChars : List (String × Json) → List Char
  | [] => ['\x7d']
  | (name, v) :: ms => ',' :: quoted name ++ ':' :: chars v ++ memberChars ms

end

def render (v : Json) : String := String.ofList v.chars

end Moderation.Json
