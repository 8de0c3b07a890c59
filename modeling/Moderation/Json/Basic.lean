/-!
# JSON values

The values that JSON text denotes, as far as the records of this library are concerned: its numbers
are integers. Members keep their order, and an object may name a member twice.
-/

namespace Moderation

inductive Json where
  | null
  | bool (b : Bool)
  | integer (n : Int)
  | string (s : String)
  | array (elems : List Json)
  | object (members : List (String × Json))
  /-- Well formed, and so fit to be skipped, but nothing here can hold it: a number with a fraction
  or an exponent, a negative zero, a string with an unpaired surrogate, an object with such a name. -/
  | unheld

namespace Json

instance : Inhabited Json := ⟨null⟩

def ofNat (n : Nat) : Json := integer n

def ofOption {α : Type} (write : α → Json) : Option α → Json
  | some a => write a
  | none => null

def ofText? : Option String → Json := ofOption string

def member? (name : String) : Json → Option Json
  | object members => members.lookup name
  | _ => none

end Json

end Moderation
