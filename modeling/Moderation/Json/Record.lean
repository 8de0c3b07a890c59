import Moderation.Json.Reader
/-!
# Records in JSON

How values of the library's types are read off JSON values. A record is an object with its fields as
members, in any order and with any others between, or an array of its fields in order. A choice among
alternatives is the name of one, or an object whose one member has that name and the contents as value.
-/

namespace Moderation.Json

def toText? : Json → Option String
  | string s => some s
  | _ => none

def toBool? : Json → Option Bool
  | bool b => some b
  | _ => none

def toInt64? : Json → Option Int64
  | integer n => if Int64.minValue.toInt ≤ n ∧ n ≤ Int64.maxValue.toInt then some (Int64.ofInt n) else none
  | _ => none

def toUInt64? : Json → Option UInt64
  | integer n => if 0 ≤ n ∧ n < UInt64.size then some (UInt64.ofNat n.toNat) else none
  | _ => none

def toNat? : Json → Option Nat
  | integer (.ofNat n) => some n
  | _ => none

/-- The members of an array, each read as `read` says. -/
def toList? {α : Type} (read : Json → Option α) : Json → Option (List α)
  | array elems => elems.mapM read
  | _ => none

def toOption? {α : Type} (read : Json → Option α) : Json → Option (Option α)
  | null => some none
  | v => (read v).map some

/-! ## Records -/

inductive Field where
  | given (v : Json)
  | missing
  /-- The array ends before it. -/
  | cut

/-- The fields of those names, in that order. Fails if a name occurs twice or an array is too long. -/
def fields? (names : List String) : Json → Option (List Field)
  | object members =>
    names.mapM fun name =>
      match members.filter fun m => m.1 == name with
      | [] => some .missing
      | [(_, v)] => some (.given v)
      | _ => none
  | array elems =>
    if elems.length > names.length then none
    else
      some (elems.map .given ++ List.replicate (names.length - elems.length) .cut)
  | _ => none

namespace Field

def required {α : Type} (read : Json → Option α) : Field → Option α
  | given v => read v
  | _ => none

/-- A field that may be `null`, or missing from an object. -/
def optional {α : Type} (read : Json → Option α) : Field → Option (Option α)
  | given v => toOption? read v
  | missing => some none
  | cut => none

def default {α : Type} (d : α) (read : Json → Option α) : Field → Option α
  | given v => read v
  | _ => some d

end Field

/-! ## Alternatives -/

def alternative? : Json → Option (String × Option Json)
  | string name => some (name, none)
  | object [(name, v)] => some (name, some v)
  | _ => none

def toChoice? {α : Type} (choices : List (String × α)) (v : Json) : Option α :=
  match alternative? v with
  | some (name, none) | some (name, some null) => choices.lookup name
  | _ => none

end Moderation.Json
