import Moderation.Json.Token
/-!
# Reading JSON text

A stack of open arrays and objects takes one token at a time; no recursion, so any depth will do.
-/

namespace Moderation.Json

inductive Frame where
  /-- An array, its elements in reverse. -/
  | array (elems : List Json)
  /-- An object: its members in reverse, the name last read, and whether every name is a text. -/
  | object (members : List (String × Json)) (name : Option String) (named : Bool)

inductive Expect where
  | value
  | firstElem
  | firstMember
  | member
  | colon
  | more
  | nothing (value : Json)

structure Reader where
  stack : List Frame := []
  expect : Expect := .value

namespace Reader

def put (r : Reader) (v : Json) : Reader :=
  match r.stack with
  | [] => ⟨[], .nothing v⟩
  | .array elems :: rest => ⟨.array (v :: elems) :: rest, .more⟩
  | .object members (some name) named :: rest =>
    ⟨.object ((name, v) :: members) none named :: rest, .more⟩
  | .object members none _ :: rest => ⟨.object members none false :: rest, .more⟩

def beginValue? (r : Reader) : Token → Option Reader
  | .beginArray => some ⟨.array [] :: r.stack, .firstElem⟩
  | .beginObject => some ⟨.object [] none true :: r.stack, .firstMember⟩
  | .string (some s) => some (r.put (.string s))
  | .string none => some (r.put .unheld)
  | .word v => some (r.put v)
  | _ => none

def name? (r : Reader) : Token → Option Reader
  | .string name =>
    match r.stack with
    | .object members _ named :: rest => some ⟨.object members name named :: rest, .colon⟩
    | _ => none
  | _ => none

def close? (r : Reader) (t : Token) : Option Reader :=
  match t, r.stack with
  | .endArray, .array elems :: rest => some (put ⟨rest, .value⟩ (.array elems.reverse))
  | .endObject, .object members _ true :: rest =>
    some (put ⟨rest, .value⟩ (.object members.reverse))
  | .endObject, .object _ _ false :: rest => some (put ⟨rest, .value⟩ .unheld)
  | _, _ => none

def step? (r : Reader) (t : Token) : Option Reader :=
  match r.expect with
  | .value => r.beginValue? t
  | .firstElem =>
    match t with
    | .endArray => r.close? t
    | _ => r.beginValue? t
  | .firstMember =>
    match t with
    | .endObject => r.close? t
    | _ => r.name? t
  | .member => r.name? t
  | .colon =>
    match t with
    | .colon => some { r with expect := .value }
    | _ => none
  | .more =>
    match t, r.stack with
    | .comma, .array _ :: _ => some { r with expect := .value }
    | .comma, .object _ _ _ :: _ => some { r with expect := .member }
    | _, _ => r.close? t
  | .nothing _ => none

def finish? (r : Reader) : Option Json :=
  match r.expect with
  | .nothing v => some v
  | _ => none

end Reader

def parse? (text : String) : Option Json :=
  (tokens? text.toList).bind fun ts => (ts.foldlM Reader.step? {}).bind Reader.finish?

end Moderation.Json
