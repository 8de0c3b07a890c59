import Moderation.Json.Record
import Moderation.Punishment.Json
/-!
# Options of an enforcement

How far a change to a punishment reaches, who hears of it, and what is told along with it.
-/

namespace Moderation

inductive Enforcement where
  | global
  | singleServer
  | none
deriving DecidableEq, Repr

namespace Enforcement

def all : List Enforcement := [global, singleServer, none]

def name : Enforcement → String
  | global => "Global"
  | singleServer => "SingleServerOnly"
  | none => "None"

def ofJson? : Json → Option Enforcement := Json.toChoice? (all.map fun e => (e.name, e))

def toJson (e : Enforcement) : Json := .string e.name

end Enforcement

inductive Mode where
  | impose
  | lift
deriving DecidableEq, Repr

namespace Mode

def name : Mode → String
  | impose => "Do"
  | lift => "Undo"

def ofJson? : Json → Option Mode := Json.toChoice? ([impose, lift].map fun m => (m.name, m))

def toJson (m : Mode) : Json := .string m.name

end Mode

structure Options where
  enforcement : Enforcement := .global
  broadcasting : Broadcasting := .normal
  /-- The target as the command named it. -/
  target : Option String := none
  /-- Who lifts the punishment. -/
  lifter : Option Operator := none
deriving DecidableEq

/-- The text, unless it is empty. -/
def nonempty (s : Option String) : Option String := s.filter (!·.isEmpty)

namespace Options

def global : Options := {}

def withTarget (o : Options) (s : String) : Options := { o with target := nonempty (some s) }

def ofJson? (v : Json) : Option Options := do
  let names := ["enforcement", "broadcasting", "target_argument", "unenforcement_operator"]
  let [enforcement, broadcasting, target, lifter] ← v.fields? names | none
  return {
    enforcement := ← enforcement.required Enforcement.ofJson?
    broadcasting := ← broadcasting.required Broadcasting.ofJson?
    target := ← target.optional Json.toText?
    lifter := ← lifter.optional Operator.ofJson? }

def toJson (o : Options) : Json :=
  .object [("enforcement", o.enforcement.toJson), ("broadcasting", o.broadcasting.toJson),
    ("target_argument", Json.ofText? o.target),
    ("unenforcement_operator", Json.ofOption Operator.toJson o.lifter)]

end Options

end Moderation
