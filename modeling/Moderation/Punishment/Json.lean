import Moderation.Json.Record
import Moderation.Punishment.Basic
/-!
# Punishments in JSON

Reading and writing of punishments and their parts, with their fields in the order of declaration.
-/

namespace Moderation

def Uuid.ofJson? (v : Json) : Option Uuid := v.toText?.bind fun s => Uuid.ofText? s.toList

def Uuid.toJson (u : Uuid) : Json := .string (toString u)

def Address.ofJson? (v : Json) : Option Address := v.toText?.bind fun s => Address.ofText? s.toList

def Address.toJson (a : Address) : Json := .string (toString a)

def Json.ofInt64 (n : Int64) : Json := .integer n.toInt

def Json.ofUInt64 (n : UInt64) : Json := .integer n.toNat

def Kind.ofJson? : Json → Option Kind := Json.toChoice? (Kind.all.map fun k => (k.name, k))

def Kind.toJson (k : Kind) : Json := .string k.name

def Broadcasting.ofJson? : Json → Option Broadcasting :=
  Json.toChoice? (Broadcasting.all.map fun b => (b.name, b))

def Broadcasting.toJson (b : Broadcasting) : Json := .string b.name

def Visitor.ofJson? (v : Json) : Option Visitor := do
  let [user, address] ← v.fields? ["user", "address"] | none
  return ⟨← user.required Uuid.ofJson?, ← address.required Address.ofJson?⟩

def Visitor.toJson (v : Visitor) : Json :=
  .object [("user", v.user.toJson), ("address", v.address.toJson)]

def Victim.ofJson? (v : Json) : Option Victim :=
  match v.alternative? with
  | some ("Player", some u) => (Uuid.ofJson? u).map player
  | some ("Address", some a) => (Address.ofJson? a).map address
  | some ("Composite", some (.array [u, a])) => do
    return composite (← Uuid.ofJson? u) (← Address.ofJson? a)
  | _ => none

def Victim.toJson : Victim → Json
  | player u => .object [("Player", u.toJson)]
  | address a => .object [("Address", a.toJson)]
  | composite u a => .object [("Composite", .array [u.toJson, a.toJson])]

def Operator.ofJson? (v : Json) : Option Operator :=
  match v.alternative? with
  | some ("Console", none) | some ("Console", some .null) => some console
  | some ("Player", some u) => (Uuid.ofJson? u).map player
  | _ => none

def Operator.toJson : Operator → Json
  | console => .string "Console"
  | player u => .object [("Player", u.toJson)]

def Scope.ofJson? (v : Json) : Option Scope :=
  match v.alternative? with
  | some ("Global", none) | some ("Global", some .null) => some global
  | some ("Server", some s) => s.toText?.map server
  | some ("Category", some s) => s.toText?.map category
  | _ => none

def Scope.toJson : Scope → Json
  | global => .string "Global"
  | server s => .object [("Server", .string s)]
  | category s => .object [("Category", .string s)]

def PunishmentRef.ofJson? (v : Json) : Option PunishmentRef := do
  let [id, kind] ← v.fields? ["id", "kind"] | none
  return ⟨← id.required Json.toInt64?, ← kind.required Kind.ofJson?⟩

def PunishmentRef.toJson (r : PunishmentRef) : Json :=
  .object [("id", Json.ofInt64 r.id), ("kind", r.kind.toJson)]

def Punishment.ofJson? (v : Json) : Option Punishment := do
  let names := ["id", "kind", "victim", "operator", "reason", "scope", "start", "end"]
  let [id, kind, victim, operator, reason, scope, starts, ends] ← v.fields? names | none
  return {
    id := ← id.required Json.toInt64?
    kind := ← kind.required Kind.ofJson?
    victim := ← victim.required Victim.ofJson?
    operator := ← operator.required Operator.ofJson?
    reason := ← reason.required Json.toText?
    scope := ← scope.required Scope.ofJson?
    starts := ← starts.required Json.toInt64?
    ends := ← ends.required Json.toInt64? }

def Punishment.summary (p : Punishment) : Json :=
  .object [("id", Json.ofInt64 p.id), ("kind", p.kind.toJson), ("end", Json.ofInt64 p.ends),
    ("reason", .string p.reason)]

def Punishment.toJson (p : Punishment) : Json :=
  .object [("id", Json.ofInt64 p.id), ("kind", p.kind.toJson), ("victim", p.victim.toJson),
    ("operator", p.operator.toJson), ("reason", .string p.reason), ("scope", p.scope.toJson),
    ("start", Json.ofInt64 p.starts), ("end", Json.ofInt64 p.ends)]

end Moderation
