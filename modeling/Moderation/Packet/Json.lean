import Moderation.Json.Record
import Moderation.Packet.Basic
import Moderation.Punishment.Json
/-!
# Packets in JSON

Reading and writing of packets as records. What is read need not be a packet that a node would send:
a target may be empty.
-/

namespace Moderation

def Change.ofJson? (v : Json) : Option Change := do
  let names := ["id", "kind", "mode", "broadcasting", "target_argument", "unenforcement_operator"]
  let [id, kind, mode, broadcasting, target, lifter] ← v.fields? names | none
  return {
    ref := ⟨← id.required Json.toInt64?, ← kind.required Kind.ofJson?⟩
    mode := ← mode.required Mode.ofJson?
    broadcasting := ← broadcasting.required Broadcasting.ofJson?
    target := ← target.optional Json.toText?
    lifter := ← lifter.optional Operator.ofJson? }

def Change.toJson (c : Change) : Json :=
  .object [("id", Json.ofInt64 c.ref.id), ("kind", c.ref.kind.toJson), ("mode", c.mode.toJson),
    ("broadcasting", c.broadcasting.toJson), ("target_argument", Json.ofText? c.target),
    ("unenforcement_operator", Json.ofOption Operator.toJson c.lifter)]

def Packet.ofJson? (v : Json) : Option Packet :=
  match v.alternative? with
  | some ("Expunge", some id) => id.toInt64?.map expunge
  | some ("UpdateDetails", some id) => id.toInt64?.map updateDetails
  | some ("EnforceOrUnenforce", some c) => (Change.ofJson? c).map change
  | _ => none

def Packet.toJson : Packet → Json
  | expunge id => .object [("Expunge", Json.ofInt64 id)]
  | updateDetails id => .object [("UpdateDetails", Json.ofInt64 id)]
  | change c => .object [("EnforceOrUnenforce", c.toJson)]

end Moderation
