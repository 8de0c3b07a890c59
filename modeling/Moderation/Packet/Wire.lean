import Moderation.Packet.Basic
import Moderation.Wire.Reader
/-!
# Packets and envelopes on the wire

A packet is its number and its values. An envelope is a version, the node that sent the packet, and
the packet; of a version that is not known here, nothing but the version is read. Bytes behind an
envelope are left alone.
-/

namespace Moderation

open Wire

namespace Change

def values (c : Change) : List Value :=
  [.long c.ref.id, .byte c.ref.kind.ordinal, .flag (decide (c.mode = .impose)),
    .byte c.broadcasting.ordinal, .text "target_argument" (c.target.getD "")]
  ++ match c.lifter with
    | some operator => [.flag true, .uuid operator.toUuid]
    | none => [.flag false]

def takeMember {α : Type} (field : String) (ofOrdinal? : UInt8 → Option α) : Reader α := do
  let n ← takeByte field
  match ofOrdinal? n with
  | some a => return a
  | none => throw (.unknownOrdinal field n)

def take : Reader Change := do
  let id ← takeLong "id"
  let kind ← takeMember "type" Kind.ofOrdinal?
  let mode := if ← takeFlag "mode" then Mode.impose else Mode.lift
  let broadcasting ← takeMember "broadcasting" Broadcasting.ofOrdinal?
  let target := nonempty (some (← takeText "target_argument"))
  let lifter ← if ← takeFlag "has_operator" then
      some <$> Operator.ofUuid <$> takeUuid "operator"
    else pure none
  return { ref := ⟨id, kind⟩, mode, broadcasting, target, lifter }

end Change

namespace Packet

def values (p : Packet) : List Value :=
  .byte p.discriminant ::
    match p with
    | change c => c.values
    | expunge id => [.long id]
    | updateDetails id => [.long id]

def take : Reader Packet := do
  match ← takeByte "packet_type" with
  | 1 => change <$> Change.take
  | 2 => expunge <$> takeLong "id"
  | 3 => updateDetails <$> takeLong "id"
  | n => throw (.unknownPacketType n)

end Packet

/-- A packet with what is said about it. -/
structure Envelope where
  version : UInt8
  origin : Uuid
  packet : Packet
deriving DecidableEq

inductive Opened where
  | supported (e : Envelope)
  /-- Something of another version. -/
  | unsupported (version : UInt8)
deriving DecidableEq

namespace Envelope

def knownVersion : UInt8 := 1

def encode (e : Envelope) : Except EncodeError Bytes :=
  match putAll [] (.byte e.version :: .uuid e.origin :: e.packet.values) with
  | (.ok (), bs) => .ok bs
  | (.error err, _) => .error err

def take : Reader Opened := do
  let version ← takeByte "version"
  if version = knownVersion then
    let origin ← takeUuid "origin"
    let packet ← Packet.take
    return .supported { version, origin, packet }
  else return .unsupported version

def decode (bs : Bytes) : Except DecodeError Opened := (take.run.run bs).1

end Envelope

/-! ## What a node sends and hears -/

/-- The bytes with which `instanceId` sends a packet. -/
def Packet.seal (instanceId : Uuid) (p : Packet) : Except EncodeError Bytes :=
  Envelope.encode { version := Envelope.knownVersion, origin := instanceId, packet := p }

/-- The packet that `instanceId` hears in a message: none of another version, and none of its own. -/
def Packet.hear (instanceId : Uuid) (bs : Bytes) : Except DecodeError (Option Packet) := do
  match ← Envelope.decode bs with
  | .supported e => return if e.origin = instanceId then none else some e.packet
  | .unsupported _ => return none

end Moderation
