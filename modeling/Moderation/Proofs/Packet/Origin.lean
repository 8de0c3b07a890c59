import Moderation.Packet.Wire
import Moderation.Proofs.Wire.RoundTrip
/-!
# Where a message comes from

A message begins with the known version and with the node that sent it. That node never hears a packet
in it, `not_hear_seal`, whatever the bytes of the packet are.
-/

namespace Moderation

open Wire Wire.Reader

namespace Envelope

/-- An envelope of the known version is opened by reading its packet. -/
theorem decode_append (origin : Uuid) (rest : Bytes) :
    decode (knownVersion :: (origin.bytes ++ rest)) =
      (Packet.take.runOn rest).1.map fun packet => .supported { version := knownVersion, origin, packet } := by
  -- The version and the sender are taken, and what is left is the packet's.
  have htake : take.runOn (knownVersion :: (origin.bytes ++ rest)) =
      Reader.runOn (Packet.take >>= fun packet => pure (.supported { version := knownVersion, origin, packet }))
        rest := by
    refine (runOn_bind_ok (takeByte_cons "version" knownVersion (origin.bytes ++ rest)) _).trans ?_
    rw [if_pos rfl]
    exact runOn_bind_ok (takeUuid_append "origin" origin rest) _
  rw [show decode _ = _ from congrArg Prod.fst htake, runOn_bind]
  rcases Packet.take.runOn rest with ⟨e | packet, left⟩ <;> rfl

/-- All that is written of an envelope. -/
def values (e : Envelope) : List Value := .byte e.version :: .uuid e.origin :: e.packet.values

theorem encode_eq_ok_iff {e : Envelope} {bs : Bytes} : e.encode = .ok bs ↔ Written e.values bs := by
  constructor
  · intro h
    unfold encode at h
    split at h
    · next hput =>
      cases h
      obtain ⟨rest, hrest, rfl⟩ := putAll_eq_ok hput
      exact hrest
    · cases h
  · intro h
    unfold encode
    rw [show putAll [] (_ :: _ :: _) = _ from putAll_of_written h []]
    rfl

/-- An envelope is its version, the node that sent it, and its packet. -/
theorem written_of_encode {e : Envelope} {bs : Bytes} (h : e.encode = .ok bs) :
    ∃ rest, Written e.packet.values rest ∧ bs = e.version :: (e.origin.bytes ++ rest) := by
  obtain _ | ⟨hversion, _ | ⟨horigin, hpacket⟩⟩ := encode_eq_ok_iff.1 h
  cases hversion
  cases horigin
  exact ⟨_, hpacket, rfl⟩

end Envelope

namespace Packet

/-- A node hears no packet in its own messages. -/
theorem not_hear_seal {self : Uuid} {p : Packet} {bs : Bytes} (h : p.seal self = .ok bs) (q : Packet) :
    hear self bs ≠ .ok (some q) := by
  obtain ⟨rest, -, rfl⟩ := Envelope.written_of_encode h
  simp only [hear, Envelope.decode_append]
  rcases (Packet.take.runOn rest).1 with e | packet <;> simp [Except.map, bind, Except.bind, pure, Except.pure]

end Packet

end Moderation
