import Moderation.Proofs.Packet.RoundTrip
import Moderation.Proofs.Wire.Prefix
/-!
# Messages that are cut off

What is made of the front of a message is what is made of the whole, unless bytes are reported as missing, and then
at least as many are. So no part of a message that was written is taken for another one, or for a malformed one.
-/

namespace Moderation

open Wire Wire.Reader

theorem Change.steady_member {α : Type} (field : String) (ofOrdinal? : UInt8 → Option α) :
    (takeMember field ofOrdinal?).Steady := by
  refine (steady_byte field).bind fun n => ?_
  split
  · exact steady_pure _
  · exact steady_throw (by simp)

theorem Change.steady_take : Change.take.Steady := by
  refine (steady_long "id").bind fun id => ?_
  refine (steady_member "type" _).bind fun kind => ?_
  refine (steady_flag "mode").bind fun impose => ?_
  refine (steady_member "broadcasting" _).bind fun broadcasting => ?_
  refine (steady_text "target_argument").bind fun target => ?_
  refine (steady_flag "has_operator").bind fun lifted => ?_
  cases lifted with
  | false => exact (steady_pure none).bind fun _ => steady_pure _
  | true => exact (((steady_uuid "operator").map Operator.ofUuid).map some).bind fun _ => steady_pure _

theorem Packet.steady_take : Packet.take.Steady := by
  refine (steady_byte "packet_type").bind fun n => ?_
  split
  · exact Change.steady_take.map change
  · exact (steady_long "id").map expunge
  · exact (steady_long "id").map updateDetails
  · exact steady_throw (by simp)

namespace Envelope

theorem steady_take : Envelope.take.Steady := by
  refine (steady_byte "version").bind fun version => ?_
  split
  · exact (steady_uuid "origin").bind fun origin => Packet.steady_take.bind fun packet => steady_pure _
  · exact steady_pure _

theorem takes_values {e : Envelope} {bs : Bytes} (h : Written e.values bs) (hversion : e.version = knownVersion) :
    Envelope.take.Takes bs (.supported { e with packet := e.packet.heard }) := by
  obtain _ | ⟨hbyte, _ | ⟨horigin, hpacket⟩⟩ := h
  cases hbyte
  refine (takes_byte e.version "version").bind ?_
  rw [if_pos hversion]
  refine (takes_uuid horigin "origin").bind ?_
  have hvalues := (Packet.takes_values hpacket).map fun packet => Opened.supported { e with packet }
  exact hvalues

/-- What has been made of a message is what is made of it with anything behind it, unless it is found to be too short;
and then it stays too short, by so much less, until as many bytes are there as it was found to lack. A part of the bytes
of an envelope of the known version is found to be too short, by no more than it is. -/
theorem decode_of_prefix (bs : Bytes) :
    (∀ opened, decode bs = .ok opened → ∀ more, decode (bs ++ more) = .ok opened) ∧
    (∀ err, decode bs = .error err → (∀ field needed, err ≠ .truncated field needed) →
      ∀ more, decode (bs ++ more) = .error err) ∧
    (∀ field needed, decode bs = .error (.truncated field needed) → 1 ≤ needed ∧
      ∀ more : Bytes, more.length < needed →
        decode (bs ++ more) = .error (.truncated field (needed - more.length))) ∧
    ∀ (e : Envelope) (missing : Bytes), e.version = knownVersion → e.encode = .ok (bs ++ missing) → missing ≠ [] →
      ∃ field needed, decode bs = .error (.truncated field needed) ∧ needed ≤ missing.length := by
  have hrun {x} (h : decode bs = x) : Envelope.take.runOn bs = (x, (Envelope.take.runOn bs).2) := Prod.ext h rfl
  refine ⟨fun opened h more => ?_, fun err h herr more => ?_, fun field needed h => ?_, ?_⟩
  · exact congrArg Prod.fst (steady_take.settled (hrun h) (by simp) more)
  · exact congrArg Prod.fst (steady_take.settled (hrun h) (by simpa using herr) more)
  · obtain ⟨hpos, hmore⟩ := steady_take.lacking (hrun h)
    exact ⟨hpos, fun more hlt => congrArg Prod.fst (hmore more hlt)⟩
  · intro e missing hversion hencode hmissing
    have htakes := takes_values (encode_eq_ok_iff.1 hencode) hversion
    obtain ⟨field, needed, rest, hpart, hle⟩ := steady_take.lacking_of_takes htakes hmissing
    exact ⟨field, needed, congrArg Prod.fst hpart, hle⟩

/-- The bytes of a change up to the length of its target, "ok". -/
def cut : Bytes := 1 :: (List.replicate 16 9 ++ [1, 255, 255, 255, 255, 255, 255, 255, 253, 1, 0, 1, 0, 2])

/-- Two bytes are missing, then one, and then the flag behind the target. With a target that is no text there is none of
that. -/
theorem decode_of_prefix_cut :
    let whole := vagueEnvelope { vague with target := some "ok", lifter := none }
    decode cut = .error (.truncated "target_argument" 2) ∧
      decode (cut ++ [111]) = .error (.truncated "target_argument" 1) ∧
      whole.encode = .ok (cut ++ [111, 107] ++ [0]) ∧
      (∃ field needed, decode (cut ++ [111, 107]) = .error (.truncated field needed) ∧ needed ≤ 1) ∧
      decode (cut ++ [111, 107] ++ [0] ++ [7]) = .ok (.supported whole) ∧
      ∀ more, decode (cut ++ [111, 255] ++ more) = .error (.invalidUtf8 "target_argument") := by
  intro whole
  have hcut : decode cut = .error (.truncated "target_argument" 2) := by rfl
  have hencode : whole.encode = .ok (cut ++ [111, 107] ++ [0]) := by rfl
  have hdecode : decode (cut ++ [111, 107] ++ [0]) = .ok (.supported whole) := by rfl
  obtain ⟨-, -, hlacking, -⟩ := decode_of_prefix cut
  obtain ⟨-, -, -, hpart⟩ := decode_of_prefix (cut ++ [111, 107])
  obtain ⟨hopened, -⟩ := decode_of_prefix (cut ++ [111, 107] ++ [0])
  obtain ⟨-, hmalformed, -⟩ := decode_of_prefix (cut ++ [111, 255])
  exact ⟨hcut, (hlacking _ _ hcut).2 [111] (by decide), hencode, hpart whole [0] rfl hencode (by simp),
    hopened _ hdecode [7], hmalformed _ (by rfl) (by simp)⟩

end Envelope

end Moderation
