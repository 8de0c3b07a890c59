import Moderation.Proofs.Packet.Origin
/-!
# Packets read back

What one node sends another one hears, whatever lies behind the message: the same packet, but that an empty target
is heard as none and a player without a number as the console (`hear_seal`).
-/

namespace Moderation

open Wire Wire.Reader

namespace Change

/-- The change as others hear it. -/
def heard (c : Change) : Change :=
  { c with target := nonempty c.target, lifter := c.lifter.map fun o => .ofUuid o.toUuid }

theorem takes_member {α : Type} {ofOrdinal? : UInt8 → Option α} {n : UInt8} {a : α} (h : ofOrdinal? n = some a)
    (field : String) : (takeMember field ofOrdinal?).Takes [n] a := by
  refine (takes_byte n field).bind ?_
  rw [h]
  exact .pure a

theorem nonempty_getD (s : Option String) : nonempty (some (s.getD "")) = nonempty s := by
  cases s <;> rfl

theorem takes_values {c : Change} {bs : Bytes} (h : Written c.values bs) : Change.take.Takes bs c.heard := by
  obtain ⟨ref, mode, broadcasting, target, lifter⟩ := c
  obtain ⟨bs₁, bs₂, hfields, hlifter, rfl⟩ := h.append
  obtain _ | ⟨hid, _ | ⟨hkind, _ | ⟨hmode, _ | ⟨hbroadcasting, _ | ⟨htarget, _ | _⟩⟩⟩⟩⟩ := hfields
  cases hkind
  cases hbroadcasting
  have hread : (if decide (mode = .impose) = true then Mode.impose else Mode.lift) = mode := by
    cases mode <;> rfl
  simp only [List.append_assoc, List.nil_append]
  refine (takes_long hid "id").bind ?_
  refine (takes_member (Kind.ofOrdinal?_ordinal ref.kind) "type").bind ?_
  refine (takes_flag hmode "mode").bind ?_
  refine (takes_member (Broadcasting.ofOrdinal?_ordinal broadcasting) "broadcasting").bind ?_
  refine (takes_text htarget "target_argument").bind ?_
  simp only [nonempty_getD, hread]
  cases lifter with
  | none =>
    obtain _ | ⟨hflag, _ | _⟩ := hlifter
    exact (takes_flag hflag "has_operator").bind (.pure _)
  | some operator =>
    obtain _ | ⟨hflag, _ | ⟨huuid, _ | _⟩⟩ := hlifter
    refine (takes_flag hflag "has_operator").bind ?_
    exact (((takes_uuid huuid "operator").map Operator.ofUuid).map some).bind (.pure _)

end Change

namespace Packet

/-- The packet as others hear it. -/
def heard : Packet → Packet
  | change c => change c.heard
  | expunge id => expunge id
  | updateDetails id => updateDetails id

theorem takes_values {p : Packet} {bs : Bytes} (h : Written p.values bs) : Packet.take.Takes bs p.heard := by
  obtain _ | ⟨htype, hvalues⟩ := h
  cases htype
  refine (takes_byte p.discriminant "packet_type").bind ?_
  cases p with
  | change c => exact (Change.takes_values hvalues).map change
  | expunge id =>
    obtain _ | ⟨hid, _ | _⟩ := hvalues
    rw [List.append_nil]
    exact (takes_long hid "id").map expunge
  | updateDetails id =>
    obtain _ | ⟨hid, _ | _⟩ := hvalues
    rw [List.append_nil]
    exact (takes_long hid "id").map updateDetails

end Packet

namespace Envelope

/-- An envelope of the known version is opened again, whatever lies behind it. -/
theorem decode_encode {e : Envelope} {bs : Bytes} (h : e.encode = .ok bs) (hversion : e.version = knownVersion)
    (rest : Bytes) : decode (bs ++ rest) = .ok (.supported { e with packet := e.packet.heard }) := by
  obtain ⟨packet, hpacket, rfl⟩ := written_of_encode h
  have hdecode := decode_append e.origin (packet ++ rest)
  rw [(Packet.takes_values hpacket) rest] at hdecode
  rw [hversion, List.cons_append, List.append_assoc, hdecode]
  rfl

end Envelope

/-- What a node sends, every other node hears. -/
theorem Packet.hear_seal {a b : Uuid} {p : Packet} {bs : Bytes} (h : p.seal a = .ok bs) (hne : a ≠ b)
    (rest : Bytes) : hear b (bs ++ rest) = .ok (some p.heard) := by
  simp only [hear, Envelope.decode_encode h rfl rest, bind, Except.bind, hne, if_false]
  rfl

/-! ## What is lost on the way -/

/-- The change with an empty target left out, and with the console for a player without a number. -/
def Change.canonical (c : Change) : Change :=
  { c with
    target := if c.target = some "" then none else c.target
    lifter := if c.lifter = some (.player .nil) then some .console else c.lifter }

/-- The packet with the change in it made canonical; the other packets are. -/
def Packet.canonical : Packet → Packet
  | change c => change c.canonical
  | expunge id => expunge id
  | updateDetails id => updateDetails id

theorem nonempty_eq (s : Option String) : nonempty s = if s = some "" then none else s := by
  cases s with
  | none => rfl
  | some s => by_cases hs : s = "" <;> simp [nonempty, Option.filter_some, hs]

theorem Operator.ofUuid_toUuid (o : Operator) : ofUuid o.toUuid = if o = .player .nil then .console else o := by
  cases o with
  | console => rfl
  | player u => by_cases hu : u = .nil <;> simp [ofUuid, toUuid, hu]

theorem Packet.heard_eq_canonical (p : Packet) : p.heard = p.canonical := by
  cases p with
  | change c =>
    obtain ⟨ref, mode, broadcasting, target, lifter⟩ := c
    simp only [heard, canonical, Change.heard, Change.canonical, nonempty_eq]
    cases lifter with
    | none => rfl
    | some o => by_cases ho : o = .player .nil <;> simp [Operator.ofUuid_toUuid, ho]
  | expunge id => rfl
  | updateDetails id => rfl

/-! ## Which envelopes can be written -/

/-- The only text of a packet is the target of a change. -/
theorem Packet.text_mem_values {p : Packet} {field s : String} (h : .text field s ∈ p.values) :
    ∃ c, p = .change c ∧ field = "target_argument" ∧ s = c.target.getD "" := by
  cases p with
  | change c =>
    refine ⟨c, rfl, ?_⟩
    cases hlifter : c.lifter <;> simpa [values, Change.values, hlifter] using h
  | expunge id => simp [values] at h
  | updateDetails id => simp [values] at h

namespace Envelope

/-- A value of an envelope that cannot be written is a target that is too long. -/
theorem unwritable_iff {e : Envelope} {err : EncodeError} : (∃ v ∈ e.values, v.encode = .error err) ↔
    ∃ c s, e.packet = .change c ∧ c.target = some s ∧ maxTextLength < s.utf8ByteSize ∧
      err = .stringTooLong "target_argument" s.utf8ByteSize := by
  constructor
  · rintro ⟨v, hv, herr⟩
    obtain ⟨field, s, rfl, hsize, rfl⟩ := Value.encode_eq_error_iff.1 herr
    obtain ⟨c, hc, rfl, hs⟩ := Packet.text_mem_values (p := e.packet) (by simpa [values] using hv)
    refine ⟨c, s, hc, ?_, hsize, rfl⟩
    cases htarget : c.target with
    | none => simp [htarget, hs] at hsize
    | some t => rw [hs, htarget, Option.getD_some]
  · rintro ⟨c, s, hc, htarget, hsize, rfl⟩
    refine ⟨.text "target_argument" s, ?_, Value.encode_eq_error_iff.2 ⟨_, s, rfl, hsize, rfl⟩⟩
    simp [values, hc, Packet.values, Change.values, htarget]

theorem encode_eq_error_iff {e : Envelope} {err : EncodeError} :
    e.encode = .error err ↔ ∃ v ∈ e.values, v.encode = .error err := by
  rcases written_or_failed [] e.values with ⟨bs, hbs⟩ | ⟨v, hv, err', left, herr', hput⟩
  · constructor
    · intro h
      rw [encode_eq_ok_iff.2 hbs] at h
      cases h
    · rintro ⟨v, hv, herr⟩
      obtain ⟨b, hb⟩ := hbs.encode_of_mem hv
      rw [hb] at herr
      cases herr
  · have hencode : e.encode = .error err' := by
      unfold encode
      rw [show putAll [] (_ :: _ :: _) = _ from hput]
    rw [hencode]
    constructor
    · intro h
      cases h
      exact ⟨v, hv, herr'⟩
    · intro h
      -- There is but one value that can be too long.
      obtain ⟨c, s, hc, hs, -, rfl⟩ := unwritable_iff.1 h
      obtain ⟨c', s', hc', hs', -, rfl⟩ := unwritable_iff.1 ⟨v, hv, herr'⟩
      obtain rfl : c' = c := by simpa [hc] using hc'.symm
      obtain rfl : s' = s := by simpa [hs] using hs'.symm
      rfl

/-- An envelope cannot be written if its packet is a change whose target is too long, and then alone. What was
written is opened again with anything behind it: the same envelope, but that an empty target has become none and a
lifter without a number the console. The packet is read up to what lies behind it. -/
theorem reads_back (e : Envelope) :
    (∀ err, e.encode = .error err ↔ ∃ c s, e.packet = .change c ∧ c.target = some s ∧ 65535 < s.utf8ByteSize ∧
      err = .stringTooLong "target_argument" s.utf8ByteSize) ∧
    ∀ bs, e.encode = .ok bs → ∃ packet,
      putAll [] e.packet.values = (.ok (), packet) ∧ bs = e.version :: (e.origin.bytes ++ packet) ∧
      ∀ rest, Packet.take.runOn (packet ++ rest) = (.ok e.packet.canonical, rest) ∧
        (e.version = knownVersion →
          decode (bs ++ rest) = .ok (.supported { e with packet := e.packet.canonical })) := by
  refine ⟨fun err => encode_eq_error_iff.trans unwritable_iff, fun bs hbs => ?_⟩
  obtain ⟨packet, hpacket, hsplit⟩ := written_of_encode hbs
  refine ⟨packet, putAll_of_written hpacket [], hsplit, fun rest => ?_⟩
  rw [← Packet.heard_eq_canonical]
  exact ⟨Packet.takes_values hpacket rest, fun hversion => decode_encode hbs hversion rest⟩

/-- A change of which some is lost on the way. -/
def vague : Change where
  ref := ⟨-3, .mute⟩
  mode := .lift
  broadcasting := .silent
  target := some ""
  lifter := some (.player .nil)

def vagueEnvelope (c : Change) : Envelope where
  version := knownVersion
  origin := { bytes := List.replicate 16 9 }
  packet := .change c

theorem reads_back_of_vague : ∃ bs, (vagueEnvelope vague).encode = .ok bs ∧ decode (bs ++ [7]) =
    .ok (.supported (vagueEnvelope { vague with target := none, lifter := some .console })) := by
  obtain ⟨bs, hbs⟩ : ∃ bs, (vagueEnvelope vague).encode = .ok bs := ⟨_, rfl⟩
  obtain ⟨packet, -, -, hread⟩ := (reads_back (vagueEnvelope vague)).2 bs hbs
  exact ⟨bs, hbs, (hread [7]).2 rfl⟩

end Envelope

end Moderation
