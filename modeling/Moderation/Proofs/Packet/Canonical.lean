import Moderation.Proofs.Packet.RoundTrip
import Moderation.Proofs.Wire.Canonical
/-!
# Every message is spelled in one way

A packet that is read can be written, and what was read is what is written: other bytes are refused, however they
were made. So a packet or an envelope has one spelling that is accepted, with anything behind it.
-/

namespace Moderation

open Wire Wire.Reader

namespace Change

theorem spells_member {α : Type} {ofOrdinal? : UInt8 → Option α} {ordinal : α → UInt8}
    (hordinal : ∀ {n a}, ofOrdinal? n = some a → n = ordinal a) (field : String) :
    (takeMember field ofOrdinal?).Spells fun a => .byte (ordinal a) := by
  intro input rest a h
  obtain ⟨n, bs, left, hbs, rfl, hmember⟩ := (spells_byte field).of_bind h
  split at hmember
  · next hn =>
    cases hmember
    obtain rfl := hordinal hn
    exact ⟨bs, hbs, rfl⟩
  · cases hmember

/-- An empty target is heard as none, and none is written as an empty target. -/
theorem getD_nonempty (s : String) : (nonempty (some s)).getD "" = s := by
  simp only [nonempty, Option.filter_some]
  split
  · rfl
  · simp_all

/-- A change is read from nothing but its values. -/
theorem written_of_take {input rest : Bytes} {c : Change} (h : Change.take.runOn input = (.ok c, rest)) :
    ∃ bs, Written c.values bs ∧ input = bs ++ rest := by
  obtain ⟨id, b₁, _, hid, rfl, h₁⟩ := (spells_long "id").of_bind h
  obtain ⟨kind, b₂, _, hkind, rfl, h₂⟩ := (spells_member Kind.ofOrdinal?_eq_some_iff.1 "type").of_bind h₁
  obtain ⟨impose, b₃, _, himpose, rfl, h₃⟩ := (spells_flag "mode").of_bind h₂
  obtain ⟨broadcasting, b₄, _, hbroadcasting, rfl, h₄⟩ :=
    (spells_member Broadcasting.ofOrdinal?_eq_some_iff.1 "broadcasting").of_bind h₃
  obtain ⟨target, b₅, _, htarget, rfl, h₅⟩ := (spells_text "target_argument" "target_argument").of_bind h₄
  obtain ⟨lifted, b₆, left, hlifted, rfl, h₆⟩ := (spells_flag "has_operator").of_bind h₅
  have hfields {vs bs} (hvs : Written vs bs) : Written (.long id :: .byte kind.ordinal :: .flag impose ::
      .byte broadcasting.ordinal :: .text "target_argument" target :: .flag lifted :: vs)
      (b₁ ++ (b₂ ++ (b₃ ++ (b₄ ++ (b₅ ++ (b₆ ++ bs)))))) :=
    .cons hid (.cons hkind (.cons himpose (.cons hbroadcasting (.cons htarget (.cons hlifted hvs)))))
  cases lifted with
  | false =>
    cases h₆
    refine ⟨b₁ ++ (b₂ ++ (b₃ ++ (b₄ ++ (b₅ ++ b₆)))), ?_, by simp⟩
    simpa [values, getD_nonempty] using hfields .nil
  | true =>
    obtain ⟨lifter, _, hlifter, h₇⟩ := runOn_bind_eq_ok h₆
    cases h₇
    obtain ⟨operator, hoperator, rfl⟩ := runOn_map_eq_ok hlifter
    obtain ⟨u, hu, rfl⟩ := runOn_map_eq_ok hoperator
    obtain ⟨b₇, huuid, rfl⟩ := spells_uuid "operator" _ _ _ hu
    refine ⟨b₁ ++ (b₂ ++ (b₃ ++ (b₄ ++ (b₅ ++ (b₆ ++ b₇))))), ?_, by simp⟩
    simpa [values, getD_nonempty] using hfields (.cons huuid .nil)

end Change

namespace Packet

/-- A packet is read from nothing but its values. -/
theorem written_of_take {input rest : Bytes} {p : Packet} (h : Packet.take.runOn input = (.ok p, rest)) :
    ∃ bs, Written p.values bs ∧ input = bs ++ rest := by
  obtain ⟨n, b, left, hn, rfl, hvalues⟩ := (spells_byte "packet_type").of_bind h
  split at hvalues
  · obtain ⟨c, hc, rfl⟩ := runOn_map_eq_ok hvalues
    obtain ⟨bs, hbs, rfl⟩ := Change.written_of_take hc
    exact ⟨b ++ bs, .cons hn hbs, by simp⟩
  · obtain ⟨id, hid, rfl⟩ := runOn_map_eq_ok hvalues
    obtain ⟨bs, hbs, rfl⟩ := spells_long "id" _ _ _ hid
    exact ⟨b ++ bs, .cons hn (.singleton hbs), by simp⟩
  · obtain ⟨id, hid, rfl⟩ := runOn_map_eq_ok hvalues
    obtain ⟨bs, hbs, rfl⟩ := spells_long "id" _ _ _ hid
    exact ⟨b ++ bs, .cons hn (.singleton hbs), by simp⟩
  · cases hvalues

/-- Whoever reads the packet has read the bytes in which it is written, and whoever reads these reads the packet. -/
theorem take_eq_ok_iff {input rest : Bytes} {p : Packet} (h : Packet.take.runOn input = (.ok p, rest)) {bs : Bytes}
    (hbs : Written p.values bs) (input' rest' : Bytes) :
    Packet.take.runOn input' = (.ok p, rest') ↔ input' = bs ++ rest' := by
  obtain ⟨bs', hbs', rfl⟩ := written_of_take h
  -- What was read once has nothing left to lose.
  have hheard : p.heard = p := by
    rw [takes_values hbs' rest] at h
    exact Except.ok.inj (congrArg Prod.fst h)
  constructor
  · intro h'
    obtain ⟨bs', hbs', rfl⟩ := written_of_take h'
    rw [hbs'.unique hbs]
  · rintro rfl
    rw [takes_values hbs rest', hheard]

end Packet

namespace Envelope

/-- An envelope is opened from nothing but its values. -/
theorem written_of_decode {input : Bytes} {e : Envelope} (h : decode input = .ok (.supported e)) :
    e.version = knownVersion ∧ ∃ bs rest, Written e.values bs ∧ input = bs ++ rest := by
  obtain ⟨left, h⟩ : ∃ left, take.runOn input = (.ok (.supported e), left) :=
    ⟨(take.runOn input).2, Prod.ext h rfl⟩
  obtain ⟨version, b₁, _, hversion, rfl, h₁⟩ := (spells_byte "version").of_bind h
  split at h₁
  · next hknown =>
    obtain ⟨origin, b₂, _, horigin, rfl, h₂⟩ := (spells_uuid "origin").of_bind h₁
    obtain ⟨packet, _, hpacket, h₃⟩ := runOn_bind_eq_ok h₂
    obtain ⟨bs, hbs, rfl⟩ := Packet.written_of_take hpacket
    cases h₃
    exact ⟨hknown, b₁ ++ (b₂ ++ bs), left, .cons hversion (.cons horigin hbs), by simp⟩
  · cases h₁

theorem decode_eq_ok_iff {input : Bytes} {e : Envelope} (h : decode input = .ok (.supported e)) {bs : Bytes}
    (hbs : e.encode = .ok bs) (input' : Bytes) : decode input' = .ok (.supported e) ↔ bs <+: input' := by
  obtain ⟨hknown, bs', rest, hbs', rfl⟩ := written_of_decode h
  have hheard : { e with packet := e.packet.heard } = e := by
    rw [decode_encode (encode_eq_ok_iff.2 hbs') hknown rest] at h
    exact Opened.supported.inj (Except.ok.inj h)
  constructor
  · intro h'
    obtain ⟨-, bs', rest', hbs', rfl⟩ := written_of_decode h'
    rw [hbs'.unique (encode_eq_ok_iff.1 hbs)]
    exact List.prefix_append bs rest'
  · rintro ⟨rest', rfl⟩
    rw [decode_encode hbs hknown rest', hheard]

end Envelope

/-- Whatever the bytes are: if a packet is read off their front, it can be written, they begin with what is written,
and no other bytes are read as this packet. If an envelope is opened, the same is true of it. -/
theorem spelled_in_one_way (input : Bytes) :
    (∀ p rest, Packet.take.runOn input = (.ok p, rest) → ∃ bs,
      putAll [] p.values = (.ok (), bs) ∧ input = bs ++ rest ∧
      ∀ input' rest', Packet.take.runOn input' = (.ok p, rest') ↔ input' = bs ++ rest') ∧
    ∀ e, Envelope.decode input = .ok (.supported e) → ∃ bs,
      e.encode = .ok bs ∧ bs <+: input ∧
      ∀ input', Envelope.decode input' = .ok (.supported e) ↔ bs <+: input' := by
  constructor
  · intro p rest h
    obtain ⟨bs, hbs, hinput⟩ := Packet.written_of_take h
    exact ⟨bs, putAll_of_written hbs [], hinput, Packet.take_eq_ok_iff h hbs⟩
  · intro e h
    obtain ⟨-, bs, rest, hbs, rfl⟩ := Envelope.written_of_decode h
    have hencode := Envelope.encode_eq_ok_iff.2 hbs
    exact ⟨bs, hencode, List.prefix_append bs rest, Envelope.decode_eq_ok_iff h hencode⟩

/-- The bytes of a change that the console made. -/
def spelled : Bytes :=
  [1, 255, 255, 255, 255, 255, 255, 255, 253, 1, 0, 1, 0, 2, 111, 107, 1] ++ List.replicate 16 0

def spelledPacket : Packet :=
  .change { ref := ⟨-3, .mute⟩, mode := .lift, broadcasting := .silent, target := some "ok", lifter := some .console }

def spelledEnvelope : Envelope := { version := 1, origin := default, packet := spelledPacket }

/-- With a byte behind them these bytes are read, alone and in an envelope. -/
theorem spelled_in_one_way_at_spelled :
    Packet.take.runOn (spelled ++ [7]) = (.ok spelledPacket, [7]) ∧ putAll [] spelledPacket.values = (.ok (), spelled) ∧
    Envelope.decode (1 :: (List.replicate 16 0 ++ spelled) ++ [7]) = .ok (.supported spelledEnvelope) ∧
    ∃ bs, spelledEnvelope.encode = .ok bs ∧ bs <+: 1 :: (List.replicate 16 0 ++ spelled) ++ [7] := by
  have htake : Packet.take.runOn (spelled ++ [7]) = (.ok spelledPacket, [7]) := by rfl
  have hdecode : Envelope.decode (1 :: (List.replicate 16 0 ++ spelled) ++ [7]) = .ok (.supported spelledEnvelope) := by
    rfl
  obtain ⟨bs, hput, hbs, -⟩ := (spelled_in_one_way (spelled ++ [7])).1 spelledPacket [7] htake
  obtain ⟨bs', hencode, hprefix, -⟩ :=
    (spelled_in_one_way (1 :: (List.replicate 16 0 ++ spelled) ++ [7])).2 spelledEnvelope hdecode
  refine ⟨htake, ?_, hdecode, bs', hencode, hprefix⟩
  rw [List.append_cancel_right hbs, hput]

end Moderation
