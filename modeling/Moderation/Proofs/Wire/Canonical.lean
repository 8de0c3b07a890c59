import Moderation.Proofs.Wire.RoundTrip
/-!
# Nothing else is read

The bytes from which a reader gave a value are those in which the value is written: what stands for no value is
refused, and no value can be written in two ways. `Reader.Spells` says so of one reader, and a reader that is put
together by `>>=` is taken apart by `Spells.of_bind`.
-/

namespace Moderation.Wire

variable {α β : Type}

namespace Reader

theorem runOn_bind_eq_ok {r : Reader α} {f : α → Reader β} {input rest : Bytes} {b : β}
    (h : runOn (r >>= f) input = (.ok b, rest)) :
    ∃ a left, r.runOn input = (.ok a, left) ∧ (f a).runOn left = (.ok b, rest) := by
  rw [runOn_bind] at h
  rcases hr : r.runOn input with ⟨e | a, left⟩
  · simp [hr] at h
  · rw [hr] at h
    exact ⟨a, left, rfl, h⟩

theorem runOn_map_eq_ok {r : Reader α} {f : α → β} {input rest : Bytes} {b : β}
    (h : runOn (f <$> r) input = (.ok b, rest)) : ∃ a, r.runOn input = (.ok a, rest) ∧ f a = b := by
  obtain ⟨a, left, hr, hf⟩ := runOn_bind_eq_ok (f := fun a => Pure.pure (f a)) h
  cases hf
  exact ⟨a, hr, rfl⟩

/-- What the reader gave is the value of the bytes that it took. -/
def Spells (r : Reader α) (value : α → Value) : Prop :=
  ∀ input rest a, r.runOn input = (.ok a, rest) → ∃ bs, (value a).encode = .ok bs ∧ input = bs ++ rest

theorem Spells.of_bind {r : Reader α} {value : α → Value} (hr : r.Spells value) {f : α → Reader β}
    {input rest : Bytes} {b : β} (h : runOn (r >>= f) input = (.ok b, rest)) :
    ∃ a bs left, (value a).encode = .ok bs ∧ input = bs ++ left ∧ (f a).runOn left = (.ok b, rest) := by
  obtain ⟨a, left, ha, hf⟩ := runOn_bind_eq_ok h
  obtain ⟨bs, hbs, rfl⟩ := hr input left a ha
  exact ⟨a, bs, left, hbs, rfl, hf⟩

end Reader

open Reader

theorem runOn_take_eq_ok {field : String} {n : Nat} {input bs rest : Bytes}
    (h : (take field n).runOn input = (.ok bs, rest)) : bs.length = n ∧ input = bs ++ rest := by
  rw [runOn_take] at h
  split at h
  · cases h
  · next hn =>
    cases h
    refine ⟨?_, (List.take_append_drop n input).symm⟩
    rw [List.length_take]
    omega

theorem spells_long (field : String) : (takeLong field).Spells .long := by
  intro input rest n h
  obtain ⟨bs, left, htake, hn⟩ := runOn_bind_eq_ok h
  cases hn
  obtain ⟨hlength, rfl⟩ := runOn_take_eq_ok htake
  have hlt : BigEndian.toNat bs < 2 ^ 64 := by
    have h := BigEndian.toNat_lt bs
    rw [hlength] at h
    exact h
  refine ⟨bs, ?_, rfl⟩
  simp only [Value.encode, UInt64.toUInt64_toInt64]
  rw [UInt64.toNat_ofNat_of_lt' hlt, ← hlength, BigEndian.ofNat_toNat]

theorem spells_byte (field : String) : (takeByte field).Spells .byte := by
  intro input rest b h
  obtain ⟨bs, left, htake, hb⟩ := runOn_bind_eq_ok h
  cases hb
  obtain ⟨hlength, rfl⟩ := runOn_take_eq_ok htake
  obtain ⟨b, rfl⟩ := List.length_eq_one_iff.1 hlength
  exact ⟨[b], rfl, rfl⟩

theorem spells_flag (field : String) : (takeFlag field).Spells .flag := by
  intro input rest f h
  obtain ⟨b, bs, left, hbs, rfl, hf⟩ := (spells_byte field).of_bind h
  cases hbs
  split at hf
  · cases hf
    exact ⟨_, rfl, rfl⟩
  · cases hf
    exact ⟨_, rfl, rfl⟩
  · cases hf

theorem spells_uuid (field : String) : (takeUuid field).Spells .uuid := by
  intro input rest u h
  obtain ⟨bs, left, htake, hu⟩ := runOn_bind_eq_ok h
  cases hu
  obtain ⟨hlength, rfl⟩ := runOn_take_eq_ok htake
  refine ⟨bs, ?_, rfl⟩
  simp [Value.encode, Uuid.ofBytes?, hlength]

theorem eq_utf8_of_ofUtf8? {bs : Bytes} {s : String} (h : ofUtf8? bs = some s) : bs = utf8 s := by
  unfold ofUtf8? String.fromUTF8? at h
  split at h
  · cases h
    rfl
  · cases h

theorem spells_text (field name : String) : (takeText field).Spells (.text name) := by
  intro input rest s h
  obtain ⟨size, left, htake, h⟩ := runOn_bind_eq_ok h
  obtain ⟨bs, left', htake', hs⟩ := runOn_bind_eq_ok h
  obtain ⟨htwo, rfl⟩ := runOn_take_eq_ok htake
  obtain ⟨hsize, rfl⟩ := runOn_take_eq_ok htake'
  split at hs
  · next s' hutf8 =>
    cases hs
    obtain rfl := eq_utf8_of_ofUtf8? hutf8
    -- Two bytes cannot say a length that may not be written.
    have hsize : s.utf8ByteSize = BigEndian.toNat size := hsize
    have hlt : BigEndian.toNat size < 256 ^ 2 := htwo ▸ BigEndian.toNat_lt size
    refine ⟨size ++ utf8 s, ?_, by simp⟩
    simp only [Value.encode]
    rw [if_pos (by simp only [maxTextLength]; omega), hsize, ← htwo, BigEndian.ofNat_toNat]
  · cases hs

end Moderation.Wire
