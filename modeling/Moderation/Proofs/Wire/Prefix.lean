import Moderation.Proofs.Wire.RoundTrip
/-!
# Reading a part of the input

What a reader makes of the front of its input says what it makes of all of it: a result stays, be it a value or a
refusal, and a reader that wants more bytes goes on wanting until it has been given as many as it said.
`Reader.Steady` says so of one reader and is put together along `>>=`.
-/

namespace Moderation.Wire

variable {α β : Type}

namespace Reader

/-- The reader goes by no more of its input than it takes or says that it wants. -/
structure Steady (r : Reader α) : Prop where
  settled : ∀ {input x rest}, r.runOn input = (x, rest) → (∀ field needed, x ≠ .error (.truncated field needed)) →
    ∀ more, r.runOn (input ++ more) = (x, rest ++ more)
  lacking : ∀ {input field needed rest}, r.runOn input = (.error (.truncated field needed), rest) → 1 ≤ needed ∧
    ∀ more, more.length < needed →
      r.runOn (input ++ more) = (.error (.truncated field (needed - more.length)), rest ++ more)

theorem steady_pure (a : α) : Steady (pure a) where
  settled h _ more := by
    cases h
    rfl
  lacking h := by cases h

/-- A reader that refuses whatever it is given, but not for want of bytes. -/
theorem steady_throw {e : DecodeError} (he : ∀ field needed, e ≠ .truncated field needed) :
    Steady (throw e : Reader α) where
  settled h _ more := by
    cases h
    rfl
  lacking {input field needed rest} h := by
    cases h
    exact absurd rfl (he field needed)

theorem Steady.bind {r : Reader α} {f : α → Reader β} (hr : r.Steady) (hf : ∀ a, (f a).Steady) :
    (r >>= f).Steady where
  settled {input x rest} h hx more := by
    rw [runOn_bind] at h ⊢
    rcases hrun : r.runOn input with ⟨e | a, left⟩
    · rw [hrun] at h
      cases h
      rw [hr.settled hrun (fun field needed hlacks => hx field needed (by cases hlacks; rfl)) more]
    · rw [hrun] at h
      rw [hr.settled hrun (fun _ _ hlacks => by cases hlacks) more]
      exact (hf a).settled h hx more
  lacking {input field needed rest} h := by
    rw [runOn_bind] at h
    rcases hrun : r.runOn input with ⟨e | a, left⟩
    · rw [hrun] at h
      cases h
      obtain ⟨hpos, hmore⟩ := hr.lacking hrun
      refine ⟨hpos, fun more hlt => ?_⟩
      rw [runOn_bind, hmore more hlt]
    · rw [hrun] at h
      obtain ⟨hpos, hmore⟩ := (hf a).lacking h
      refine ⟨hpos, fun more hlt => ?_⟩
      rw [runOn_bind, hr.settled hrun (fun _ _ hlacks => by cases hlacks) more]
      exact hmore more hlt

theorem Steady.map {r : Reader α} (h : r.Steady) (f : α → β) : (f <$> r).Steady :=
  h.bind fun a => steady_pure (f a)

/-- Of the bytes of a value all are wanted: a part of them is read as too short, by no more than it is. -/
theorem Steady.lacking_of_takes {r : Reader α} (hr : r.Steady) {part missing : Bytes} {a : α}
    (h : r.Takes (part ++ missing) a) (hmissing : missing ≠ []) : ∃ field needed rest,
      r.runOn part = (.error (.truncated field needed), rest) ∧ needed ≤ missing.length := by
  have hwhole := h []
  rw [List.append_nil] at hwhole
  rcases hrun : r.runOn part with ⟨x, rest⟩
  by_cases hx : ∃ field needed, x = .error (.truncated field needed)
  · obtain ⟨field, needed, rfl⟩ := hx
    refine ⟨field, needed, rest, rfl, Nat.le_of_not_lt fun hlt => ?_⟩
    rw [(hr.lacking hrun).2 missing hlt] at hwhole
    cases hwhole
  · -- What was read of the part would be read of the whole, with the missing bytes left over.
    have hsettled := hr.settled hrun (fun field needed h => hx ⟨field, needed, h⟩) missing
    rw [hwhole] at hsettled
    exact absurd (List.append_eq_nil_iff.1 (congrArg Prod.snd hsettled).symm).2 hmissing

end Reader

open Reader

theorem steady_take (field : String) (n : Nat) : (take field n).Steady where
  settled {input x rest} h hx more := by
    rw [runOn_take] at h
    split at h
    · cases h
      exact absurd rfl (hx field _)
    · next hn =>
      cases h
      have hn : n ≤ input.length := Nat.le_of_not_lt hn
      rw [runOn_take, if_neg (by rw [List.length_append]; omega), List.take_append_of_le_length hn,
        List.drop_append_of_le_length hn]
  lacking {input field' needed rest} h := by
    rw [runOn_take] at h
    split at h
    · cases h
      refine ⟨by omega, fun more hlt => ?_⟩
      rw [runOn_take, List.length_append, if_pos (by omega), Nat.sub_sub]
    · cases h

theorem steady_long (field : String) : (takeLong field).Steady := (steady_take field 8).bind fun _ => steady_pure _

theorem steady_byte (field : String) : (takeByte field).Steady := (steady_take field 1).bind fun _ => steady_pure _

theorem steady_flag (field : String) : (takeFlag field).Steady := by
  refine (steady_byte field).bind fun b => ?_
  split
  · exact steady_pure false
  · exact steady_pure true
  · exact steady_throw (by simp)

theorem steady_uuid (field : String) : (takeUuid field).Steady := (steady_take field 16).bind fun _ => steady_pure _

/-- How many bytes a text wants is known once its length is there. -/
theorem steady_text (field : String) : (takeText field).Steady := by
  refine (steady_take field 2).bind fun length => (steady_take field _).bind fun bs => ?_
  split
  · exact steady_pure _
  · exact steady_throw (by simp)

end Moderation.Wire
