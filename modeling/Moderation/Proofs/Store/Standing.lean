import Moderation.Proofs.Store.Applicable
/-!
# Standing for the mutes on record

A mute that was the latest of those on record for a visitor at one second stands for them at every later second,
also when others are put on record and the latest of them takes its place: while it is not over it ends when the
mute that the store names ends, and when it is over none is left (`StandsFor.alike`).
-/

namespace Moderation

namespace Punishment

variable {p q : Punishment}

theorem ExpiredAt.mono {t t' : Seconds} (h : p.ExpiredAt t) (ht : t ≤ t') : p.ExpiredAt t' := by
  unfold ExpiredAt at *
  grind

/-- Punishments of which neither outlasts the other end at the same second. -/
theorem ends_eq_of_not_outlasts (h : ¬p.Outlasts q) (h' : ¬q.Outlasts p) : p.ends = q.ends := by
  unfold Outlasts Permanent at *
  grind

/-- Both are none, or both are mutes that end at the same second. -/
def Alike (a b : Option Punishment) : Prop :=
  Option.Rel (fun p q => p.kind = .mute ∧ q.kind = .mute ∧ p.ends = q.ends) a b

end Punishment

namespace Store

open Punishment

/-- From the second `t₀` on, `v` stands for the mutes on record for a visitor: it is one of them, and of those that
are not over by then none outlasts it. -/
structure StandsFor (s : Store) (t₀ : Seconds) (key : Visitor) (v : Option Punishment) : Prop where
  recorded : ∀ p ∈ v, s.get? p.id = some p ∧ p.Mutes key
  latest : ∀ q, s.get? q.id = some q → Applies t₀ key q → ∃ p ∈ v, ¬q.Outlasts p

variable {s : Store} {t₀ t : Seconds} {key : Visitor} {v : Option Punishment} {p : Punishment}

theorem get?_insert (s : Store) (p : Punishment) (id : PunishmentId) :
    (s.insert p).get? id = if id = p.id then some p else s.get? id :=
  Table.get?_insert _ _ _ _

/-- What the store names stands for what is on record. -/
theorem standsFor_applicableMute (s : Store) (t₀ : Seconds) (key : Visitor) :
    s.StandsFor t₀ key (s.applicableMute t₀ key) where
  recorded p hp := by
    exact ⟨(applicableMute_eq_some hp).1, mutes_applicableMute s t₀ key p hp⟩
  latest q hq happ := by
    obtain ⟨p, hp⟩ := Option.isSome_iff_exists.1 (applicableMute_isSome hq happ)
    exact ⟨p, hp, (applicableMute_eq_some hp).2.2 q hq happ⟩

/-- A punishment with a new number is put on record, and a mute of the visitor takes the place of `v` if it ends
later. -/
theorem StandsFor.insert (h : s.StandsFor t₀ key v) (hnew : s.get? p.id = none) :
    (s.insert p).StandsFor t₀ key (if p.Mutes key then some (later v p) else v) := by
  -- What was on record still is: its number is another one.
  have hkept : ∀ q, s.get? q.id = some q → (s.insert p).get? q.id = some q := by
    intro q hq
    rw [get?_insert, if_neg, hq]
    rintro hid
    rw [hid, hnew] at hq
    cases hq
  have hself : (s.insert p).get? p.id = some p := by rw [get?_insert, if_pos rfl]
  obtain ⟨hone, hnewest, hold⟩ := later_spec v p
  constructor
  · intro r hr
    split at hr
    · next hp =>
      obtain rfl := Option.some.inj hr
      rcases hone with hone | hone
      · rw [hone]
        exact ⟨hself, hp⟩
      · obtain ⟨hget, hmutes⟩ := h.recorded _ hone
        exact ⟨hkept _ hget, hmutes⟩
    · obtain ⟨hget, hmutes⟩ := h.recorded r hr
      exact ⟨hkept r hget, hmutes⟩
  · intro q hq happ
    rw [get?_insert] at hq
    split at hq
    -- It is the new one, and that is a mute of the visitor.
    · obtain rfl := Option.some.inj hq
      rw [if_pos ⟨happ.1, happ.2.2⟩]
      exact ⟨_, rfl, hnewest⟩
    · obtain ⟨r, hr, hlast⟩ := h.latest q hq happ
      split
      · exact ⟨_, rfl, not_outlasts_trans (hold r hr) hlast⟩
      · exact ⟨r, hr, hlast⟩

theorem alike_applicableMute (s : Store) (t : Seconds) (key : Visitor) :
    Alike (s.applicableMute t key) (s.applicableMute t key) := by
  cases h : s.applicableMute t key with
  | none => exact .none
  | some p =>
    have hkind := (applicableMute_eq_some h).2.1.1
    exact .some ⟨hkind, hkind, rfl⟩

/-- At every later second the store names a mute just if `v` is not over, and then they end together. -/
theorem StandsFor.alike (h : s.StandsFor t₀ key v) (ht : t₀ ≤ t) :
    Alike (unexpired t v) (s.applicableMute t key) := by
  -- What is not over later is not over at `t₀`.
  have happ₀ {q : Punishment} (happ : Applies t key q) : Applies t₀ key q :=
    ⟨happ.1, fun hover => happ.2.1 (hover.mono ht), happ.2.2⟩
  cases hv : unexpired t v with
  | none =>
    have hnone : s.applicableMute t key = none := by
      refine Option.eq_none_iff_forall_not_mem.2 fun q hq => ?_
      obtain ⟨hget, happ, -⟩ := applicableMute_eq_some hq
      obtain ⟨p, rfl, hlast⟩ := h.latest q hget (happ₀ happ)
      have hlive := not_expired_of_not_outlasts hlast happ.2.1
      rw [unexpired, Option.filter_some_pos (by simpa using hlive)] at hv
      cases hv
    rw [hnone]
    exact .none
  | some p =>
    obtain ⟨hp, hlive⟩ := Option.filter_eq_some_iff.1 hv
    obtain ⟨hget, hmutes⟩ := h.recorded p hp
    have happ : Applies t key p := ⟨hmutes.1, by simpa using hlive, hmutes.2⟩
    obtain ⟨q, hq⟩ := Option.isSome_iff_exists.1 (applicableMute_isSome hget happ)
    obtain ⟨hgetq, happq, hlatest⟩ := applicableMute_eq_some hq
    obtain ⟨p', hp', hlast⟩ := h.latest q hgetq (happ₀ happq)
    obtain rfl := Option.some.inj (hp.symm.trans hp')
    rw [hq]
    exact .some ⟨hmutes.1, happq.1, ends_eq_of_not_outlasts (hlatest p hget happ) hlast⟩

end Store

end Moderation
