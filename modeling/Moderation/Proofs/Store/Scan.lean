import Mathlib.Data.List.Induction
import Moderation.Proofs.Store.Standing
/-!
# How a store finds the mute that applies

A store goes through its punishments one after the other and takes the next one in place of the one it holds if the
next one ends later. So it ends with the first, in the order in which it goes through them, that none of them outlasts
(`latest_eq_find?`). Nothing is said of that order. `applicable_in_any_order`: whatever it is, the store finds a mute if
there is one that applies, no other one that applies ends later, and what it finds always ends at the same second.
-/

namespace Moderation

namespace Punishment

variable {ps ps' : List Punishment} {p r : Punishment}

/-! ## The latest of several -/

theorem latest_concat (ps : List Punishment) (p : Punishment) :
    latest (ps ++ [p]) = some (later (latest ps) p) := by
  rw [latest, List.foldl_append]
  rfl

theorem latest_eq_none : latest ps = none ↔ ps = [] :=
  not_iff_not.1 (Option.isSome_iff_ne_none.symm.trans latest_isSome)

/-- The latest of several outlasts those before it. -/
theorem split_of_latest (h : latest ps = some r) :
    ∃ before after, ps = before ++ r :: after ∧ ∀ p ∈ before, r.Outlasts p := by
  induction ps using List.reverseRecOn generalizing r with
  | nil => cases h
  | append_singleton ps p ih =>
    rw [latest_concat] at h
    obtain rfl := Option.some.inj h
    cases hlatest : latest ps with
    | none => exact ⟨[], [], by rw [latest_eq_none.1 hlatest]; rfl, by simp⟩
    | some x =>
      by_cases hout : p.Outlasts x
      · rw [later, if_pos hout]
        refine ⟨ps, [], rfl, fun q hq => ?_⟩
        -- What does not outlast `x` is outlasted by what does.
        by_contra hp
        exact not_outlasts_trans ((mem_of_latest hlatest).2 q hq) hp hout
      · rw [later, if_neg hout]
        obtain ⟨before, after, rfl, hbefore⟩ := ih hlatest
        exact ⟨before, after ++ [p], by simp, hbefore⟩

/-- The latest of several is the first of them that none of them outlasts. -/
theorem latest_eq_find? (ps : List Punishment) : latest ps = ps.find? fun p => ∀ q ∈ ps, ¬q.Outlasts p := by
  cases hlatest : latest ps with
  | none => rw [latest_eq_none.1 hlatest, List.find?_nil]
  | some r =>
    obtain ⟨hmem, hlast⟩ := mem_of_latest hlatest
    obtain ⟨before, after, hps, hbefore⟩ := split_of_latest hlatest
    refine (List.find?_eq_some_iff_append.2 ⟨by simpa using hlast, before, after, hps, fun p hp => ?_⟩).symm
    simpa using ⟨r, hmem, hbefore p hp⟩

/-- When the latest ends depends only on which punishments there are. -/
theorem ends_latest_congr (h : ∀ p, p ∈ ps ↔ p ∈ ps') : (latest ps).map ends = (latest ps').map ends := by
  cases hlatest : latest ps with
  | none =>
    obtain rfl := latest_eq_none.1 hlatest
    have hnil : ps' = [] := List.eq_nil_iff_forall_not_mem.2 fun p hp => List.not_mem_nil ((h p).2 hp)
    rw [hnil, ← hlatest]
  | some r =>
    obtain ⟨hmem, hlast⟩ := mem_of_latest hlatest
    cases hlatest' : latest ps' with
    | none =>
      have hmem' := (h r).1 hmem
      rw [latest_eq_none.1 hlatest'] at hmem'
      cases hmem'
    | some r' =>
      obtain ⟨hmem', hlast'⟩ := mem_of_latest hlatest'
      rw [Option.map_some, Option.map_some,
        ends_eq_of_not_outlasts (hlast' r ((h r).1 hmem)) (hlast r' ((h r').2 hmem'))]

end Punishment

namespace Store

open Punishment

variable {s s' : Store} {now : Seconds} {key : Visitor}

/-- The store names a mute for a visitor if there is one that applies, and only then. -/
theorem applicableMute_eq_none : s.applicableMute now key = none ↔ ∀ id p, s.get? id = some p → ¬Applies now key p := by
  rw [applicableMute, latest_eq_none, List.filter_eq_nil_iff]
  simp only [mem_values, decide_eq_true_eq]
  constructor
  · intro h id p hp
    apply h p
    rw [s.numbered id p hp]
    exact hp
  · intro h p hp
    exact h p.id p hp

/-- It is the first, as the store goes through its rows, of those that apply and that none of them outlasts. -/
theorem applicableMute_eq_find? (s : Store) (now : Seconds) (key : Visitor) :
    s.applicableMute now key = s.punishments.values.find? fun p =>
      Applies now key p ∧ ∀ q ∈ s.punishments.values, Applies now key q → ¬q.Outlasts p := by
  rw [applicableMute, latest_eq_find?, List.find?_filter]
  congr 1
  funext p
  simp

/-- Stores with the same rows in another order name mutes that end at the same second, or both none. -/
theorem alike_of_perm (h : s'.punishments.rows.Perm s.punishments.rows) (now : Seconds) (key : Visitor) :
    Alike (s.applicableMute now key) (s'.applicableMute now key) := by
  have hmem : ∀ p, p ∈ s.punishments.values.filter (fun p => Applies now key p) ↔
      p ∈ s'.punishments.values.filter (fun p => Applies now key p) := by
    intro p
    have hvalues : s'.punishments.values.Perm s.punishments.values := h.map Prod.snd
    exact (hvalues.filter _).mem_iff.symm
  have hends : (s.applicableMute now key).map ends = (s'.applicableMute now key).map ends := ends_latest_congr hmem
  cases hp : s.applicableMute now key with
  | none =>
    cases hp' : s'.applicableMute now key with
    | none => exact .none
    | some p' => simp [hp, hp'] at hends
  | some p =>
    cases hp' : s'.applicableMute now key with
    | none => simp [hp, hp'] at hends
    | some p' =>
      have hkind := (applicableMute_eq_some hp).2.1.1
      have hkind' := (applicableMute_eq_some hp').2.1.1
      simp only [hp, hp', Option.map_some, Option.some.injEq] at hends
      exact .some ⟨hkind, hkind', hends⟩

/-- For every content of a store, every order of its rows, every visitor and every second: the store names none just if
no punishment on record is a mute of the visitor that is not over; what it names is on record and is such a mute, and
no other such mute on record ends later; of those that none ends later than, it is the first in the order of the rows;
and with the rows in another order the store names none as well, or a mute that ends at the same second. -/
theorem applicable_in_any_order (s : Store) (now : Seconds) (key : Visitor) :
    (s.applicableMute now key = none ↔
      ∀ id p, s.get? id = some p → ¬(p.kind = .mute ∧ ¬p.ExpiredAt now ∧ p.victim.Covers key)) ∧
    (∀ p, s.applicableMute now key = some p →
      s.get? p.id = some p ∧ (p.kind = .mute ∧ ¬p.ExpiredAt now ∧ p.victim.Covers key) ∧
      ∀ id q, s.get? id = some q → (q.kind = .mute ∧ ¬q.ExpiredAt now ∧ q.victim.Covers key) → ¬q.Outlasts p) ∧
    (s.applicableMute now key = s.punishments.values.find? fun p =>
      Applies now key p ∧ ∀ q ∈ s.punishments.values, Applies now key q → ¬q.Outlasts p) ∧
    ∀ s' : Store, s'.punishments.rows.Perm s.punishments.rows →
      Alike (s.applicableMute now key) (s'.applicableMute now key) := by
  refine ⟨applicableMute_eq_none, ?_, s.applicableMute_eq_find? now key, ?_⟩
  · intro p hp
    obtain ⟨hget, happlies, hlast⟩ := applicableMute_eq_some hp
    refine ⟨hget, happlies, ?_⟩
    intro id q hq hqapplies
    apply hlast q
    · rw [s.numbered id q hq]
      exact hq
    · exact hqapplies
  · intro s' hperm
    exact alike_of_perm hperm now key

/-- Two mutes end at the same second, one of the player and one of the address. The store names the one that it comes
to first, and both end after a third one. -/
theorem applicable_in_either_order :
    let key : Visitor := default
    let mute (id : PunishmentId) (victim : Victim) (ends : Seconds) : Punishment :=
      ⟨id, .mute, victim, .console, "spam", .global, 0, ends⟩
    let first := mute 1 (.player key.user) 3000
    let second := mute 2 (.address key.address) 3000
    let third := mute 3 (.player key.user) 2000
    let s := (({} : Store).insert third).insert first |>.insert second
    let s' := (({} : Store).insert second).insert third |>.insert first
    s.applicableMute 1000 key = some first ∧ s'.applicableMute 1000 key = some second ∧
      s'.punishments.rows.Perm s.punishments.rows ∧ ¬third.Outlasts first ∧
      Alike (s.applicableMute 1000 key) (s'.applicableMute 1000 key) := by
  intro key mute first second third s s'
  obtain ⟨-, hnamed, -, halike⟩ := applicable_in_any_order s 1000 key
  have hfirst : s.applicableMute 1000 key = some first := by decide +kernel
  have hperm : s'.punishments.rows.Perm s.punishments.rows := by decide +kernel
  refine ⟨hfirst, by decide +kernel, hperm, ?_, halike s' hperm⟩
  exact (hnamed first hfirst).2.2 3 third (by decide +kernel) (by decide +kernel)

end Store

end Moderation
