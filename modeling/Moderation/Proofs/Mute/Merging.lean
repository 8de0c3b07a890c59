import Mathlib.Data.Set.Insert
import Moderation.Proofs.Store.Standing
/-!
# Mutes merged in any order

A value into which mutes are merged keeps the one that ends last, so it does not matter in which order they come, nor
how often. Two values that began alike and have the same mutes merged into them end alike: `Merged.ends_eq`.
-/

namespace Moderation.Punishment

/-- `v` is what has become of `start` with the mutes of a visitor in `done` merged into it, and with none that are not
in `all`. -/
structure Merged (key : Visitor) (start : Option Punishment) (all done : Set Punishment) (v : Option Punishment) :
    Prop where
  /-- Nothing is there but what was there and what was merged. -/
  origin : ∀ p ∈ v, start = some p ∨ p ∈ all ∧ p.Mutes key
  kept : ∀ p ∈ start, ∃ q ∈ v, ¬p.Outlasts q
  latest : ∀ p ∈ done, p.Mutes key → ∃ q ∈ v, ¬p.Outlasts q

namespace Merged

variable {key : Visitor} {start v : Option Punishment} {all all' done done' : Set Punishment} {p q : Punishment}

theorem refl (key : Visitor) (v : Option Punishment) : Merged key v ∅ ∅ v where
  origin _ hp := .inl hp
  kept p hp := ⟨p, hp, Outlasts.irrefl p⟩
  latest _ hp := absurd hp (Set.notMem_empty _)

theorem mono (h : Merged key start all done v) (hall : all ⊆ all') (hdone : done' ⊆ done) :
    Merged key start all' done' v where
  origin p hp := (h.origin p hp).imp_right fun ⟨hmem, hmutes⟩ => ⟨hall hmem, hmutes⟩
  kept := h.kept
  latest p hp := h.latest p (hdone hp)

/-- One more punishment takes the place of the value if it is a mute that ends later. -/
theorem merge (h : Merged key start all done v) (hp : p ∈ all) :
    Merged key start all (insert p done) (if p.Mutes key then some (later v p) else v) := by
  obtain ⟨hone, hnew, hold⟩ := later_spec v p
  by_cases hmutes : p.Mutes key
  · rw [if_pos hmutes]
    -- What does not outlast the old value does not outlast the new one.
    have hlast {r : Punishment} : (∃ q ∈ v, ¬r.Outlasts q) → ∃ q ∈ some (later v p), ¬r.Outlasts q := by
      rintro ⟨q, hq, hr⟩
      exact ⟨_, rfl, not_outlasts_trans (hold q hq) hr⟩
    constructor
    · intro r hr
      obtain rfl := Option.some.inj hr
      rcases hone with hone | hone
      · rw [hone]
        exact .inr ⟨hp, hmutes⟩
      · exact h.origin _ hone
    · intro r hr
      exact hlast (h.kept r hr)
    · rintro r (rfl | hr) hmutes'
      · exact ⟨_, rfl, hnew⟩
      · exact hlast (h.latest r hr hmutes')
  · rw [if_neg hmutes]
    refine ⟨h.origin, h.kept, ?_⟩
    rintro r (rfl | hr) hmutes'
    · exact absurd hmutes' hmutes
    · exact h.latest r hr hmutes'

/-! ## Two values -/

variable {start' w : Option Punishment}

/-- A punishment is outlasted by those that end later than it, whatever else it says. -/
theorem outlasts_congr {r : Punishment} (h : p.ends = q.ends) : p.Outlasts r ↔ q.Outlasts r := by
  simp only [Outlasts, Permanent, h]

/-- Nothing in the one value outlasts the other one. -/
theorem not_outlasts (h : Merged key start all done v) (h' : Merged key start' done' all w)
    (hstart : start.map ends = start'.map ends) (hp : p ∈ v) : ∃ q ∈ w, ¬p.Outlasts q := by
  rcases h.origin p hp with hfirst | ⟨hmem, hmutes⟩
  · rw [hfirst, Option.map_some, eq_comm, Option.map_eq_some_iff] at hstart
    obtain ⟨p', hp', hends⟩ := hstart
    obtain ⟨q, hq, hlast⟩ := h'.kept p' hp'
    exact ⟨q, hq, fun hout => hlast ((outlasts_congr hends).2 hout)⟩
  · exact h'.latest p hmem hmutes

/-- Values that began alike end alike when all mutes are merged into both. -/
theorem ends_eq (h : Merged key start all all v) (h' : Merged key start' all all w)
    (hstart : start.map ends = start'.map ends) : v.map ends = w.map ends := by
  cases v with
  | none =>
    cases w with
    | none => rfl
    | some q =>
      obtain ⟨p, hp, -⟩ := h'.not_outlasts h hstart.symm (p := q) rfl
      cases hp
  | some p =>
    obtain ⟨q, rfl, hpq⟩ := h.not_outlasts h' hstart (p := p) rfl
    obtain ⟨p', hp', hqp⟩ := h'.not_outlasts h hstart.symm (p := q) rfl
    obtain rfl := Option.some.inj hp'
    rw [Option.map_some, Option.map_some, ends_eq_of_not_outlasts hpq hqp]

end Merged

end Moderation.Punishment
