import Mathlib.Data.Set.Card
import Moderation.Proofs.Mute.Held
/-!
# What is cleared

Clearing looks at nothing but the mutes that are held (`Cache.clearWhere_congr`), and counts the visitors for whom it
clears one (`Cache.clearWhere_count`). So in a cache that holds mutes alone it is all the same whether a mute is
cleared by its name or by its number: `Cache.clear_eq_clearId`.
-/

namespace Moderation

/-- As many values satisfy `p` as there are keys with such a value. -/
theorem Table.countP_values_eq_ncard {κ α : Type} [DecidableEq κ] (t : Table κ α) (p : α → Bool) :
    t.values.countP p = {k | (t.get? k).any p = true}.ncard := by
  have hnodup : ((t.rows.filter fun r => p r.2).map Prod.fst).Nodup :=
    t.distinct.sublist (List.filter_sublist.map _)
  have hkeys : {k | (t.get? k).any p = true} = ((t.rows.filter fun r => p r.2).map Prod.fst).toFinset := by
    ext k
    simp [Option.any_eq_true, get?_eq_some_iff]
  rw [hkeys, Set.ncard_coe_finset, List.toFinset_card_of_nodup hnodup, List.length_map, values, List.countP_map,
    List.countP_eq_length_filter]
  rfl

end Moderation

namespace Moderation.Mute

variable {match? match?' : Punishment → Bool}

namespace AlwaysAvailable

theorem Entry.clear_congr {e : Entry} (h : ∀ p ∈ e.current, match? p = match?' p) :
    e.holds match? = e.holds match?' ∧ e.clear match? = e.clear match?' := by
  have hholds : e.holds match? = e.holds match?' := by
    unfold holds
    cases hcurrent : e.current with
    | none => rfl
    | some p => exact h p hcurrent
  exact ⟨hholds, by simp only [clear, hholds]⟩

theorem clearWhere_congr {c : AlwaysAvailable}
    (h : ∀ key p, c.held key = some (some p) → match? p = match?' p) :
    c.clearWhere match? = c.clearWhere match?' := by
  have hentry : ∀ key e, (c.entries.mapRows fun _ e => e.fold c.ledger).get? key = some e →
      e.holds match? = e.holds match?' ∧ e.clear match? = e.clear match?' := by
    intro key e he
    rw [Table.get?_mapRows] at he
    refine Entry.clear_congr fun p hp => h key p ?_
    obtain ⟨e', he', rfl⟩ := Option.map_eq_some_iff.1 he
    simp only [held, he', Option.map_some]
    exact congrArg some hp
  unfold clearWhere
  dsimp only
  rw [Table.countP_values_congr fun key e he => (hentry key e he).1,
    Table.mapRows_congr fun key e he => (hentry key e he).2]

theorem clearWhere_count (c : AlwaysAvailable) (match? : Punishment → Bool) :
    (c.clearWhere match?).1 = {key | (c.held key).any fun v => v.any match?}.ncard := by
  refine (Table.countP_values_eq_ncard _ _).trans (congrArg Set.ncard ?_)
  ext key
  simp only [Table.get?_mapRows, held, Option.any_map]
  rfl

end AlwaysAvailable

namespace OnDemand

theorem Entry.clear_congr {l : Ledger} {e : Entry} (h : ∀ p, e.value? l = some (some p) → match? p = match?' p)
    (now : Timestamp) (nextId : Nat) : e.holds l match? = e.holds l match?' ∧
      e.clear l now match? nextId = e.clear l now match?' nextId := by
  have hholds : e.holds l match? = e.holds l match?' := by
    unfold holds
    rcases hvalue : e.value? l with _ | _ | p
    · rfl
    · rfl
    · exact h p hvalue
  exact ⟨hholds, by simp only [clear, hholds]⟩

theorem clearWhere_congr {c : OnDemand} (h : ∀ key p, c.held key = some (some p) → match? p = match?' p)
    (now : Timestamp) : c.clearWhere now match? = c.clearWhere now match?' := by
  have hentry : ∀ key e, c.entries.get? key = some e → ∀ nextId, e.holds c.ledger match? = e.holds c.ledger match?' ∧
      e.clear c.ledger now match? nextId = e.clear c.ledger now match?' nextId := by
    intro key e he nextId
    refine Entry.clear_congr (fun p hp => h key p ?_) now nextId
    simp only [held, he, Option.bind_some, hp]
  unfold clearWhere
  rw [Table.countP_values_congr fun key e he => (hentry key e he 0).1,
    Table.scan_congr fun key e he nextId => (hentry key e he nextId).2]

theorem clearWhere_count (c : OnDemand) (now : Timestamp) (match? : Punishment → Bool) :
    (c.clearWhere now match?).1 = {key | (c.held key).any fun v => v.any match?}.ncard := by
  refine (Table.countP_values_eq_ncard _ _).trans (congrArg Set.ncard ?_)
  ext key
  simp only [held, Option.any_bind]
  rfl

end OnDemand

namespace Cache

variable {c : Cache}

theorem clearWhere_congr (h : ∀ key p, c.held key = some (some p) → match? p = match?' p) (now : Moment) :
    c.clearWhere now match? = c.clearWhere now match?' := by
  cases c with
  | alwaysAvailable c => simp only [clearWhere, AlwaysAvailable.clearWhere_congr h]
  | onDemand c => simp only [clearWhere, OnDemand.clearWhere_congr h]

/-- Clearing counts the visitors for whom a mute is held that is to be cleared. -/
theorem clearWhere_count (c : Cache) (now : Moment) (match? : Punishment → Bool) :
    (c.clearWhere now match?).1 = {key | (c.held key).any fun v => v.any match?}.ncard := by
  cases c with
  | alwaysAvailable c => exact c.clearWhere_count match?
  | onDemand c => exact c.clearWhere_count now.steady match?

/-- A cache that holds mutes alone cannot tell the name of a mute from its number. -/
theorem clear_eq_clearId (hmutes : ∀ key q, c.held key = some (some q) → q.kind = .mute) {ref : PunishmentRef}
    (hkind : ref.kind = .mute) (now : Moment) : c.clear now ref = c.clearId now ref.id := by
  refine clearWhere_congr (fun key q hq => ?_) now
  obtain ⟨id, kind⟩ := ref
  obtain rfl : kind = .mute := hkind
  simp [Punishment.ref, hmutes key q hq]

end Cache

end Moderation.Mute
