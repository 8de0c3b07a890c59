import Moderation.Store
/-!
# The mute that applies

For a visitor the store names one mute of all that hold for it. `applicableMute_eq_some` says which:
one that no other outlasts. So it is not over as long as any of the others is not, which is what
`not_expired_of_applicable` says.
-/

namespace Moderation

namespace Punishment

variable {p q r : Punishment}

/-- The punishment is a mute of the visitor. -/
def Mutes (p : Punishment) (key : Visitor) : Prop := p.kind = .mute ∧ p.victim.Covers key

instance (p : Punishment) (key : Visitor) : Decidable (p.Mutes key) := inferInstanceAs (Decidable (_ ∧ _))

/-! ## Which one ends later -/

theorem Outlasts.irrefl (p : Punishment) : ¬p.Outlasts p := by
  unfold Outlasts
  grind

/-- A punishment that ends no later than another one does not outlast what that one does not. -/
theorem not_outlasts_trans (hqp : ¬q.Outlasts p) (hrq : ¬r.Outlasts q) : ¬r.Outlasts p := by
  unfold Outlasts at *
  grind

/-- While `q` is not over, nothing that it does not outlast is over. -/
theorem not_expired_of_not_outlasts {t : Seconds} (h : ¬q.Outlasts p) (hq : ¬q.ExpiredAt t) :
    ¬p.ExpiredAt t := by
  unfold Outlasts ExpiredAt at *
  grind

theorem later_spec (held : Option Punishment) (new : Punishment) :
    (later held new = new ∨ held = some (later held new)) ∧ ¬new.Outlasts (later held new) ∧
      ∀ p ∈ held, ¬p.Outlasts (later held new) := by
  cases held with
  | none => exact ⟨.inl rfl, Outlasts.irrefl new, by simp⟩
  | some p =>
    simp only [later, Option.mem_def, Option.some.injEq, forall_eq']
    split
    · next h => exact ⟨.inl rfl, Outlasts.irrefl new, by unfold Outlasts at *; grind⟩
    · next h => exact ⟨.inr rfl, h, Outlasts.irrefl p⟩

theorem mutes_later {held : Option Punishment} {new : Punishment} {key : Visitor}
    (hheld : ∀ p ∈ held, p.Mutes key) (hnew : new.Mutes key) : (later held new).Mutes key := by
  rcases (later_spec held new).1 with h | h
  · rwa [h]
  · exact hheld _ h

/-! ## The latest of several -/

theorem foldl_later_spec (ps : List Punishment) (held : Option Punishment) {r : Punishment}
    (h : ps.foldl (fun held p => some (later held p)) held = some r) :
    (r ∈ ps ∨ held = some r) ∧ (∀ p ∈ ps, ¬p.Outlasts r) ∧ ∀ p ∈ held, ¬p.Outlasts r := by
  induction ps generalizing held with
  | nil =>
    obtain rfl : held = some r := h
    exact ⟨.inr rfl, by simp, by simpa using Outlasts.irrefl r⟩
  | cons p ps ih =>
    obtain ⟨hr, hps, hheld⟩ := ih _ h
    -- Neither what was held nor `p` outlasts the one of them that is kept, and that one does not outlast `r`.
    have hlast : ¬(later held p).Outlasts r := hheld _ rfl
    obtain ⟨hone, hnew, hold⟩ := later_spec held p
    refine ⟨?_, ?_, fun q hq => not_outlasts_trans hlast (hold q hq)⟩
    · rcases hr with hr | hr
      · exact .inl (List.mem_cons_of_mem _ hr)
      · obtain rfl := Option.some.inj hr
        rcases hone with hone | hone
        · exact .inl (by rw [hone]; exact List.mem_cons_self)
        · exact .inr hone
    · intro q hq
      rcases List.mem_cons.1 hq with rfl | hq
      · exact not_outlasts_trans hlast hnew
      · exact hps q hq

/-- The latest of several punishments is one of them, and none of the others outlasts it. -/
theorem mem_of_latest {ps : List Punishment} (h : latest ps = some r) :
    r ∈ ps ∧ ∀ p ∈ ps, ¬p.Outlasts r := by
  obtain ⟨hr, hps, -⟩ := foldl_later_spec ps none h
  exact ⟨hr.resolve_right (by simp), hps⟩

theorem latest_isSome {ps : List Punishment} : (latest ps).isSome ↔ ps ≠ [] := by
  have hfold (ps : List Punishment) (held : Option Punishment) (h : held.isSome) :
      (ps.foldl (fun held p => some (later held p)) held).isSome := by
    induction ps generalizing held with
    | nil => exact h
    | cons p ps ih => exact ih _ rfl
  cases ps with
  | nil => simp [latest]
  | cons p ps => simpa [latest] using hfold ps (some (later none p)) rfl

end Punishment

namespace Store

variable {s : Store} {now : Seconds} {key : Visitor} {p q : Punishment}

/-! ## The mute that the store names -/

theorem mem_values : p ∈ s.punishments.values ↔ s.get? p.id = some p := by
  rw [get?, Table.get?_eq_some_iff, Table.values, List.mem_map]
  constructor
  · rintro ⟨⟨id, p⟩, hp, rfl⟩
    have hid := s.numbered id p (Table.get?_eq_some_iff.2 hp)
    exact hid ▸ hp
  · exact fun h => ⟨_, h, rfl⟩

/-- The mute is on record and holds for the visitor, and no other that does outlasts it. -/
theorem applicableMute_eq_some (h : s.applicableMute now key = some p) :
    s.get? p.id = some p ∧ Applies now key p ∧
      ∀ q, s.get? q.id = some q → Applies now key q → ¬q.Outlasts p := by
  obtain ⟨hp, hlast⟩ := Punishment.mem_of_latest h
  simp only [List.mem_filter, mem_values, decide_eq_true_eq] at hp hlast
  exact ⟨hp.1, hp.2, fun q hq happ => hlast q ⟨hq, happ⟩⟩

/-- What the store names for a visitor is a mute of the visitor. -/
theorem mutes_applicableMute (s : Store) (now : Seconds) (key : Visitor) :
    ∀ p ∈ s.applicableMute now key, p.Mutes key := by
  intro p hp
  obtain ⟨-, ⟨hkind, -, hcovers⟩, -⟩ := applicableMute_eq_some hp
  exact ⟨hkind, hcovers⟩

/-- A visitor for whom a mute on record holds is given one. -/
theorem applicableMute_isSome (hq : s.get? q.id = some q) (happ : Applies now key q) :
    (s.applicableMute now key).isSome := by
  refine Punishment.latest_isSome.2 (List.ne_nil_of_mem (a := q) ?_)
  simp only [List.mem_filter, mem_values, decide_eq_true_eq]
  exact ⟨hq, happ⟩

/-- The mute that the store names is not over while another one that held then is not. -/
theorem not_expired_of_applicable (h : s.applicableMute now key = some p) (hq : s.get? q.id = some q)
    (happ : Applies now key q) {later : Seconds} (hlater : ¬q.ExpiredAt later) : ¬p.ExpiredAt later :=
  Punishment.not_expired_of_not_outlasts ((applicableMute_eq_some h).2.2 q hq happ) hlater

theorem get?_erase (s : Store) (id id' : PunishmentId) :
    (s.erase id).get? id' = if id' = id then none else s.get? id' :=
  Table.get?_erase _ _ _

end Store

end Moderation
