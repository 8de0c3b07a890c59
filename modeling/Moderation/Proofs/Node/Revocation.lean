import Moderation.Node.Basic
import Moderation.Proofs.Mute.Held
import Moderation.Proofs.Store.Applicable
/-!
# Revoking one of several mutes

When a visitor is under several mutes, a cache holds one of them. A revocation makes the cache forget
the revoked mute and does not ask the store for the others, so `denies_after_revocation_iff` has two
cases: a visitor for whom another mute is held is denied as before, and one for whom the revoked mute
was held is let through until the cache asks the store again.
-/

namespace Moderation

/-! ## Revocations -/

/-- The call revokes a punishment. -/
def LocalCall.Revokes (p : Punishment) : LocalCall → Prop
  | .unenforce q _ => q = p
  | .unenforceById ref _ => ref = p.ref
  | .clearExpunged id => id = p.id
  | .enforce _ _ => False
  | .refreshDetails _ => False

instance (p : Punishment) : ∀ call : LocalCall, Decidable (call.Revokes p)
  | .unenforce q _ => inferInstanceAs (Decidable (q = p))
  | .unenforceById ref _ => inferInstanceAs (Decidable (ref = p.ref))
  | .clearExpunged id => inferInstanceAs (Decidable (id = p.id))
  | .enforce _ _ => inferInstanceAs (Decidable False)
  | .refreshDetails _ => inferInstanceAs (Decidable False)

namespace Mute.Cache

/-- A cache that follows a revocation forgets the mute, and of the others only what has its number. -/
theorem follow_of_revokes {p : Punishment} {call : LocalCall} (hcall : call.Revokes p)
    (hmute : p.kind = .mute) (now : Moment) (c : Cache) : ∃ match? : Punishment → Bool,
      c.follow now call = (c.clearWhere now match?).2 ∧ match? p ∧ ∀ q, match? q → q.id = p.id := by
  cases call with
  | unenforce q o =>
    obtain rfl : q = p := hcall
    refine ⟨fun r => r.ref = q.ref, by simp only [follow, hmute, if_true, clear], by simp, fun r hr => ?_⟩
    exact congrArg PunishmentRef.id (of_decide_eq_true hr)
  | unenforceById ref o =>
    obtain rfl : ref = p.ref := hcall
    refine ⟨fun r => r.id = p.id, ?_, by simp, fun r hr => of_decide_eq_true hr⟩
    simp only [follow, Punishment.ref, hmute, if_true, clearId]
  | clearExpunged id =>
    obtain rfl : id = p.id := hcall
    exact ⟨fun r => r.id = p.id, rfl, by simp, fun r hr => of_decide_eq_true hr⟩
  | enforce | refreshDetails => exact hcall.elim

end Mute.Cache

namespace Node

variable {M Link : Type} [Medium M Link] {n : Node Link} {w : Surroundings} {call : LocalCall} {m : M}

/-- Whatever comes of a revocation at the platform and in the medium, the cache has followed it. -/
theorem cache_give_of_revokes {p : Punishment} (hcall : call.Revokes p) (hactive : ¬call.Idle) :
    (n.give w call m).2.1.cache = n.cache.follow w.now call := by
  have henforce : (w.site.enforce call n.state).2.cache = n.cache.follow w.now call := by
    cases call with
    | refreshDetails => exact hcall.elim
    | _ => rfl
  rcases hs : w.site.enforce call n.state with ⟨outcome, s⟩
  rw [hs] at henforce
  cases outcome <;> simpa only [give, command, if_neg hactive, hs, cache] using henforce

/-- A node holds for a visitor the mute that its store names. The mute `p` is taken off record and
revoked there, and another mute `q` holds for the visitor then and when it is looked up. The visitor is
denied, unless the mute held was `p` and what the cache has put in its place has not expired. -/
theorem denies_after_revocation_iff (w₀ w₁ w₂ : Surroundings) (n : Node Link) (m : M) (key : Visitor)
    (p q : Punishment) (call : LocalCall) (hp : w₀.store.get? p.id = some p) (hmute : p.kind = .mute)
    (hheld : n.cache.held key = some (w₀.mute key)) (h₁ : w₁.store = w₀.store.erase p.id)
    (hcall : call.Revokes p) (hactive : ¬call.Idle) (h₂ : w₂.store = w₁.store)
    (hq : w₂.store.get? q.id = some q) (hq₀ : Store.Applies w₀.now.second key q)
    (hq₂ : Store.Applies w₂.now.second key q) :
    ((n.give w₁ call m).2.1.consult w₂ key).1.isSome ↔
      ¬(w₀.mute key = some p ∧ n.cache.Keeps w₁.now w₂.now) := by
  have hqstore : q.id ≠ p.id ∧ w₀.store.get? q.id = some q := by
    rw [h₂, h₁, Store.get?_erase] at hq
    split at hq
    · cases hq
    · exact ⟨‹_›, hq⟩
  obtain ⟨hqp, hq'⟩ := hqstore
  have hsome : (w₂.mute key).isSome := Store.applicableMute_isSome hq hq₂
  have hstore : ∀ r ∈ w₂.mute key, ¬r.ExpiredAt w₂.now.second := fun r hr =>
    (Store.applicableMute_eq_some hr).2.1.2.1
  obtain ⟨match?, hfollow, hmatch, hothers⟩ := Mute.Cache.follow_of_revokes hcall hmute w₁.now n.cache
  have hcache : (n.give w₁ call m).2.1.cache = (n.cache.clearWhere w₁.now match?).2 := by
    rw [cache_give_of_revokes hcall hactive, hfollow]
  have hconsult : ((n.give w₁ call m).2.1.consult w₂ key).1 =
      ((n.cache.clearWhere w₁.now match?).2.consult w₂.now w₂.mute key).1 := by
    rw [← hcache]
    rfl
  rw [hconsult]
  obtain ⟨r, hr⟩ := Option.isSome_iff_exists.1 (Store.applicableMute_isSome hq' hq₀)
  have hr : w₀.mute key = some r := hr
  obtain ⟨hrstore, -, -⟩ := Store.applicableMute_eq_some hr
  by_cases hrp : r = p
  -- The mute held is revoked: what is put in its place is none, and answers for as long as it is kept.
  · subst hrp
    rw [Mute.Cache.consult_clearWhere (hheld.trans (congrArg some hr)) hmatch w₁.now hstore]
    by_cases hkeeps : n.cache.Keeps w₁.now w₂.now
    · simp [hr, hkeeps]
    · simp [hkeeps, hsome]
  -- The mute held is another one: it stays, and it is not over before `q`, since `q` does not outlast it.
  · have hrid : r.id ≠ p.id := fun h => hrp (Option.some.inj (hrstore.symm.trans (h ▸ hp)))
    have hstays : (n.cache.clearWhere w₁.now match?).2.held key = some (some r) := by
      rw [Mute.Cache.held_clearWhere, hheld, hr, Option.map_some, Option.filter_some_pos]
      simpa using fun h => hrid (hothers r h)
    have hlive : ¬r.ExpiredAt w₂.now.second := Store.not_expired_of_applicable hr hq' hq₀ hq₂.2.1
    simp [Mute.Cache.consult_isSome_of_held hstays hlive hstore hsome, hr, hrp]

/-- A cache that asks on demand is looked up when what it put in the place of the mute has expired. -/
theorem denies_when_expired :
    let key : Visitor := default
    let p : Punishment := ⟨1, .mute, .player key.user, .console, "spam", .global, 0, 0⟩
    let q : Punishment := ⟨2, .mute, .address key.address, .console, "flood", .global, 0, 9⟩
    let before : Surroundings := ⟨⟨0, 1000⟩, (({} : Store).insert p).insert q⟩
    let after : Surroundings := ⟨⟨10, 2000⟩, before.store.erase p.id⟩
    let later : Surroundings := ⟨⟨60010, 3000⟩, after.store⟩
    let n := ((ofConfig { muteCache := { variant := .onDemand } } default ({} : Cursor) .silent).consult before
      key).2
    n.cache.held key = some (before.mute key) ∧ before.mute key = some p ∧
      ((n.give after (.clearExpunged p.id) ({} : Mailbox)).2.1.consult later key).1.isSome := by
  intro key p q before after later n
  refine ⟨by decide, by decide, ?_⟩
  exact (denies_after_revocation_iff before after later n ({} : Mailbox) key p q (.clearExpunged p.id)
    (by decide) (by decide) (by decide) rfl (by decide) (by decide) rfl (by decide) (by decide) (by decide)).2
    (by decide)

/-- The cache always has an answer and holds the mute that is revoked: the visitor is let through, though
the store names the other mute. -/
theorem visitor_let_through :
    let key : Visitor := default
    let p : Punishment := ⟨1, .mute, .player key.user, .console, "spam", .global, 0, 0⟩
    let q : Punishment := ⟨2, .mute, .address key.address, .console, "flood", .global, 0, 9⟩
    let before : Surroundings := ⟨⟨0, 1000⟩, (({} : Store).insert p).insert q⟩
    let after : Surroundings := { before with store := before.store.erase p.id }
    let n := ((ofConfig {} default ({} : Cursor) .silent).welcome before key).2
    n.cache.held key = some (before.mute key) ∧
      (n.give after (.unenforce p .global) ({} : Mailbox)).1 = .ok .dispatched ∧ after.mute key = some q ∧
      ((n.give after (.unenforce p .global) ({} : Mailbox)).2.1.consult after key).1 = none := by
  intro key p q before after n
  exact ⟨by decide, by decide +kernel, by decide, by decide +kernel⟩

end Node

end Moderation
