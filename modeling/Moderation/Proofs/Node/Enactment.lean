import Moderation.Proofs.Node.CachedSite
import Moderation.Proofs.Store.Standing
/-!
# Enacting punishments and asking again

A cache holds for a visitor what the store named at some second. Punishments are put on record and imposed at the
node, and the cache keeps the latest of the mutes that cover the visitor. `consult_enactAll` says that from that
second on a look-up answers as the store would if it were asked again: with a mute that ends at the same second,
or with none where the store names none.
-/

namespace Moderation

open Mute Punishment

/-- Whatever is imposed, a cache holds it if it is a mute of the visitor that ends later than what was held. -/
theorem Mute.Cache.held_follow_enforce (c : Cache) (now : Moment) (p : Punishment) (o : Options) {key : Visitor}
    (hquiet : ¬c.Refreshing key) : (c.follow now (.enforce p o)).held key =
      (c.held key).map fun v => if p.Mutes key then some (later v p) else v := by
  simp only [follow]
  split
  · next hkind =>
    rw [held_record]
    by_cases hcovers : p.victim.Covers key
    · simp [hkind, hcovers, hquiet, Punishment.Mutes]
    · simp [hcovers, Punishment.Mutes]
  · next hkind => simp [hkind, Punishment.Mutes]

theorem Mute.Cache.refreshing_follow_enforce (c : Cache) (now : Moment) (p : Punishment) (o : Options)
    (key : Visitor) : (c.follow now (.enforce p o)).Refreshing key ↔ c.Refreshing key := by
  simp only [follow]
  split
  · exact c.refreshing_record now p key
  · exact Iff.rfl

namespace Node

variable {Link : Type}

/-- A punishment that is put on record and then imposed at a node: when, and with which options. -/
structure Enactment where
  now : Moment
  punishment : Punishment
  options : Options

/-- Puts punishments on record and imposes them at the node, one after the other. -/
def enactAll : List Enactment → Store → Node Link → Store × Node Link
  | [], store, n => (store, n)
  | e :: rest, store, n =>
    let store := store.insert e.punishment
    enactAll rest store (n.act ⟨e.now, store⟩ (.enforce e.punishment e.options)).2

/-- From the second `t₀` on, what the node holds for a visitor stands for the mutes on record, and no refresh is
under way. -/
structure Agrees (t₀ : Seconds) (key : Visitor) (store : Store) (n : Node Link) : Prop where
  quiet : ¬n.cache.Refreshing key
  held : ∃ v, n.cache.held key = some v ∧ store.StandsFor t₀ key v

variable {t₀ : Seconds} {key : Visitor} {store : Store} {n : Node Link}

theorem Agrees.enact (h : Agrees t₀ key store n) (e : Enactment) (hnew : store.get? e.punishment.id = none) :
    Agrees t₀ key (store.insert e.punishment)
      (n.act ⟨e.now, store.insert e.punishment⟩ (.enforce e.punishment e.options)).2 := by
  have hcall : ∀ id, LocalCall.enforce e.punishment e.options ≠ .refreshDetails id := by simp
  have hcache : (n.act ⟨e.now, store.insert e.punishment⟩ (.enforce e.punishment e.options)).2.cache =
      n.cache.follow e.now (.enforce e.punishment e.options) := Surroundings.cache_enforce _ hcall n.state
  obtain ⟨v, hv, hstands⟩ := h.held
  constructor
  · rw [hcache, Cache.refreshing_follow_enforce]
    exact h.quiet
  · refine ⟨_, ?_, hstands.insert hnew⟩
    rw [hcache, Cache.held_follow_enforce n.cache e.now e.punishment e.options h.quiet, hv, Option.map_some]

theorem Agrees.enactAll (es : List Enactment) {store : Store} {n : Node Link} (h : Agrees t₀ key store n)
    (hnew : ∀ e ∈ es, store.get? e.punishment.id = none)
    (hdistinct : (es.map fun e => e.punishment.id).Nodup) :
    Agrees t₀ key (enactAll es store n).1 (enactAll es store n).2 := by
  induction es generalizing store n with
  | nil => exact h
  | cons e rest ih =>
    obtain ⟨hfirst, hdistinct⟩ := List.nodup_cons.1 hdistinct
    refine ih (h.enact e (hnew e List.mem_cons_self)) (fun e' he' => ?_) hdistinct
    -- The number of a later one is not the one just taken.
    rw [Store.get?_insert, if_neg, hnew e' (List.mem_cons_of_mem _ he')]
    intro hid
    exact hfirst (List.mem_map.2 ⟨e', he', hid⟩)

theorem Agrees.consult {w : Surroundings} (h : Agrees t₀ key w.store n) (ht : t₀ ≤ w.now.second) :
    Alike (n.consult w key).1 (w.mute key) := by
  obtain ⟨v, hv, hstands⟩ := h.held
  have hlive : ∀ p ∈ w.mute key, ¬p.ExpiredAt w.now.second := fun p hp =>
    (Store.applicableMute_eq_some hp).2.1.2.1
  change Alike (n.cache.consult w.now w.mute key).1 (w.mute key)
  rcases Cache.consult_of_held hv hlive with hanswer | hanswer <;> rw [hanswer]
  · exact hstands.alike ht
  · exact w.store.alike_applicableMute w.now.second key

/-- A node holds for a visitor what its store names at the second `t₀`. Punishments with new and distinct numbers
are put on record and imposed there. From `t₀` on a look-up answers as the store does: both name no mute, or both
name mutes that end at the same second. -/
theorem consult_enactAll (n : Node Link) (store : Store) (key : Visitor) (t₀ : Seconds) (es : List Enactment)
    (hheld : n.cache.held key = some (store.applicableMute t₀ key)) (hquiet : ¬n.cache.Refreshing key)
    (hnew : ∀ e ∈ es, store.get? e.punishment.id = none)
    (hdistinct : (es.map fun e => e.punishment.id).Nodup) (now : Moment) (ht : t₀ ≤ now.second) :
    let (store', n') := enactAll es store n
    Alike (n'.consult ⟨now, store'⟩ key).1 (store'.applicableMute now.second key) := by
  have hstart : Agrees t₀ key store n := ⟨hquiet, _, hheld, store.standsFor_applicableMute t₀ key⟩
  have hend := hstart.enactAll es hnew hdistinct
  exact Agrees.consult (w := ⟨now, (enactAll es store n).1⟩) hend ht

/-- Of three that are imposed, a ban does not count and a mute ends before the others; the look-up is in the second
in which the mute that was held is over. -/
theorem consult_after_three :
    let key : Visitor := default
    let p : Punishment := ⟨1, .mute, .player key.user, .console, "spam", .global, 0, 7⟩
    let store : Store := ({} : Store).insert p
    let n := ((ofConfig { muteCache := { variant := .onDemand } } default ({} : Cursor) .silent).consult
      ⟨⟨0, 1000⟩, store⟩ key).2
    let es : List Enactment := [⟨⟨10, 2000⟩, { p with id := 2, kind := .ban, ends := 0 }, .global⟩,
      ⟨⟨20, 3000⟩, { p with id := 3, victim := .address key.address, ends := 9 }, .global⟩,
      ⟨⟨30, 4000⟩, { p with id := 4, ends := 8 }, .global⟩]
    n.cache.held key = some (store.applicableMute 1 key) ∧ ¬n.cache.Refreshing key ∧
      (∀ e ∈ es, store.get? e.punishment.id = none) ∧ (es.map fun e => e.punishment.id).Nodup ∧
      Alike ((enactAll es store n).2.consult ⟨⟨40, 7000⟩, (enactAll es store n).1⟩ key).1
        ((enactAll es store n).1.applicableMute 7 key) := by
  intro key p store n es
  have hheld : n.cache.held key = some (store.applicableMute 1 key) := by decide
  have hquiet : ¬n.cache.Refreshing key := by decide
  have hnew : ∀ e ∈ es, store.get? e.punishment.id = none := by decide
  have hdistinct : (es.map fun e => e.punishment.id).Nodup := by decide
  exact ⟨hheld, hquiet, hnew, hdistinct,
    consult_enactAll n store key 1 es hheld hquiet hnew hdistinct ⟨40, 7000⟩ (by decide)⟩

end Node

end Moderation
