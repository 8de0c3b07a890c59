import Moderation.Proofs.Node.CachedSite
/-!
# Changed details of a mute

When the details of a mute have changed, a site forgets the mute wherever its cache holds it and then records
what is on record now. A visitor for whom the mute was held is answered with the changed one, unless a refresh
is under way: then the mute is forgotten and nothing is recorded, so until the refresh is there the visitor
counts as not muted at all. Both are said by `get_refreshDetails`.
-/

namespace Moderation

namespace Mute.Cache

variable {c : Cache} {now : Moment} {key : Visitor}

/-- What is served for a visitor whose mute is replaced by another mute of the visitor. -/
theorem Serves.replace {p q : Punishment} (h : c.Serves now key (some q)) (hmute : p.kind = .mute)
    (hcovers : p.victim.Covers key) :
    (c.replace now q.id p).Serves now key (if c.Refreshing key then none else some p) := by
  have hcleared : (c.clearId now q.id).2.Serves now key none := by
    simpa [Option.filter_some, clearId] using h.clearWhere fun r => decide (r.id = q.id)
  have hrecorded := hcleared.record p
  rw [replace_of_held h.held]
  have hrefreshing : (c.clearId now q.id).2.Refreshing key ↔ c.Refreshing key :=
    c.refreshing_clearWhere now _ key
  by_cases href : c.Refreshing key
  · simpa [hmute, hcovers, hrefreshing, href] using hrecorded
  · simpa [hmute, hcovers, hrefreshing, href, Punishment.later] using hrecorded

end Mute.Cache

namespace Site

variable {σ : Type}

/-- A cache answers a visitor with the mute `q`, and on record under its number is now the mute `p`, which
covers the visitor too. Once the site has taken its details over, the visitor is answered with `p`, but as not
muted if a refresh is under way. -/
theorem get_refreshDetails (site : Site σ) (now : Moment) (s : Cached σ) (key : Visitor) (p q : Punishment)
    (hserves : s.cache.Serves now key (some q))
    (hfetch : (site.fetch ⟨q.id, .mute⟩ s.site).1 = .ok (some p)) (hmute : p.kind = .mute)
    (hlive : ¬p.ExpiredAt now.second) (hcovers : p.victim.Covers key) :
    (((site.withCache now).enforce (.refreshDetails q.id) s).2.cache.get now key).1 =
      .value (if s.cache.Refreshing key then none else some p) := by
  rw [cache_refreshDetails hfetch]
  have hanswer := hserves.replace hmute hcovers
  refine hanswer.get fun r hr => ?_
  split at hr
  · cases hr
  · obtain rfl := Option.some.inj hr
    exact hlive

end Site

namespace Node

/-- No refresh is under way: the visitor is answered with the mute on record, which ends earlier. -/
theorem edit_answered :
    let key : Visitor := default
    let q : Punishment := ⟨1, .mute, .player key.user, .console, "spam", .global, 0, 0⟩
    let p : Punishment := { q with reason := "flood", ends := 9 }
    let before : Surroundings := ⟨⟨0, 1000⟩, ({} : Store).insert q⟩
    let after : Surroundings := ⟨⟨10, 2000⟩, before.store.insert p⟩
    let n := ((ofConfig {} default ({} : Cursor) .silent).welcome before key).2
    n.cache.Serves after.now key (some q) ∧
      ((n.act after (.refreshDetails q.id)).2.cache.get after.now key).1 = .value (some p) := by
  intro key q p before after n
  have hserves : n.cache.Serves after.now key (some q) := by decide
  exact ⟨hserves, Site.get_refreshDetails { fetch := after.store.selector, enforce := Platform.enforce }
    after.now n.state key p q hserves (by decide) (by decide) (by decide) (by decide)⟩

/-- A refresh is under way when the details are taken over: the visitor, who was denied before and is muted by
the mute on record too, counts as not muted. -/
theorem edit_lifts_mute :
    let key : Visitor := default
    let q : Punishment := ⟨1, .mute, .player key.user, .console, "spam", .global, 0, 0⟩
    let p : Punishment := { q with reason := "flood" }
    let before : Surroundings := ⟨⟨0, 1000⟩, ({} : Store).insert q⟩
    let after : Surroundings := ⟨⟨60001, 61000⟩, before.store.insert p⟩
    let n := ((ofConfig {} default ({} : Cursor) .silent).welcome before key).2
    -- A look-up after more than the time for which an answer is fresh begins a refresh.
    let n := n.setCache (n.cache.get after.now key).2
    n.cache.Serves after.now key (some q) ∧ after.store.fetch ⟨q.id, .mute⟩ = some p ∧
      p.victim.Covers key ∧ ¬p.ExpiredAt after.now.second ∧ (n.act after (.refreshDetails q.id)).1 = .ok () ∧
      ((n.act after (.refreshDetails q.id)).2.cache.get after.now key).1 = .value none := by
  intro key q p before after n₀ n
  exact ⟨by decide, by decide, by decide, by decide, by decide, by decide⟩

end Node

end Moderation
