import Moderation.Node.Basic
import Moderation.Proofs.Mute.Recording
import Moderation.Proofs.Sync.Leads
/-!
# What becomes of a cache in front of a site

Whatever a node does on command or about messages, it only edits its cache: it records mutes and clears mutes
(`Site.leads_withCache`). So what every edit keeps is kept by commands and by polls.
-/

namespace Moderation

namespace Mute.Cache

variable {c : Cache} {now : Moment} {key : Visitor}

theorem edited_follow (now : Moment) (call : LocalCall) (c : Cache) : c.Edited (c.follow now call) := by
  cases call with
  | refreshDetails id => exact .refl
  | clearExpunged id => exact .single (.clearWhere now _ c)
  | enforce p o | unenforce p o | unenforceById ref o =>
    simp only [follow]
    split
    · exact .single (by constructor)
    · exact .refl

theorem edited_replace (now : Moment) (id : PunishmentId) (p : Punishment) (c : Cache) :
    c.Edited (c.replace now id p) := by
  have hcleared : c.Edited (c.clearId now id).2 := .single (.clearWhere now _ c)
  unfold replace
  rcases hclear : c.clearId now id with ⟨_ | n, c'⟩ <;> rw [hclear] at hcleared
  · exact hcleared
  · exact hcleared.tail (.record now p c')

/-- A mute that is held is replaced by clearing it and recording the new one. -/
theorem replace_of_held {q : Punishment} (h : c.held key = some (some q)) (now : Moment) (p : Punishment) :
    c.replace now q.id p = (c.clearId now q.id).2.record now p := by
  have hpos : 0 < (c.clearId now q.id).1 := clearWhere_pos h (by simp) now
  unfold replace
  rcases hclear : c.clearId now q.id with ⟨_ | n, c'⟩
  · rw [hclear] at hpos
    exact absurd hpos (Nat.lt_irrefl 0)
  · rfl

end Mute.Cache

namespace Site

variable {σ : Type} {site : Site σ} {now : Moment} {s : Cached σ}

/-- Whatever comes of a call behind the cache, the cache has followed it. -/
theorem cache_enforce (site : Site σ) (now : Moment) {call : LocalCall} (h : ∀ id, call ≠ .refreshDetails id)
    (s : Cached σ) : ((site.withCache now).enforce call s).2.cache = s.cache.follow now call := by
  cases call with
  | refreshDetails id => exact absurd rfl (h id)
  | enforce | unenforce | unenforceById | clearExpunged => rfl

/-- The cache of a site that takes over the details of a punishment on record. -/
theorem cache_refreshDetails {id : PunishmentId} {p : Punishment}
    (hfetch : (site.fetch ⟨id, .mute⟩ s.site).1 = .ok (some p)) :
    ((site.withCache now).enforce (.refreshDetails id) s).2.cache = s.cache.replace now id p := by
  simp only [withCache, enforceCached, refresh, Cached.behind, hfetch]

/-- A site with a cache only records mutes in it and clears mutes. -/
theorem leads_withCache (site : Site σ) (now : Moment) :
    (site.withCache now).Leads fun s s' => s.cache.Edited s'.cache where
  refl _ := .refl
  trans h h' := h.trans h'
  fetch _ _ := .refl
  enforce call s := by
    cases call with
    | refreshDetails id =>
      rcases hfetch : (site.fetch ⟨id, .mute⟩ s.site).1 with _ | _ | p
      · simpa only [withCache, enforceCached, refresh, Cached.behind, hfetch] using .refl
      · simpa only [withCache, enforceCached, refresh, Cached.behind, hfetch] using .refl
      · rw [cache_refreshDetails hfetch]
        exact Mute.Cache.edited_replace now id p s.cache
    | enforce | unenforce | unenforceById | clearExpunged =>
      rw [cache_enforce site now (by simp) s]
      exact Mute.Cache.edited_follow now _ s.cache

end Site

namespace Node

theorem Surroundings.cache_enforce (w : Surroundings) {call : LocalCall} (h : ∀ id, call ≠ .refreshDetails id)
    (s : Cached Platform) : (w.site.enforce call s).2.cache = s.cache.follow w.now call :=
  Site.cache_enforce { fetch := w.store.selector, enforce := Platform.enforce } w.now h s

variable {M Link : Type} [Medium M Link]

theorem edited_give (w : Surroundings) (call : LocalCall) (n : Node Link) (m : M) :
    n.cache.Edited (n.give w call m).2.1.cache :=
  (Site.leads_withCache _ w.now).command w.now.wall call n.service m n.state

theorem edited_poll (w : Surroundings) (m : M) (n : Node Link) : n.cache.Edited (n.poll w m).2.cache :=
  (Site.leads_withCache _ w.now).poll w.now.wall n.service m n.state

end Node

end Moderation
