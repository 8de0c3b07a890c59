import Moderation.Mute.Cache
import Moderation.Sync.Site
/-!
# Sites with a mute cache

A cache in front of a site follows every call that is carried out there, whether it was made at this
node or came from another one. The cache is changed first, so a site that fails leaves it changed;
only when changed details cannot be looked up does nothing happen at all.
-/

namespace Moderation

/-- A mute cache and the state of the site behind it. -/
structure Cached (σ : Type) where
  cache : Mute.Cache
  site : σ

/-- Runs an operation of the site behind the cache. -/
def Cached.behind {σ α : Type} (f : σ → α × σ) (s : Cached σ) : α × Cached σ :=
  let (a, site) := f s.site
  (a, { s with site })

namespace Mute.Cache

/-- Takes over what a call says about a mute. -/
def follow (now : Moment) (call : LocalCall) (c : Cache) : Cache :=
  match call with
  | .enforce p _ => if p.kind = .mute then c.record now p else c
  | .unenforce p _ => if p.kind = .mute then (c.clear now p.ref).2 else c
  | .unenforceById ref _ => if ref.kind = .mute then (c.clearId now ref.id).2 else c
  | .clearExpunged id => (c.clearId now id).2
  | .refreshDetails _ => c

/-- Puts a mute in the place of what has that number, if anything has. -/
def replace (now : Moment) (id : PunishmentId) (p : Punishment) (c : Cache) : Cache :=
  match c.clearId now id with
  | (0, c) => c
  | (_ + 1, c) => c.record now p

end Mute.Cache

namespace Site

variable {σ : Type}

/-- Takes over changed details: a mute that the cache holds is replaced by the one on record. -/
def refresh (now : Moment) (site : Site σ) (id : PunishmentId) (s : Cached σ) :
    Except EnforcementError Unit × Cached σ :=
  match s.behind (site.fetch ⟨id, .mute⟩) with
  | (.error e, s) => (.error (.store e), s)
  | (.ok none, s) => s.behind (site.enforce (.refreshDetails id))
  | (.ok (some p), s) =>
    { s with cache := s.cache.replace now id p }.behind (site.enforce (.refreshDetails id))

def enforceCached (now : Moment) (site : Site σ) (call : LocalCall) (s : Cached σ) :
    Except EnforcementError Unit × Cached σ :=
  match call with
  | .refreshDetails id => site.refresh now id s
  | call => { s with cache := s.cache.follow now call }.behind (site.enforce call)

def withCache (now : Moment) (site : Site σ) : Site (Cached σ) where
  fetch ref := Cached.behind (site.fetch ref)
  enforce := site.enforceCached now

end Site

end Moderation
