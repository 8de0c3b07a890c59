import Moderation.Mute.Roster
import Moderation.Node.CachedSite
import Moderation.Node.Command
import Moderation.Node.Config
import Moderation.Node.Lifecycle
import Moderation.Node.Platform
import Moderation.Store
/-!
# Nodes

A node has a service, a mute cache in front of its platform, and the players who are connected to it.
The store, the medium and the clocks are around it, and it shares them with other nodes.
-/

namespace Moderation

structure Node (Link : Type) where
  config : Node.Config
  service : Sync.Service Link
  state : Cached Node.Platform
  roster : Mute.Roster := {}
  lifecycle : Node.Lifecycle := {}

namespace Node

structure Surroundings where
  now : Moment
  store : Store

namespace Surroundings

def site (w : Surroundings) : Site (Cached Platform) :=
  Site.withCache w.now { fetch := w.store.selector, enforce := Platform.enforce }

def mute (w : Surroundings) (key : Visitor) : Option Punishment :=
  w.store.applicableMute w.now.second key

end Surroundings

variable {M Link : Type}

def ofConfig (config : Config) (self : Uuid) (link : Link) (platform : Platform) : Node Link where
  config := config
  service := { self, link }
  state := { cache := .ofConfig config.muteCache, site := platform }

def cache (n : Node Link) : Mute.Cache := n.state.cache

def platform (n : Node Link) : Platform := n.state.site

def setCache (n : Node Link) (cache : Mute.Cache) : Node Link := { n with state.cache := cache }

def act (w : Surroundings) (call : LocalCall) (n : Node Link) :
    Except EnforcementError Unit × Node Link :=
  let (outcome, state) := w.site.enforce call n.state
  (outcome, { n with state })

def give [Medium M Link] (w : Surroundings) (call : LocalCall) (n : Node Link) (m : M) :
    Except CommandError Sync.Outcome × Node Link × M :=
  let (outcome, service, m, state) := command w.now.wall w.site call n.service m n.state
  (outcome, { n with service, state }, m)

/-- Collects messages and carries them out; gives the number dealt with. -/
def poll [Medium M Link] (w : Surroundings) (m : M) (n : Node Link) : Nat × Node Link :=
  let (handled, service, state) := n.service.poll w.now.wall w.site m n.state
  (handled, { n with service, state })

def consult (w : Surroundings) (key : Visitor) (n : Node Link) : Option Punishment × Node Link :=
  (n.cache.consult w.now w.mute key).map id n.setCache

/-- A visitor comes in. Gives the mute that the cache makes the visitor wait for, if it does. -/
def welcome (w : Surroundings) (key : Visitor) (n : Node Link) :
    Option (Option Punishment) × Node Link :=
  (n.cache.welcome w.now w.mute key).map id n.setCache

def sweep (w : Surroundings) (n : Node Link) : Nat × Node Link :=
  (n.cache.sweep w.now n.roster.isOnline).map id n.setCache

def tend [Medium M Link] (w : Surroundings) (m : M) (chore : Chore) (n : Node Link) : Node Link :=
  match chore with
  | .poll => (n.poll w m).2
  | .sweep => (n.sweep w).2

def start (now : Nat) (n : Node Link) : Node Link :=
  { n with
    lifecycle := n.lifecycle.start now n.config.sync.pollInterval.toNat
      n.config.muteCache.purgeInterval.toNat }

def shutdown (n : Node Link) : Node Link := { n with lifecycle := n.lifecycle.shutdown }

def passed (upTo : Nat) (n : Node Link) : Node Link :=
  { n with lifecycle := n.lifecycle.passed upTo }

end Node

end Moderation
