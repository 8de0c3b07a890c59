import Mathlib.Logic.Relation
import Moderation.Node.Cluster
import Moderation.Proofs.Sync.Fleet
/-!
# Clusters as fleets

The nodes of a cluster are a fleet of which nobody remembers what it did: for every way in which a cluster
moves, a fleet takes steps and ends with the same medium, services, caches and platforms
(`exists_run_of_reached`). So the messages in a cluster's medium are those that its nodes count.
-/

namespace Moderation

open Sync Medium.Log

variable {M Link : Type}

/-- What fleets know of a node. -/
def Node.core (n : Node Link) : Service Link × Cached Node.Platform := (n.service, n.state)

namespace Cluster

variable [Medium M Link]

/-- What can happen in a cluster. -/
inductive Moves : Cluster M Link → Cluster M Link → Prop
  | join (c) (config : Node.Config) (self : Uuid) (platform : Node.Platform) :
      Moves c (c.join config self platform)
  | give {c c' i call outcome} : c.give i call = some (outcome, c') → Moves c c'
  | poll {c c' i handled} : c.poll i = some (handled, c') → Moves c c'
  /-- A node does something by itself, such as to look into its cache. -/
  | alone {c i n n'} : c.nodes[i]? = some n → n'.service = n.service → Moves c (c.modifyNode i fun _ => n')
  /-- Something happens around the nodes: clocks, the store, those who are connected. -/
  | around {c c'} : c'.medium = c.medium → c'.nodes.toList.map Node.core = c.nodes.toList.map Node.core →
      Moves c c'

end Cluster

namespace Sync.Fleet

/-- The fleet is made of the cluster's nodes. -/
structure Mirrors (g : Fleet M Link (Cached Node.Platform)) (c : Cluster M Link) : Prop where
  medium : g.medium = c.medium
  members : (g.members.map fun p => (p.service, p.state)) = c.nodes.toList.map Node.core

variable {g : Fleet M Link (Cached Node.Platform)} {c : Cluster M Link}

/-- What a node does, the member in its place does. -/
theorem Mirrors.act (h : g.Mirrors c) {i : Nat} {n n' : Node Link} (hn : c.nodes[i]? = some n) {m' : M}
    {f : M → Member Link (Cached Node.Platform) → Member Link (Cached Node.Platform) × M}
    (hf : ∀ p : Member Link (Cached Node.Platform), (p.service, p.state) = n.core →
      ((f c.medium p).1.service, (f c.medium p).1.state) = n'.core ∧ (f c.medium p).2 = m') :
    (g.act i f).Mirrors ({ c with medium := m' }.modifyNode i fun _ => n') := by
  have hmember := congrArg (·[i]?) h.members
  simp only [List.getElem?_map, Array.getElem?_toList, hn, Option.map_some, Option.map_eq_some_iff] at hmember
  obtain ⟨p, hp, hcore⟩ := hmember
  obtain ⟨hcore', hmedium⟩ := hf p hcore
  simp only [Fleet.act, hp, h.medium]
  constructor
  · exact hmedium
  · simp only [Cluster.modifyNode, Array.toList_modify, List.map_set, h.members, hcore']
    -- Both lists differ from what they were at `i` alone.
    refine List.ext_getElem? fun j => ?_
    simp only [List.getElem?_set, List.getElem?_map, List.getElem?_modify, List.length_map]
    by_cases hj : i = j
    · subst hj
      have hi := (Array.getElem?_eq_some_iff.1 hn).1
      simp [hi]
    · simp [hj]

variable [Medium M Link] [Medium.Log M Link]

theorem Mirrors.join (h : g.Mirrors c) (config : Node.Config) (self : Uuid) (platform : Node.Platform) :
    (g.step (.join self ⟨.ofConfig config.muteCache, platform⟩)).Mirrors (c.join config self platform) := by
  constructor
  · simp only [step, Cluster.join, h.medium]
  · simp only [step, Cluster.join, h.medium, List.map_append, h.members, Array.toList_push]
    rfl

theorem Mirrors.give (h : g.Mirrors c) {i : Nat} {n : Node Link} (hn : c.nodes[i]? = some n)
    (call : LocalCall) : (g.step (.command i c.now.wall c.surroundings.site call)).Mirrors
      ({ c with medium := (n.give c.surroundings call c.medium).2.2 }.modifyNode i
        fun _ => (n.give c.surroundings call c.medium).2.1) := by
  refine h.act (f := Member.command c.now.wall c.surroundings.site call) hn fun p hp => ?_
  obtain ⟨hservice, hstate⟩ := Prod.mk.inj hp
  simp only [Member.command, Member.told, Node.give, Node.core, Cluster.surroundings, hservice, hstate,
    and_self]

theorem Mirrors.poll (h : g.Mirrors c) {i : Nat} {n : Node Link} (hn : c.nodes[i]? = some n) :
    (g.step (.poll i c.now.wall c.surroundings.site)).Mirrors
      (c.modifyNode i fun _ => (n.poll c.surroundings c.medium).2) := by
  refine h.act (f := fun m p => (p.poll c.now.wall c.surroundings.site m, m)) hn fun p hp => ?_
  obtain ⟨hservice, hstate⟩ := Prod.mk.inj hp
  simp only [Member.poll, Node.poll, Node.core, Cluster.surroundings, hservice, hstate, and_self]

theorem Mirrors.alone (h : g.Mirrors c) {i : Nat} {n n' : Node Link} (hn : c.nodes[i]? = some n)
    (hkept : n'.service = n.service) :
    (g.step (.change i n'.state)).Mirrors (c.modifyNode i fun _ => n') := by
  refine h.act (f := fun m p => ({ p with state := n'.state }, m)) hn fun p hp => ?_
  obtain ⟨hservice, -⟩ := Prod.mk.inj hp
  simp only [Node.core, hservice, hkept, and_self]

theorem exists_run_of_moves (h : g.Mirrors c) {c' : Cluster M Link} (hmoves : c.Moves c') :
    ∃ steps, (g.run steps).Mirrors c' := by
  cases hmoves with
  | join config self platform => exact ⟨[.join self _], h.join config self platform⟩
  | @give _ i call outcome hgive =>
    obtain ⟨n, hn, hafter⟩ := Option.map_eq_some_iff.1 hgive
    obtain rfl := (Prod.mk.inj hafter).2
    exact ⟨[.command i _ _ call], h.give hn call⟩
  | @poll _ i handled hpoll =>
    obtain ⟨n, hn, hafter⟩ := Option.map_eq_some_iff.1 hpoll
    obtain rfl := (Prod.mk.inj hafter).2
    exact ⟨[.poll i _ _], h.poll hn⟩
  | @alone i n n' hn hkept => exact ⟨[.change i _], h.alone hn hkept⟩
  | around hmedium hcore => exact ⟨[], h.medium.trans hmedium.symm, h.members.trans hcore.symm⟩

end Sync.Fleet

namespace Cluster

variable [Medium M Link] [Medium.Log M Link]

/-- Whatever happens in a cluster, a fleet does the same. -/
theorem exists_run_of_reached {c c' : Cluster M Link} (hnodes : c.nodes = #[])
    (h : Relation.ReflTransGen Moves c c') : ∃ steps, ((Fleet.start c.medium).run steps).Mirrors c' := by
  induction h with
  | refl => exact ⟨[], rfl, by simp [Fleet.start, Fleet.run, hnodes]⟩
  | tail _ hmoves ih =>
    obtain ⟨steps, hmirrors⟩ := ih
    obtain ⟨more, hmirrors'⟩ := Fleet.exists_run_of_moves hmirrors hmoves
    exact ⟨steps ++ more, by rwa [Fleet.run, List.foldl_append]⟩

/-- Every message in the medium is counted where it was sent: none comes of a message. -/
theorem length_messages {c c' : Cluster M Link} (hnodes : c.nodes = #[])
    (h : Relation.ReflTransGen Moves c c') : (messages c'.medium).length =
      (messages c.medium).length + (c'.nodes.toList.map fun n => n.service.stats.dispatched).sum := by
  obtain ⟨steps, hmirrors⟩ := exists_run_of_reached hnodes h
  have hcounts := congrArg (List.map fun core => core.1.stats.dispatched) hmirrors.members
  simp only [List.map_map] at hcounts
  have hlength := ((Fleet.Sound.start c.medium).run steps).length_messages
  rw [hmirrors.medium] at hlength
  exact hlength.trans (congrArg (fun counts => _ + counts.sum) hcounts)

end Cluster

end Moderation
