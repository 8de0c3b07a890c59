import Moderation.Node.Basic
/-!
# Clusters

Nodes that share a store, a medium and a wall clock. Their loops run on a time of their own, and their
steady clocks stand still.
-/

namespace Moderation

structure Cluster (M Link : Type) where
  medium : M
  now : Moment
  /-- The time of the loops. -/
  elapsed : Nat := 0
  store : Store := {}
  nodes : Array (Node Link) := #[]

namespace Cluster

variable {M Link α : Type}

def surroundings (c : Cluster M Link) : Node.Surroundings where
  now := c.now
  store := c.store

def modifyNode (c : Cluster M Link) (i : Nat) (f : Node Link → Node Link) : Cluster M Link :=
  { c with nodes := c.nodes.modify i f }

def at? (c : Cluster M Link) (i : Nat) (f : Node.Surroundings → Node Link → α × Node Link) :
    Option (α × Cluster M Link) :=
  c.nodes[i]?.map fun n =>
    let (a, n) := f c.surroundings n
    (a, c.modifyNode i fun _ => n)

variable [Medium M Link]

/-- Adds a node, connected to the medium whatever its configuration says. -/
def join (c : Cluster M Link) (config : Node.Config) (self : Uuid) (platform : Node.Platform) :
    Cluster M Link :=
  let (link, medium) := Medium.connect c.medium
  { c with medium, nodes := c.nodes.push (Node.ofConfig config self link platform) }

def give (c : Cluster M Link) (i : Nat) (call : LocalCall) :
    Option (Except Node.CommandError Sync.Outcome × Cluster M Link) :=
  c.nodes[i]?.map fun n =>
    let (outcome, n, medium) := n.give c.surroundings call c.medium
    (outcome, { c with medium }.modifyNode i fun _ => n)

def poll (c : Cluster M Link) (i : Nat) : Option (Nat × Cluster M Link) :=
  c.at? i fun w n => n.poll w c.medium

/-! ## Loops -/

def tend (c : Cluster M Link) (chore : Nat × Node.Chore) : Cluster M Link :=
  c.modifyNode chore.1 fun n => n.tend c.surroundings c.medium chore.2

def loops (c : Cluster M Link) : List ((Nat × Node.Chore) × Ticker) :=
  c.nodes.toList.zipIdx.flatMap fun n => n.1.lifecycle.chores.map fun l => ((n.2, l.1), l.2)

def sleep (c : Cluster M Link) (ms : Nat) : Cluster M Link :=
  let upTo := c.elapsed + ms
  let due := Schedule.firings c.loops upTo
  due.foldl tend { c with elapsed := upTo, nodes := c.nodes.map (Node.passed upTo) }

/-- Starts a node's loops, with all that they do at once. -/
def start (c : Cluster M Link) (i : Nat) : Cluster M Link :=
  (c.modifyNode i fun n => n.start c.elapsed).sleep 0

def shutdown (c : Cluster M Link) (i : Nat) : Cluster M Link :=
  c.modifyNode i Node.shutdown

end Cluster

end Moderation
