import Moderation.Schedule
/-!
# The life of a node

A started node runs two loops: one polls, first at once, and one sweeps, first after its interval.
A node that was shut down stays so: loops that are started afterwards end at once.
-/

namespace Moderation.Node

inductive Chore where
  | poll
  | sweep
deriving DecidableEq, Repr

structure Loops where
  polling : Ticker
  sweeping : Ticker
deriving DecidableEq

namespace Loops

/-- The loops of a node that is started at `now`. -/
def start (now pollInterval sweepInterval : Nat) : Loops where
  polling := Ticker.start now 0 pollInterval
  sweeping := Ticker.start now sweepInterval sweepInterval

def map (f : Ticker → Ticker) (l : Loops) : Loops where
  polling := f l.polling
  sweeping := f l.sweeping

def toList (l : Loops) : List (Chore × Ticker) := [(.poll, l.polling), (.sweep, l.sweeping)]

end Loops

structure Lifecycle where
  /-- Its loops, since it was started and until it is shut down. -/
  loops : Option Loops := none
  halted : Bool := false
deriving DecidableEq

namespace Lifecycle

/-- The node counts as running: it was started and has not been shut down since. -/
def running (l : Lifecycle) : Bool := l.loops.isSome

def start (now pollInterval sweepInterval : Nat) (l : Lifecycle) : Lifecycle :=
  match l.loops with
  | some _ => l
  | none =>
    let loops := Loops.start now pollInterval sweepInterval
    { l with loops := some (if l.halted then loops.map Ticker.stop else loops) }

def shutdown (_ : Lifecycle) : Lifecycle where
  loops := none
  halted := true

def passed (upTo : Nat) (l : Lifecycle) : Lifecycle :=
  { l with loops := l.loops.map fun ls => ls.map fun t => t.passed upTo }

def chores (l : Lifecycle) : List (Chore × Ticker) :=
  match l.loops with
  | some loops => loops.toList
  | none => []

end Lifecycle

end Moderation.Node
