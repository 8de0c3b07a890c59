/-!
# Schedules

Loops that do something every so often. A loop is data: its period and the instant of its next round.
All that it does up to an instant can be read off, and loops run together in order of time.
-/

namespace Moderation

structure Ticker where
  period : Nat
  due : Nat
  ended : Bool := false
deriving DecidableEq

namespace Ticker

/-- A loop whose first round is after `delay`. A loop without a period ends before it begins. -/
def start (now delay period : Nat) : Ticker where
  period := period
  due := now + delay
  ended := period = 0

def stop (t : Ticker) : Ticker := { t with ended := true }

def rounds (t : Ticker) (upTo : Nat) : Nat :=
  if t.ended ∨ upTo < t.due then 0 else (upTo - t.due) / t.period + 1

def instants (t : Ticker) (upTo : Nat) : List Nat :=
  (List.range (t.rounds upTo)).map fun i => t.due + t.period * i

def passed (t : Ticker) (upTo : Nat) : Ticker :=
  { t with due := t.due + t.period * t.rounds upTo }

end Ticker

namespace Schedule

variable {α : Type}

/-- The rounds of all loops up to an instant in order of time, and at one instant in the order of the
loops. -/
def firings (loops : List (α × Ticker)) (upTo : Nat) : List α :=
  let rounds := loops.flatMap fun l => (l.2.instants upTo).map fun t => (t, l.1)
  (rounds.mergeSort fun a b => a.1 ≤ b.1).map Prod.snd

end Schedule

end Moderation
