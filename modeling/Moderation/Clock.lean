/-!
# Clocks

Instants are milliseconds in a 64-bit word. A wall clock counts them from the Unix epoch, a steady
clock from an arbitrary start. Punishments end at Unix seconds.
-/

namespace Moderation

abbrev Timestamp := UInt64

abbrev Seconds := Int64

namespace Timestamp

/-- The whole seconds of an instant. A 64-bit count of milliseconds has always few enough of them. -/
def seconds (t : Timestamp) : Seconds := (t / 1000).toInt64

/-- The milliseconds from `earlier` to `t`, none if `t` is the earlier one. -/
def since (t earlier : Timestamp) : Nat := t.toNat - earlier.toNat

end Timestamp

inductive ClockStep where
  | set (t : Timestamp)
  /-- Moves the clock on, wrapping after the largest instant. -/
  | advance (ms : UInt64)
deriving DecidableEq, Repr

def ClockStep.apply (t : Timestamp) : ClockStep → Timestamp
  | .set t' => t'
  | .advance ms => t + ms

structure Moment where
  /-- The steady clock, by which cached values age. -/
  steady : Timestamp
  /-- The wall clock, by which punishments end. -/
  wall : Timestamp
deriving DecidableEq, Repr

def Moment.second (now : Moment) : Seconds := now.wall.seconds

end Moderation
