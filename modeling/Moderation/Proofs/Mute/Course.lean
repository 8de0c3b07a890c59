import Moderation.Mute.AlwaysAvailable
/-!
# The course of a cache that always has an answer

A cache is called, is swept, and gets answers to its inquiries, one after the other and in any order. `step` is what
each of these answers and what becomes of the cache, and `run` is what becomes of it in the end. The clocks and the
players who are online may be others at every event.
-/

namespace Moderation.Mute

/-- What a call on a cache gives. -/
inductive Answer where
  | nothing
  | reply (r : Reply)
  | handle (w : Option Waiting)
  | count (n : Nat)
  | flag (b : Bool)
deriving DecidableEq

namespace AlwaysAvailable

inductive Event where
  | get (now : Moment) (key : Visitor)
  | login (now : Moment) (key : Visitor)
  | refreshHandle (key : Visitor)
  | record (p : Punishment)
  | recordFor (key : Visitor) (p : Punishment)
  /-- Mutes are cleared: by their name, by their number, or by whatever else is said of them. -/
  | clearWhere (match? : Punishment → Bool)
  | purge (now : Moment) (online : Uuid → Bool)
  | contains (key : Visitor)
  | size
  /-- The store answers an inquiry. -/
  | complete (q : InquiryId) (v : Option Punishment)
  /-- Who waits for an answer looks whether it is there. -/
  | resume (w : Waiting)

def step (c : AlwaysAvailable) : Event → Answer × AlwaysAvailable
  | .get now key => (c.get now key).map .reply id
  | .login now key => (c.login now key).map .reply id
  | .refreshHandle key => (c.refreshHandle key).map .handle id
  | .record p => (.nothing, c.record p)
  | .recordFor key p => (.nothing, c.recordFor key p)
  | .clearWhere match? => (c.clearWhere match?).map .count id
  | .purge now online => (c.purge now online).map .count id
  | .contains key => (.flag (c.contains key), c)
  | .size => (.count c.entries.size, c)
  | .complete q v => (.nothing, c.complete q v)
  | .resume w => (.reply (c.resume w), c)

def run (c : AlwaysAvailable) (events : List Event) : AlwaysAvailable :=
  events.foldl (fun c event => (c.step event).2) c

@[simp] theorem run_concat (c : AlwaysAvailable) (events : List Event) (event : Event) :
    c.run (events ++ [event]) = ((c.run events).step event).2 := by
  simp [run]

/-- What is answered at each event, with the inquiries that there are after it. -/
def trace (c : AlwaysAvailable) : List Event → List (Answer × Ledger)
  | [] => []
  | event :: events => ((c.step event).1, (c.step event).2.ledger) :: trace (c.step event).2 events

end AlwaysAvailable

end Moderation.Mute
