import Moderation.Text.Hex
/-!
# Broadcast buses

A bus hands each frame to everyone who is subscribed when it is published. It retains the last
frames only, as many as the least power of two that is not below its capacity: who falls further
behind loses the oldest, and is told how many. A frame that no one is subscribed to is not retained.
-/

namespace Moderation

structure Frame where
  channel : String
  payload : Bytes
deriving DecidableEq

structure Bus where
  capacity : Nat
  /-- The frames that had a subscriber, oldest first. -/
  frames : Array Frame := #[]
  subscribers : Nat := 0
  published : Nat := 0
  closed : Bool := false

namespace Bus

/-- The capacity of a bus for which none is asked. -/
def defaultCapacity : Nat := 1000

def syncChannel : String := "moderation.sync"

def slotSize : Nat := 80

def maxSize : Nat := Int64.maxValue.toNatClampNeg

/-- The least power of two that is not below the capacity. -/
def slots (capacity : Nat) : Nat :=
  if capacity ≤ 1 then 1 else 1 <<< ((capacity - 1).log2 + 1)

/-- A bus of that capacity, if it can be had: it has a slot for each frame that it may retain, and
the slots are laid out when it is set up. -/
def ofCapacity? (capacity : Nat) : Option Bus :=
  if capacity = 0 ∨ slots capacity * slotSize > maxSize then none else some { capacity }

def retained (b : Bus) : Nat := slots b.capacity

def dropped (b : Bus) : Nat := b.frames.size - b.retained

def publish (b : Bus) (f : Frame) : Nat × Bus :=
  let b := { b with published := b.published + 1 }
  (b.subscribers, if b.subscribers = 0 then b else { b with frames := b.frames.push f })

end Bus

structure Subscription where
  /-- The channels of interest; all of them if none is named. -/
  channels : List String := []
  /-- How many frames of the bus have been passed. -/
  next : Nat := 0
  /-- How many of them were lost. -/
  lagged : Nat := 0

inductive SubscriptionError where
  | closed
deriving DecidableEq

instance : ToString SubscriptionError where
  toString
    | .closed => "Message bus closed"

namespace Subscription

def Matches (s : Subscription) (f : Frame) : Prop := s.channels = [] ∨ f.channel ∈ s.channels

instance (s : Subscription) (f : Frame) : Decidable (s.Matches f) :=
  inferInstanceAs (Decidable (_ ∨ _))

/-- Passes the frames that are not retained any more, and counts them as lost. -/
def catchUp (s : Subscription) (b : Bus) : Subscription :=
  { s with next := max s.next b.dropped, lagged := s.lagged + (b.dropped - s.next) }

def unread (s : Subscription) (b : Bus) : List Frame := b.frames.toList.drop s.next

/-- Receives the next frame of interest and passes those before it. -/
def receive (s : Subscription) (b : Bus) : Except SubscriptionError (Option Frame) × Subscription :=
  let s := s.catchUp b
  match (s.unread b).dropWhile fun f => ¬s.Matches f with
  | f :: rest => (.ok (some f), { s with next := b.frames.size - rest.length })
  | [] => (if b.closed then .error .closed else .ok none, { s with next := b.frames.size })

def drain (s : Subscription) (b : Bus) : List Frame × Subscription :=
  let s := s.catchUp b
  ((s.unread b).filter fun f => s.Matches f, { s with next := b.frames.size })

end Subscription

namespace Bus

def subscribe (b : Bus) (channels : List String) : Subscription × Bus :=
  ({ channels, next := b.frames.size }, { b with subscribers := b.subscribers + 1 })

def unsubscribe (b : Bus) : Bus := { b with subscribers := b.subscribers - 1 }

def close (b : Bus) : Bus := { b with closed := true }

end Bus

end Moderation
