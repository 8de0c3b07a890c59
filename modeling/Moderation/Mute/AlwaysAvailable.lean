import Moderation.Mute.Config
import Moderation.Mute.Inquiry
import Moderation.Table
/-!
# The cache that always has an answer

There is an entry for everyone who has logged in, until some time after they have left. An entry that
is old or whose mute has ended is refreshed, and answers from what it has until the refresh is there.
Refreshes are taken over late, when the entry is next looked at.
-/

namespace Moderation.Mute

namespace AlwaysAvailable

/-- What is held for a visitor. -/
structure Entry where
  id : Nat
  current : Option Punishment
  refreshed : Timestamp
  /-- The refresh that was begun and has not been taken over. -/
  next : Option InquiryId
deriving DecidableEq

namespace Entry

def fold (l : Ledger) (e : Entry) : Entry :=
  match e.next.bind l.answer? with
  | some v => { e with current := v, next := none }
  | none => e

/-- Takes a mute over if it ends later than the one that is held. A refresh under way wins. -/
def merge (l : Ledger) (p : Punishment) (e : Entry) : Entry :=
  let e := e.fold l
  if e.next.isSome then e else { e with current := some (Punishment.later e.current p) }

def holds (match? : Punishment → Bool) (e : Entry) : Bool := e.current.any match?

/-- Forgets the mute that is held if it satisfies `match?`. -/
def clear (match? : Punishment → Bool) (e : Entry) : Entry :=
  if e.holds match? then { e with current := none } else e

end Entry

end AlwaysAvailable

open AlwaysAvailable in
structure AlwaysAvailable where
  /-- How long a refresh is fresh, in milliseconds. -/
  expiration : UInt64
  /-- How long the entry of someone who has left is kept, in milliseconds. -/
  grace : UInt64
  entries : Table Visitor Entry := ∅
  ledger : Ledger := {}
  nextId : Nat := 0

namespace AlwaysAvailable

def ofConfig (c : Config) : AlwaysAvailable where
  expiration := c.expiration
  grace := c.gracePeriod

def Ended (now : Moment) (e : Entry) : Prop := ∃ p ∈ e.current, p.ExpiredAt now.second

instance (now : Moment) (e : Entry) : Decidable (Ended now e) :=
  inferInstanceAs (Decidable (∃ p ∈ e.current, p.ExpiredAt now.second))

/-- The last refresh is old. -/
def Stale (c : AlwaysAvailable) (now : Moment) (e : Entry) : Prop :=
  c.expiration.toNat < now.steady.since e.refreshed

instance (c : AlwaysAvailable) (now : Moment) (e : Entry) : Decidable (c.Stale now e) :=
  inferInstanceAs (Decidable (_ < _))

/-- Begins a refresh of an entry that is old or whose mute has ended, unless one is under way. -/
def refreshIfDue (c : AlwaysAvailable) (now : Moment) (key : Visitor) (e : Entry) : Entry × Ledger :=
  if e.next = none ∧ (c.Stale now e ∨ Ended now e) then
    let (q, ledger) := c.ledger.start key .entry
    ({ e with next := some q, refreshed := now.steady }, ledger)
  else (e, c.ledger)

/-- The mute that applies to a visitor. Without an entry the store is asked, and none is made. -/
def get (c : AlwaysAvailable) (now : Moment) (key : Visitor) : Reply × AlwaysAvailable :=
  match c.entries.get? key with
  | some e =>
    let (e, ledger) := c.refreshIfDue now key (e.fold c.ledger)
    (.value (unexpired now.second e.current),
      { c with entries := c.entries.insert key e, ledger })
  | none =>
    let (q, ledger) := c.ledger.start key .caller
    (.later (.handle q (some now.second)), { c with ledger })

/-- Makes an entry for a visitor, or looks whether its entry is due for a refresh. What is under way
is what the visitor waits for. -/
def login (c : AlwaysAvailable) (now : Moment) (key : Visitor) : Reply × AlwaysAvailable :=
  match c.entries.get? key with
  | some e =>
    let (e, ledger) := c.refreshIfDue now key (e.fold c.ledger)
    let reply := match e.next with
      | some q => .later (.handle q (some now.second))
      | none => .value e.current
    (reply, { c with entries := c.entries.insert key e, ledger })
  | none =>
    let (q, ledger) := c.ledger.start key .entry
    let e : Entry := { id := c.nextId, current := none, refreshed := now.steady, next := some q }
    (.later (.handle q none),
      { c with entries := c.entries.insert key e, ledger, nextId := c.nextId + 1 })

def refreshHandle (c : AlwaysAvailable) (key : Visitor) : Option Waiting × AlwaysAvailable :=
  match c.entries.get? key with
  | some e =>
    let e := e.fold c.ledger
    (e.next.map fun q => .handle q none, { c with entries := c.entries.insert key e })
  | none => (none, c)

def record (c : AlwaysAvailable) (p : Punishment) : AlwaysAvailable :=
  if p.kind = .mute then
    { c with
      entries := c.entries.mapRows fun key e =>
        if p.victim.Covers key then e.merge c.ledger p else e }
  else c

def recordFor (c : AlwaysAvailable) (key : Visitor) (p : Punishment) : AlwaysAvailable :=
  if p.kind = .mute then { c with entries := c.entries.modify key fun e => e.merge c.ledger p }
  else c

/-- Forgets the mutes that satisfy `match?`, and counts them. -/
def clearWhere (c : AlwaysAvailable) (match? : Punishment → Bool) : Nat × AlwaysAvailable :=
  let folded := c.entries.mapRows fun _ e => e.fold c.ledger
  (folded.values.countP fun e => e.holds match?,
    { c with entries := folded.mapRows fun _ e => e.clear match? })

/-- Removes the entries of those who left and were not refreshed for the grace period, and counts
them. -/
def purge (c : AlwaysAvailable) (now : Moment) (online : Uuid → Bool) : Nat × AlwaysAvailable :=
  let kept := c.entries.filter fun key e =>
    online key.user || !decide (c.grace.toNat < now.steady.since e.refreshed)
  (c.entries.size - kept.size, { c with entries := kept })

def contains (c : AlwaysAvailable) (key : Visitor) : Bool := c.entries.contains key

def complete (c : AlwaysAvailable) (q : InquiryId) (v : Option Punishment) : AlwaysAvailable :=
  { c with ledger := c.ledger.complete q v }

def resume (c : AlwaysAvailable) : Waiting → Reply
  | .handle q second =>
    match c.ledger.answer? q with
    | some v => .value (match second with
      | some s => unexpired s v
      | none => v)
    | none => .later (.handle q second)
  | w => .later w

end AlwaysAvailable

end Moderation.Mute
