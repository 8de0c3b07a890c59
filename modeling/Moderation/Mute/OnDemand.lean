import Moderation.Mute.Config
import Moderation.Mute.Inquiry
import Moderation.Table
/-!
# The cache that asks on demand

A value is asked for when it is first wanted and kept until it expires. All who want it meanwhile
share one inquiry. A value that turns out to have ended is dropped and asked for once more, but only
if nobody has put another in its place.
-/

namespace Moderation.Mute

namespace OnDemand

inductive Source where
  | asked (q : InquiryId)
  | known (v : Option Punishment)
deriving DecidableEq

def Source.value? (l : Ledger) : Source → Option (Option Punishment)
  | asked q => l.answer? q
  | known v => some v

/-- What is held for a visitor. -/
structure Entry where
  id : Nat
  source : Source
  written : Timestamp
  /-- When it was last wanted. -/
  accessed : Timestamp
deriving DecidableEq

namespace Entry

def ofSource (id : Nat) (source : Source) (now : Timestamp) : Entry where
  id := id
  source := source
  written := now
  accessed := now

def value? (l : Ledger) (e : Entry) : Option (Option Punishment) := e.source.value? l

/-- Puts a mute that ends later in the place of the value, if that is there. -/
def merge (l : Ledger) (now : Timestamp) (p : Punishment) (e : Entry) (nextId : Nat) : Entry × Nat :=
  match e.value? l with
  | none => (e, nextId)
  | some held =>
    let merged := some (Punishment.later held p)
    if held = merged then (e, nextId) else (ofSource nextId (.known merged) now, nextId + 1)

/-- The value is there and is a mute that satisfies `match?`. -/
def holds (l : Ledger) (match? : Punishment → Bool) (e : Entry) : Bool :=
  (e.value? l).any fun v => v.any match?

/-- Puts "none" in the place of a mute that satisfies `match?`. -/
def clear (l : Ledger) (now : Timestamp) (match? : Punishment → Bool) (e : Entry) (nextId : Nat) :
    Entry × Nat :=
  if e.holds l match? then (ofSource nextId (.known none) now, nextId + 1) else (e, nextId)

end Entry

end OnDemand

open OnDemand in
structure OnDemand where
  policy : ExpirationPolicy
  entries : Table Visitor Entry := ∅
  ledger : Ledger := {}
  nextId : Nat := 0

namespace OnDemand

def ofConfig (c : Config) : OnDemand where
  policy := c.policy

def Expired (c : OnDemand) (now : Timestamp) (e : Entry) : Prop :=
  c.policy.Expired e.written e.accessed now

instance (c : OnDemand) (now : Timestamp) (e : Entry) : Decidable (c.Expired now e) :=
  inferInstanceAs (Decidable (c.policy.Expired _ _ _))

def ask (c : OnDemand) (now : Timestamp) (key : Visitor) : Entry × OnDemand :=
  let (q, ledger) := c.ledger.start key .entry
  let e := Entry.ofSource c.nextId (.asked q) now
  (e, { c with entries := c.entries.insert key e, ledger, nextId := c.nextId + 1 })

/-- The entry for a visitor: the one there is, unless it has expired. -/
def load (c : OnDemand) (now : Timestamp) (key : Visitor) : Entry × OnDemand :=
  match c.entries.get? key with
  | some e =>
    if c.Expired now e then c.ask now key
    else
      let e := { e with accessed := now }
      (e, { c with entries := c.entries.insert key e })
  | none => c.ask now key

/-- Removes the entry for a visitor if it is the one with that identity. -/
def dropEntry (c : OnDemand) (key : Visitor) (id : Nat) : OnDemand :=
  { c with entries := c.entries.filter fun k e => !decide (k = key ∧ e.id = id) }

/-- Reads the value for a visitor up to `tries` times: a value that is over at `second` is dropped. -/
def read (c : OnDemand) (now : Timestamp) (key : Visitor) (second : Seconds) :
    (tries : Nat) → Reply × OnDemand
  | 0 => (.value none, c)
  | tries + 1 =>
    match c.load now key with
    | (e, c) =>
      match e.source, e.value? c.ledger with
      | .asked q, none => (.later (.reading q key e.id second tries), c)
      | _, v =>
        if ∃ p ∈ v.join, p.ExpiredAt second then (c.dropEntry key e.id).read now key second tries
        else (.value v.join, c)

def get (c : OnDemand) (now : Moment) (key : Visitor) : Reply × OnDemand :=
  c.read now.steady key now.second 2

def resume (c : OnDemand) (now : Timestamp) : Waiting → Reply × OnDemand
  | .reading q key entry second again =>
    match c.ledger.answer? q with
    | none => (.later (.reading q key entry second again), c)
    | some v =>
      if ∃ p ∈ v, p.ExpiredAt second then (c.dropEntry key entry).read now key second again
      else (.value v, c)
  | w => (.later w, c)

/-- Forgets the value for a visitor who comes in. One that is still asked for stays: it is newer than
the visitor. -/
def login (c : OnDemand) (key : Visitor) : OnDemand :=
  { c with entries := c.entries.filter fun k e => !decide (k = key ∧ (e.value? c.ledger).isSome) }

def record (c : OnDemand) (now : Timestamp) (p : Punishment) : OnDemand :=
  if p.kind = .mute then
    let (entries, nextId) := c.entries.scan (fun key e nextId =>
      if p.victim.Covers key then e.merge c.ledger now p nextId else (e, nextId)) c.nextId
    { c with entries, nextId }
  else c

def recordFor (c : OnDemand) (now : Timestamp) (key : Visitor) (p : Punishment) : OnDemand :=
  if p.kind = .mute then
    let (entries, nextId) := c.entries.scan (fun k e nextId =>
      if k = key then e.merge c.ledger now p nextId else (e, nextId)) c.nextId
    { c with entries, nextId }
  else c

/-- Forgets the mutes that satisfy `match?`, and counts them. -/
def clearWhere (c : OnDemand) (now : Timestamp) (match? : Punishment → Bool) : Nat × OnDemand :=
  let (entries, nextId) :=
    c.entries.scan (fun _ e nextId => e.clear c.ledger now match? nextId) c.nextId
  (c.entries.values.countP fun e => e.holds c.ledger match?, { c with entries, nextId })

def evict (c : OnDemand) (now : Timestamp) : Nat × OnDemand :=
  let kept := c.entries.filter fun _ e => !decide (c.Expired now e)
  (c.entries.size - kept.size, { c with entries := kept })

def complete (c : OnDemand) (q : InquiryId) (v : Option Punishment) : OnDemand :=
  { c with ledger := c.ledger.complete q v }

end OnDemand

end Moderation.Mute
