import Moderation.Mute.AlwaysAvailable
import Moderation.Mute.OnDemand
/-!
# Mute caches

The two caches behind one set of operations, and how a call is brought to its end when the store
answers every inquiry at once.
-/

namespace Moderation.Mute

inductive Cache where
  | alwaysAvailable (c : AlwaysAvailable)
  | onDemand (c : OnDemand)

namespace Cache

def ofConfig (c : Config) : Cache :=
  match c.variant with
  | .alwaysAvailable => alwaysAvailable (.ofConfig c)
  | .onDemand => onDemand (.ofConfig c)

def variant : Cache → Variant
  | alwaysAvailable _ => .alwaysAvailable
  | onDemand _ => .onDemand

def ledger : Cache → Ledger
  | alwaysAvailable c => c.ledger
  | onDemand c => c.ledger

def size : Cache → Nat
  | alwaysAvailable c => c.entries.size
  | onDemand c => c.entries.size

def get (now : Moment) (key : Visitor) : Cache → Reply × Cache
  | alwaysAvailable c => (c.get now key).map id alwaysAvailable
  | onDemand c => (c.get now key).map id onDemand

/-- A visitor comes in. Gives what the visitor waits for, if the cache is one to wait for. -/
def login (now : Moment) (key : Visitor) : Cache → Option Reply × Cache
  | alwaysAvailable c => (c.login now key).map some alwaysAvailable
  | onDemand c => (none, onDemand (c.login key))

def record (now : Moment) (p : Punishment) : Cache → Cache
  | alwaysAvailable c => alwaysAvailable (c.record p)
  | onDemand c => onDemand (c.record now.steady p)

def recordFor (now : Moment) (key : Visitor) (p : Punishment) : Cache → Cache
  | alwaysAvailable c => alwaysAvailable (c.recordFor key p)
  | onDemand c => onDemand (c.recordFor now.steady key p)

/-- Forgets the mutes that satisfy `match?`, and counts them. -/
def clearWhere (now : Moment) (match? : Punishment → Bool) : Cache → Nat × Cache
  | alwaysAvailable c => (c.clearWhere match?).map id alwaysAvailable
  | onDemand c => (c.clearWhere now.steady match?).map id onDemand

def clear (now : Moment) (ref : PunishmentRef) (c : Cache) : Nat × Cache :=
  c.clearWhere now fun p => p.ref = ref

def clearId (now : Moment) (id : PunishmentId) (c : Cache) : Nat × Cache :=
  c.clearWhere now fun p => p.id = id

def sweep (now : Moment) (online : Uuid → Bool) : Cache → Nat × Cache
  | alwaysAvailable c => (c.purge now online).map id alwaysAvailable
  | onDemand c => (c.evict now.steady).map id onDemand

def complete (q : InquiryId) (v : Option Punishment) : Cache → Cache
  | alwaysAvailable c => alwaysAvailable (c.complete q v)
  | onDemand c => onDemand (c.complete q v)

/-- Writes in the answers that `store` gives to the first `n` inquiries without one. -/
def completeFirst (store : Visitor → Option Punishment) (n : Nat) : Cache → Cache
  | alwaysAvailable c => alwaysAvailable { c with ledger := c.ledger.completeFirst store n }
  | onDemand c => onDemand { c with ledger := c.ledger.completeFirst store n }

def resume (now : Moment) (w : Waiting) : Cache → Reply × Cache
  | alwaysAvailable c => (c.resume w, alwaysAvailable c)
  | onDemand c => (c.resume now.steady w).map id onDemand

/-! ## Stores that answer at once -/

def completeAll (store : Visitor → Option Punishment) (c : Cache) : Cache :=
  c.completeFirst store c.ledger.pending.length

/-- Brings a call to its end; each time it may wait once more than `again` times. -/
def finish (now : Moment) (store : Visitor → Option Punishment) :
    (again : Nat) → Reply → Cache → Option Punishment × Cache
  | _, .value v, c => (v, c.completeAll store)
  | 0, .later _, c => (none, c)
  | again + 1, .later w, c =>
    let (reply, c) := (c.completeAll store).resume now w
    finish now store again reply c

/-- How often a call can wait: a value is read at most twice. -/
def maxWaits : Nat := 3

/-- The mute that applies to a visitor, when the store answers at once. -/
def consult (now : Moment) (store : Visitor → Option Punishment) (key : Visitor) (c : Cache) :
    Option Punishment × Cache :=
  let (reply, c) := c.get now key
  finish now store maxWaits reply c

/-- A visitor comes in, and the store answers at once. -/
def welcome (now : Moment) (store : Visitor → Option Punishment) (key : Visitor) (c : Cache) :
    Option (Option Punishment) × Cache :=
  match c.login now key with
  | (none, c) => (none, c)
  | (some reply, c) => (finish now store maxWaits reply c).map some id

end Cache

end Moderation.Mute
