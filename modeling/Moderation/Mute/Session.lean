import Moderation.Mute.Cache
import Moderation.Mute.Roster
import Moderation.Schedule
/-!
# Sessions

A cache with its callers and a store that may take its time. The store answers inquiries in the order
in which they were made, one for each permit if it needs permits. Calls that wait hold a ticket, under
which their value can be fetched once.
-/

namespace Moderation.Mute

structure Responder where
  mutes : Table Uuid Punishment := ∅
  /-- Whether it answers that there is no mute, whatever it knows. -/
  failing : Bool := false
  /-- How many inquiries it may answer; any number if there is none. -/
  permits : Option Nat := none

namespace Responder

def answer (r : Responder) (key : Visitor) : Option Punishment :=
  if r.failing then none else r.mutes.get? key.user

def release (r : Responder) (n : Nat) : Responder := { r with permits := r.permits.map (· + n) }

def allowance (r : Responder) (pending : Nat) : Nat :=
  match r.permits with
  | none => pending
  | some n => min n pending

def spend (r : Responder) (n : Nat) : Responder := { r with permits := r.permits.map (· - n) }

end Responder

abbrev Ticket := Nat

structure Session where
  cache : Cache
  responder : Responder := {}
  now : Moment
  roster : Roster := {}
  /-- The calls that wait, in the order in which they began to. -/
  waiting : List (Ticket × Waiting) := []
  finished : Table Ticket (Option Punishment) := ∅
  nextTicket : Ticket := 0
  elapsed : Nat := 0
  loop : Option Ticker := none

namespace Session

def answer (s : Session) : Session :=
  let n := s.responder.allowance s.cache.ledger.pending.length
  { s with
    cache := s.cache.completeFirst s.responder.answer n
    responder := s.responder.spend n }

/-- Goes on with a call as far as it gets, waiting at most `again` times more on the way. -/
def advance (ticket : Ticket) : (again : Nat) → Reply → Session → Session
  | _, .value v, s => { s with finished := s.finished.insert ticket v }
  | 0, .later w, s => { s with waiting := s.waiting ++ [(ticket, w)] }
  | again + 1, .later w, s =>
    let s := s.answer
    if (s.cache.ledger.answer? w.inquiry).isSome then
      let (reply, cache) := s.cache.resume s.now w
      advance ticket again reply { s with cache }
    else { s with waiting := s.waiting ++ [(ticket, w)] }

/-- Lets the store answer what it may, and goes on with the calls that waited for it: in the order of
their inquiries, and of one inquiry in the order in which they began to wait. -/
def settle (s : Session) : Session :=
  let s := s.answer
  let (ready, waiting) :=
    s.waiting.partition fun c => (s.cache.ledger.answer? c.2.inquiry).isSome
  let ready := ready.mergeSort fun a b => a.2.inquiry ≤ b.2.inquiry
  ready.foldl (fun s c => s.advance c.1 Cache.maxWaits (.later c.2)) { s with waiting }

def issue (s : Session) (reply : Reply) : Ticket × Session :=
  let ticket := s.nextTicket
  (ticket, (advance ticket Cache.maxWaits reply { s with nextTicket := ticket + 1 }).settle)

inductive Holding where
  | value (v : Option Punishment)
  | pending
  /-- Nothing: the value has been fetched, or there was never a call. -/
  | nothing

def redeem (s : Session) (ticket : Ticket) : Holding × Session :=
  match s.finished.get? ticket with
  | some v => (.value v, { s with finished := s.finished.erase ticket })
  | none => (if s.waiting.any fun c => c.1 = ticket then .pending else .nothing, s)

/-! ## Calls -/

def get (s : Session) (key : Visitor) : Ticket × Session :=
  let (reply, cache) := s.cache.get s.now key
  { s with cache }.issue reply

/-- A visitor comes in. There is a ticket if there is something to wait for. -/
def login (s : Session) (key : Visitor) : Option Ticket × Session :=
  match s.cache.login s.now key with
  | (some reply, cache) => ({ s with cache }.issue reply).map some id
  | (none, cache) => (none, { s with cache }.settle)

/-- The refresh under way for a visitor. There is a ticket if there is one. -/
def refresh (s : Session) (c : AlwaysAvailable) (key : Visitor) : Option Ticket × Session :=
  match c.refreshHandle key with
  | (some w, c) => ({ s with cache := .alwaysAvailable c }.issue (.later w)).map some id
  | (none, c) => (none, { s with cache := .alwaysAvailable c }.settle)

def update (s : Session) (f : Cache → Cache) : Session := { s with cache := f s.cache }.settle

def sweep (s : Session) : Nat × Session :=
  let (n, cache) := s.cache.sweep s.now s.roster.isOnline
  (n, { s with cache }.settle)

def release (s : Session) (n : Nat) : Session :=
  { s with responder := s.responder.release n }.settle

/-! ## The sweeping loop -/

/-- Starts the sweeping loop, whose first round is after one interval. -/
def spawn (s : Session) (interval : Nat) : Session :=
  { s with loop := some (Ticker.start s.elapsed interval interval) }

def halt (s : Session) : Session := { s with loop := s.loop.map Ticker.stop }

def sleep (s : Session) (ms : Nat) : Session :=
  let upTo := s.elapsed + ms
  let rounds := (s.loop.map fun t => t.rounds upTo).getD 0
  let s := { s with elapsed := upTo, loop := s.loop.map fun t => t.passed upTo }
  (List.range rounds).foldl (fun s _ => s.sweep.2) s

end Session

end Moderation.Mute
