import Moderation.Proofs.Mute.Course
import Moderation.Proofs.Mute.Recording
/-!
# Refreshes taken over at once

`Eager` is a cache that always has an answer and takes a refresh over at the very moment at which the store answers,
so that what it holds is up to date whenever it is looked at. The cache that takes refreshes over late is not to be
told apart from it: over every course of events both answer alike and ask the store the same at the same points,
`trace_eq_eager`. What carries this is that each event commutes with taking over all that is there (`step_eager`).
-/

namespace Moderation.Mute

open AlwaysAvailable (Entry Event)

/-- A cache that always has an answer. An entry whose `next` is there waits for the store. -/
structure Eager where
  /-- How long a refresh is fresh, in milliseconds. -/
  expiration : UInt64
  /-- How long the entry of someone who has left is kept, in milliseconds. -/
  grace : UInt64
  entries : Table Visitor Entry := ∅
  ledger : Ledger := {}
  nextId : Nat := 0

namespace Eager

def ofConfig (c : Config) : Eager where
  expiration := c.expiration
  grace := c.gracePeriod

/-! ## What it does -/

/-- No refresh is under way, and the last one is old or the mute that is held has ended. -/
def Due (c : Eager) (now : Moment) (e : Entry) : Prop :=
  e.next = none ∧ (c.expiration.toNat < now.steady.since e.refreshed ∨ ∃ p ∈ e.current, p.ExpiredAt now.second)

instance (c : Eager) (now : Moment) (e : Entry) : Decidable (c.Due now e) :=
  inferInstanceAs (Decidable (_ ∧ (_ ∨ ∃ p ∈ e.current, p.ExpiredAt now.second)))

/-- Looks at the entry `e` of a visitor, and begins a refresh if one is due. -/
def visit (c : Eager) (now : Moment) (key : Visitor) (e : Entry) : Entry × Eager :=
  if c.Due now e then
    let (q, ledger) := c.ledger.start key .entry
    let e := { e with next := some q, refreshed := now.steady }
    (e, { c with entries := c.entries.insert key e, ledger })
  else (e, c)

def get (c : Eager) (now : Moment) (key : Visitor) : Reply × Eager :=
  match c.entries.get? key with
  | some e => (.value (unexpired now.second e.current), (c.visit now key e).2)
  | none =>
    let (q, ledger) := c.ledger.start key .caller
    (.later (.handle q (some now.second)), { c with ledger })

def login (c : Eager) (now : Moment) (key : Visitor) : Reply × Eager :=
  match c.entries.get? key with
  | some e =>
    let (e, c) := c.visit now key e
    (match e.next with
      | some q => .later (.handle q (some now.second))
      | none => .value e.current, c)
  | none =>
    let (q, ledger) := c.ledger.start key .entry
    let e : Entry := { id := c.nextId, current := none, refreshed := now.steady, next := some q }
    (.later (.handle q none),
      { c with entries := c.entries.insert key e, ledger, nextId := c.nextId + 1 })

/-- The refresh under way for a visitor. -/
def refreshHandle (c : Eager) (key : Visitor) : Option Waiting :=
  (c.entries.get? key).bind fun e => e.next.map fun q => .handle q none

/-- The entry with a mute that ends later in the place of the one that is held, unless a refresh is under way. -/
def merged (p : Punishment) (e : Entry) : Entry :=
  if e.next.isSome then e else { e with current := some (Punishment.later e.current p) }

def record (c : Eager) (p : Punishment) : Eager :=
  if p.kind = .mute then
    { c with entries := c.entries.mapRows fun key e => if p.victim.Covers key then merged p e else e }
  else c

def recordFor (c : Eager) (key : Visitor) (p : Punishment) : Eager :=
  if p.kind = .mute then { c with entries := c.entries.modify key (merged p) } else c

def clearWhere (c : Eager) (match? : Punishment → Bool) : Nat × Eager :=
  (c.entries.values.countP fun e => e.current.any match?,
    { c with entries := c.entries.mapRows fun _ e => { e with current := e.current.filter fun p => !match? p } })

/-- Removes the entries of those who left and were not refreshed for the grace period, and counts them. -/
def purge (c : Eager) (now : Moment) (online : Uuid → Bool) : Nat × Eager :=
  let kept := c.entries.filter fun key e =>
    online key.user || decide (now.steady.since e.refreshed ≤ c.grace.toNat)
  (c.entries.size - kept.size, { c with entries := kept })

/-- The store's answer becomes the value of the entry that waits for it. -/
def takeOver (q : InquiryId) (v : Option Punishment) (e : Entry) : Entry :=
  if e.next = some q then { e with current := v, next := none } else e

/-- The store answers an inquiry. It answers each inquiry once. -/
def complete (c : Eager) (q : InquiryId) (v : Option Punishment) : Eager :=
  { c with
    entries := if c.ledger.Awaits q then c.entries.mapRows fun _ e => takeOver q v e else c.entries
    ledger := c.ledger.complete q v }

def resume (c : Eager) : Waiting → Reply
  | .handle q none =>
    match c.ledger.answer? q with
    | some v => .value v
    | none => .later (.handle q none)
  | .handle q (some second) =>
    match c.ledger.answer? q with
    | some v => .value (unexpired second v)
    | none => .later (.handle q (some second))
  | w => .later w

def step (c : Eager) : Event → Answer × Eager
  | .get now key => (c.get now key).map .reply id
  | .login now key => (c.login now key).map .reply id
  | .refreshHandle key => (.handle (c.refreshHandle key), c)
  | .record p => (.nothing, c.record p)
  | .recordFor key p => (.nothing, c.recordFor key p)
  | .clearWhere match? => (c.clearWhere match?).map .count id
  | .purge now online => (c.purge now online).map .count id
  | .contains key => (.flag (decide (key ∈ c.entries)), c)
  | .size => (.count c.entries.size, c)
  | .complete q v => (.nothing, c.complete q v)
  | .resume w => (.reply (c.resume w), c)

/-- What is answered at each event, with the inquiries that there are after it. -/
def trace (c : Eager) : List Event → List (Answer × Ledger)
  | [] => []
  | event :: events => ((c.step event).1, (c.step event).2.ledger) :: trace (c.step event).2 events

end Eager

/-! ## What is there is taken over -/

namespace AlwaysAvailable

namespace Entry

/-- An entry takes over what the store answers as if it had waited for that. -/
theorem fold_complete {l : Ledger} (q : InquiryId) (v : Option Punishment) (e : Entry) :
    e.fold (l.complete q v) = if l.Awaits q then Eager.takeOver q v (e.fold l) else e.fold l := by
  by_cases hq : l.Awaits q
  · rw [if_pos hq]
    by_cases hnext : e.next = some q
    · have hbefore : e.fold l = e := fold_eq_self (by rw [hnext, Option.bind_some, hq.answer?])
      have hafter : e.next.bind (l.complete q v).answer? = some v := by
        rw [hnext, Option.bind_some, Ledger.answer?_complete, if_pos ⟨rfl, hq⟩]
      rw [hbefore, Eager.takeOver, if_pos hnext]
      unfold fold
      rw [hafter]
    · have hother : (e.fold l).next ≠ some q := by
        unfold fold
        split
        · simp
        · exact hnext
      rw [Eager.takeOver, if_neg hother]
      apply fold_congr
      intro q' hq'
      rw [Ledger.answer?_complete, if_neg]
      rintro ⟨rfl, -⟩
      exact hnext hq'
  · rw [if_neg hq]
    apply fold_congr
    intro q' _
    rw [Ledger.answer?_complete, if_neg fun h => hq h.2]

theorem merge_eq (l : Ledger) (p : Punishment) (e : Entry) : e.merge l p = Eager.merged p (e.fold l) := rfl

theorem clear_eq (match? : Punishment → Bool) (e : Entry) :
    e.clear match? = { e with current := e.current.filter fun p => !match? p } := by
  rw [← current_clear]
  unfold clear
  split <;> rfl

end Entry

/-- The cache with all refreshes taken over whose answers are there. -/
def eager (c : AlwaysAvailable) : Eager where
  expiration := c.expiration
  grace := c.grace
  entries := c.entries.mapRows fun _ e => e.fold c.ledger
  ledger := c.ledger
  nextId := c.nextId

variable (c : AlwaysAvailable)

theorem entries_eager : c.eager.entries = c.entries.mapRows fun _ e => e.fold c.ledger := rfl

theorem get?_eager (key : Visitor) :
    c.eager.entries.get? key = (c.entries.get? key).map fun e => e.fold c.ledger :=
  Table.get?_mapRows _ _ _

theorem entries_purge (now : Moment) (online : Uuid → Bool) : (c.purge now online).2.entries =
    c.entries.filter fun key e => online key.user || !decide (c.grace.toNat < now.steady.since e.refreshed) := rfl

theorem keys_eager : c.eager.entries.keys = c.entries.keys := Table.keys_mapRows _ _

/-- An entry that is looked at is put back as the eager cache has it. -/
theorem eager_insert {l : Ledger} (hl : ∀ e : Entry, e.fold l = e.fold c.ledger) (key : Visitor) {e : Entry}
    (he : e.fold c.ledger = e) (nextId : Nat) :
    ({ c with entries := c.entries.insert key e, ledger := l, nextId } : AlwaysAvailable).eager =
      { c.eager with entries := c.eager.entries.insert key e, ledger := l, nextId } := by
  simp only [eager, hl, Table.mapRows_insert, he]

/-- A refresh is begun by both caches or by neither. -/
theorem visit_eager {key : Visitor} {e : Entry} (he : c.entries.get? key = some e) (now : Moment) :
    let visited := c.refreshIfDue now key (e.fold c.ledger)
    c.eager.visit now key (e.fold c.ledger) = (visited.1,
      ({ c with entries := c.entries.insert key visited.1, ledger := visited.2 } : AlwaysAvailable).eager) := by
  intro visited
  by_cases hdue : c.eager.Due now (e.fold c.ledger)
  · have hvisited : visited = ({ e.fold c.ledger with next := some c.ledger.size, refreshed := now.steady },
        (c.ledger.start key .entry).2) := if_pos hdue
    have hnew : ({ e.fold c.ledger with next := some c.ledger.size, refreshed := now.steady } : Entry).fold c.ledger =
        { e.fold c.ledger with next := some c.ledger.size, refreshed := now.steady } :=
      Entry.fold_eq_self c.ledger.answer?_size
    rw [hvisited, c.eager_insert (fun e => e.fold_start c.ledger key .entry) key hnew]
    simp only [Eager.visit, if_pos hdue]
    rfl
  · have hvisited : visited = (e.fold c.ledger, c.ledger) := if_neg hdue
    have hsame : c.eager.entries.insert key (e.fold c.ledger) = c.eager.entries :=
      Table.insert_of_get? (by rw [get?_eager, he, Option.map_some])
    rw [hvisited, c.eager_insert (fun _ => rfl) key (e.fold_fold c.ledger), hsame]
    simp only [Eager.visit, if_neg hdue]
    rfl

/-! ## Each event commutes with it -/

theorem get_eager (now : Moment) (key : Visitor) :
    c.eager.get now key = ((c.get now key).1, (c.get now key).2.eager) := by
  unfold Eager.get AlwaysAvailable.get
  rw [get?_eager]
  cases he : c.entries.get? key with
  | none =>
    simp only [Option.map_none, eager, Entry.fold_start]
  | some e =>
    simp only [Option.map_some, c.visit_eager he now, refreshIfDue_current]

theorem login_eager (now : Moment) (key : Visitor) :
    c.eager.login now key = ((c.login now key).1, (c.login now key).2.eager) := by
  unfold Eager.login AlwaysAvailable.login
  rw [get?_eager]
  cases he : c.entries.get? key with
  | none =>
    have hnew : ({ id := c.nextId, current := none, refreshed := now.steady, next := some c.ledger.size } :
        Entry).fold c.ledger = _ := Entry.fold_eq_self c.ledger.answer?_size
    exact congrArg (Prod.mk _) (c.eager_insert (fun e => e.fold_start c.ledger key .entry) key hnew _).symm
  | some e =>
    -- Both answer from the entry as it stands after the visit.
    let answered (visited : Entry × Eager) : Reply × Eager := (match visited.1.next with
      | some q => .later (.handle q (some now.second))
      | none => .value visited.1.current, visited.2)
    exact congrArg answered (c.visit_eager he now)

theorem refreshHandle_eager (key : Visitor) :
    c.eager.refreshHandle key = (c.refreshHandle key).1 ∧ c.eager = (c.refreshHandle key).2.eager := by
  unfold Eager.refreshHandle AlwaysAvailable.refreshHandle
  rw [get?_eager]
  cases he : c.entries.get? key with
  | none => exact ⟨rfl, rfl⟩
  | some e =>
    have hsame : c.eager.entries.insert key (e.fold c.ledger) = c.eager.entries :=
      Table.insert_of_get? (by rw [get?_eager, he, Option.map_some])
    refine ⟨rfl, ?_⟩
    rw [c.eager_insert (fun _ => rfl) key (e.fold_fold c.ledger), hsame]
    rfl

theorem record_eager (p : Punishment) : c.eager.record p = (c.record p).eager := by
  unfold Eager.record AlwaysAvailable.record
  split
  · simp only [eager, Table.mapRows_mapRows, Eager.mk.injEq, true_and, and_true]
    congr 1
    funext key e
    split
    · rw [Entry.fold_merge, Entry.merge_eq]
    · rfl
  · rfl

theorem recordFor_eager (key : Visitor) (p : Punishment) : c.eager.recordFor key p = (c.recordFor key p).eager := by
  unfold Eager.recordFor AlwaysAvailable.recordFor
  split
  · simp only [eager, Table.modify, Table.mapRows_mapRows, Eager.mk.injEq, true_and, and_true]
    congr 1
    funext key' e
    split
    · rw [Entry.fold_merge, Entry.merge_eq]
    · rfl
  · rfl

theorem clearWhere_eager (match? : Punishment → Bool) :
    c.eager.clearWhere match? = ((c.clearWhere match?).1, (c.clearWhere match?).2.eager) := by
  have hentry (e : Entry) : ((e.fold c.ledger).clear match?).fold c.ledger =
      { e.fold c.ledger with current := (e.fold c.ledger).current.filter fun p => !match? p } := by
    rw [Entry.fold_clear_fold, Entry.clear_eq]
  refine Prod.ext rfl ?_
  simp only [Eager.clearWhere, clearWhere, eager, Table.mapRows_mapRows, hentry]

theorem purge_eager (now : Moment) (online : Uuid → Bool) :
    c.eager.purge now online = ((c.purge now online).1, (c.purge now online).2.eager) := by
  have hkept : (c.eager.entries.filter fun key e =>
      online key.user || decide (now.steady.since e.refreshed ≤ c.eager.grace.toNat)) =
      (c.purge now online).2.entries.mapRows fun _ e => e.fold c.ledger := by
    rw [entries_purge, entries_eager]
    symm
    apply Table.mapRows_filter
    intro key e
    have hage : now.steady.since e.refreshed ≤ c.eager.grace.toNat ↔
        ¬c.grace.toNat < now.steady.since e.refreshed := Nat.not_lt.symm
    simp only [Entry.refreshed_fold, hage, decide_not]
  simp only [Eager.purge, hkept, Table.size_mapRows]
  exact Prod.ext (congrArg (· - _) (Table.size_mapRows _ _)) rfl

theorem complete_eager (q : InquiryId) (v : Option Punishment) : c.eager.complete q v = (c.complete q v).eager := by
  simp only [Eager.complete, complete, eager, Entry.fold_complete, Eager.mk.injEq, true_and, and_true]
  by_cases hq : c.ledger.Awaits q
  · simp only [hq, if_true, Table.mapRows_mapRows]
  · simp only [hq, if_false]

theorem resume_eager (w : Waiting) : c.eager.resume w = c.resume w := by
  rcases w with ⟨q, _ | second⟩ | _
  · rfl
  · rfl
  · rfl

theorem step_eager (event : Event) : c.eager.step event = ((c.step event).1, (c.step event).2.eager) := by
  cases event with
  | get now key => exact congrArg (Prod.map Answer.reply id) (c.get_eager now key)
  | login now key => exact congrArg (Prod.map Answer.reply id) (c.login_eager now key)
  | refreshHandle key =>
    obtain ⟨hhandle, hcache⟩ := c.refreshHandle_eager key
    exact Prod.ext (congrArg Answer.handle hhandle) hcache
  | record p => exact congrArg (Prod.mk _) (c.record_eager p)
  | recordFor key p => exact congrArg (Prod.mk _) (c.recordFor_eager key p)
  | clearWhere match? => exact congrArg (Prod.map Answer.count id) (c.clearWhere_eager match?)
  | purge now online => exact congrArg (Prod.map Answer.count id) (c.purge_eager now online)
  | contains key =>
    have hcontains : decide (key ∈ c.eager.entries) = c.contains key := by
      rw [Bool.eq_iff_iff, decide_eq_true_iff, Table.mem_def, keys_eager]
      exact Table.contains_iff.symm
    exact congrArg (fun b => (Answer.flag b, c.eager)) hcontains
  | size => exact congrArg (fun n => (Answer.count n, c.eager)) (Table.size_mapRows _ _)
  | complete q v => exact congrArg (Prod.mk _) (c.complete_eager q v)
  | resume w => exact congrArg (fun r => (Answer.reply r, c.eager)) (c.resume_eager w)

theorem trace_eager (events : List Event) : c.trace events = c.eager.trace events := by
  induction events generalizing c with
  | nil => rfl
  | cons event events ih =>
    simp only [trace, Eager.trace, c.step_eager event, ih]
    rfl

/-- Whatever happens, no one who calls the cache can tell whether it takes refreshes over late or at once. At each
event both give the same answer, and afterwards they have made the same inquiries for the same purposes. -/
theorem trace_eq_eager (config : Config) (events : List Event) :
    (ofConfig config).trace events = (Eager.ofConfig config).trace events :=
  (ofConfig config).trace_eager events

end AlwaysAvailable

end Moderation.Mute
