import Moderation.Proofs.Mute.ReadingRoom
import Moderation.Proofs.Store.Applicable
/-!
# What a sweep shows

A sweep removes entries that have expired, which a look-up would not have used. It can be noticed all the same, for
recording and clearing look at every entry, also at one that has expired, and what they write counts as new. As long as
nothing is written over an expired entry, look-ups are answered alike with the sweep and without it; and if something
is, `sweep_shows_iff` says exactly when the next look-up is not.

When queries complete at once, all that matters about a visitor's entry is its value and its age: its *slot*. Whatever
is called acts on each visitor's slot alone (`OnDemand.Shows.after`), so two caches can be compared slot by slot.
-/

namespace Moderation

/-- A mute that the store names is not over. -/
theorem Store.not_expired_applicableMute (s : Store) (now : Seconds) (key : Visitor) :
    ∀ p ∈ s.applicableMute now key, ¬p.ExpiredAt now :=
  fun _ hp => (applicableMute_eq_some hp).2.1.2.1

namespace Mute

/-! ## Calls -/

namespace Cache

inductive Act where
  /-- A visitor is looked up, and `store` answers what is asked of it. -/
  | get (store : Store) (key : Visitor)
  | login (key : Visitor)
  | record (p : Punishment)
  | recordFor (key : Visitor) (p : Punishment)
  /-- Mutes are cleared: by their name, by their number, or by whatever else is said of them. -/
  | clearWhere (match? : Punishment → Bool)
  | sweep (online : Uuid → Bool)

/-- After this no entry of the visitor is left that had expired: it is looked up or comes in, or the cache is swept. -/
def Act.Renews (key : Visitor) : Act → Prop
  | .get _ k | .login k => k = key
  | .sweep _ => True
  | .record _ | .recordFor _ _ | .clearWhere _ => False

/-- The visitor is looked up or comes in. -/
def Act.Meets (key : Visitor) : Act → Prop
  | .get _ k | .login k => k = key
  | .sweep _ | .record _ | .recordFor _ _ | .clearWhere _ => False

instance (key : Visitor) : ∀ act : Act, Decidable (act.Meets key)
  | .get _ k | .login k => inferInstanceAs (Decidable (k = key))
  | .sweep _ | .record _ | .recordFor _ _ | .clearWhere _ => inferInstanceAs (Decidable False)

theorem Act.Meets.renews {key : Visitor} {act : Act} (h : act.Meets key) : act.Renews key := by
  cases act with
  | get | login => exact h
  | record | recordFor | clearWhere | sweep => exact h.elim

/-- What is answered to a look-up of the visitor. -/
def answerTo (key : Visitor) (now : Moment) (c : Cache) : Act → Option (Option Punishment)
  | .get store k => if k = key then some (c.consult now (store.applicableMute now.second) k).1 else none
  | _ => none

def after (now : Moment) (c : Cache) : Act → Cache
  | .get store key => (c.consult now (store.applicableMute now.second) key).2
  | .login key => (c.login now key).2
  | .record p => c.record now p
  | .recordFor key p => c.recordFor now key p
  | .clearWhere match? => (c.clearWhere now match?).2
  | .sweep online => (c.sweep now online).2

def run (c : Cache) (calls : List (Moment × Act)) : Cache := calls.foldl (fun c call => c.after call.1 call.2) c

/-- What is answered to each look-up of the visitor. -/
def answersTo (key : Visitor) (c : Cache) : List (Moment × Act) → List (Option Punishment)
  | [] => []
  | (now, act) :: calls => (c.answerTo key now act).toList ++ answersTo key (c.after now act) calls

end Cache

open Cache (Act)

/-! ## Slots -/

/-- The value that is held for a visitor, and how old it is. -/
structure Slot where
  value : Option Punishment
  written : Timestamp
  accessed : Timestamp
deriving DecidableEq

namespace Slot

def new (v : Option Punishment) (now : Timestamp) : Slot := ⟨v, now, now⟩

def Expired (policy : ExpirationPolicy) (now : Timestamp) (s : Slot) : Prop :=
  policy.Expired s.written s.accessed now

instance (policy : ExpirationPolicy) (now : Timestamp) (s : Slot) : Decidable (s.Expired policy now) :=
  inferInstanceAs (Decidable (policy.Expired _ _ _))

/-- The slot has not expired, and its value is not over. -/
def Usable (policy : ExpirationPolicy) (now : Moment) (s : Slot) : Prop :=
  ¬s.Expired policy now.steady ∧ ¬∃ p ∈ s.value, p.ExpiredAt now.second

instance (policy : ExpirationPolicy) (now : Moment) (s : Slot) : Decidable (s.Usable policy now) :=
  inferInstanceAs (Decidable (_ ∧ ¬∃ p ∈ s.value, p.ExpiredAt now.second))

/-- What a look-up answers and leaves, if the store's answer is `v`. -/
def lookUp (policy : ExpirationPolicy) (now : Moment) (v : Option Punishment) : Option Slot → Option Punishment × Slot
  | some s => if s.Usable policy now then (s.value, { s with accessed := now.steady }) else (v, new v now.steady)
  | none => (v, new v now.steady)

theorem lookUp_of_usable {policy : ExpirationPolicy} {now : Moment} {s : Slot} (h : s.Usable policy now)
    (v : Option Punishment) : lookUp policy now v (some s) = (s.value, { s with accessed := now.steady }) := if_pos h

theorem lookUp_of_not_usable {policy : ExpirationPolicy} {now : Moment} {s : Slot} (h : ¬s.Usable policy now)
    (v : Option Punishment) : lookUp policy now v (some s) = (v, new v now.steady) := if_neg h

def merge (now : Timestamp) (p : Punishment) (s : Slot) : Slot :=
  if s.value = some (Punishment.later s.value p) then s else new (some (Punishment.later s.value p)) now

def clear (now : Timestamp) (match? : Punishment → Bool) (s : Slot) : Slot :=
  if s.value.any match? then new none now else s

/-- What becomes of the visitor's slot. -/
def after (policy : ExpirationPolicy) (key : Visitor) (now : Moment) (s : Option Slot) : Act → Option Slot
  | .get store k => if key = k then some (lookUp policy now (store.applicableMute now.second k) s).2 else s
  | .login k => if key = k then none else s
  | .record p => if p.kind = .mute ∧ p.victim.Covers key then s.map (merge now.steady p) else s
  | .recordFor k p => if p.kind = .mute ∧ key = k then s.map (merge now.steady p) else s
  | .clearWhere match? => s.map (clear now.steady match?)
  | .sweep _ => s.filter fun s => !decide (s.Expired policy now.steady)

def run (policy : ExpirationPolicy) (key : Visitor) (s : Option Slot) (calls : List (Moment × Act)) : Option Slot :=
  calls.foldl (fun s call => after policy key call.1 s call.2) s

/-- What is answered to a look-up of the visitor. -/
def answer? (policy : ExpirationPolicy) (key : Visitor) (now : Moment) (s : Option Slot) :
    Act → Option (Option Punishment)
  | .get store k => if k = key then some (lookUp policy now (store.applicableMute now.second k) s).1 else none
  | _ => none

def answers (policy : ExpirationPolicy) (key : Visitor) : Option Slot → List (Moment × Act) → List (Option Punishment)
  | _, [] => []
  | s, (now, act) :: calls =>
    (answer? policy key now s act).toList ++ answers policy key (after policy key now s act) calls

/-- The slot is left as it is, until the visitor is looked up or comes in or the cache is swept. -/
def Spared (policy : ExpirationPolicy) (key : Visitor) (s : Slot) : List (Moment × Act) → Prop
  | [] => True
  | (now, act) :: calls => act.Renews key ∨ after policy key now (some s) act = some s ∧ s.Spared policy key calls

end Slot

namespace OnDemand

variable {c c' : OnDemand} {now : Moment} {key : Visitor} {v : Option Punishment} {e : Entry} {l : Ledger}

def Entry.slot? (l : Ledger) (e : Entry) : Option Slot := (e.value? l).map fun v => ⟨v, e.written, e.accessed⟩

/-- The slot of a visitor with an entry whose value is there. -/
def slot? (c : OnDemand) (key : Visitor) : Option Slot := (c.entries.get? key).bind (Entry.slot? c.ledger)

/-- No entry waits for the store. -/
def Settled (c : OnDemand) : Prop := ∀ key, ∀ e ∈ c.entries.get? key, (e.value? c.ledger).isSome

theorem Entry.slot?_merge (l : Ledger) (now : Timestamp) (p : Punishment) (e : Entry) (id : Nat) :
    (e.merge l now p id).1.slot? l = (e.slot? l).map (Slot.merge now p) := by
  cases hv : e.value? l with
  | none => simp only [merge, hv, slot?, Option.map_none]
  | some v =>
    simp only [merge, hv, slot?, Option.map_some, Slot.merge]
    split
    · rw [hv, Option.map_some]
    · rfl

theorem Entry.slot?_clear (l : Ledger) (now : Timestamp) (match? : Punishment → Bool) (e : Entry) (id : Nat) :
    (e.clear l now match? id).1.slot? l = (e.slot? l).map (Slot.clear now match?) := by
  cases hv : e.value? l with
  | none => simp [clear, holds, hv, slot?]
  | some v =>
    rw [clear_of_value? hv]
    simp only [slot?, hv, Option.map_some, Slot.clear]
    split
    · rfl
    · rw [hv, Option.map_some]

/-! ## Idle caches -/

/-- What an entry waits for is an inquiry that was made. -/
def Linked (c : OnDemand) : Prop := ∀ key, ∀ e ∈ c.entries.get? key, ∀ q, e.source = .asked q → q < c.ledger.size

theorem Linked.filter (h : c.Linked) (keep : Visitor → Entry → Bool) :
    Linked { c with entries := c.entries.filter keep } := by
  intro key e he
  rw [Option.mem_def, Table.get?_filter, Option.filter_eq_some_iff] at he
  exact h key e he.1

theorem Linked.ask (h : c.Linked) (now : Timestamp) (key : Visitor) : (c.ask now key).2.Linked := by
  have hsize : (c.ask now key).2.ledger.size = c.ledger.size + 1 := Array.size_push _
  intro k e he q hq
  rw [hsize]
  simp only [OnDemand.ask, Option.mem_def, Table.get?_insert] at he
  split at he
  · obtain rfl := Option.some.inj he
    obtain rfl := Source.asked.inj hq
    exact Nat.lt_succ_self _
  · exact Nat.lt_succ_of_lt (h k e he q hq)

theorem Linked.load (h : c.Linked) (now : Timestamp) (key : Visitor) : (c.load now key).2.Linked := by
  unfold OnDemand.load
  split
  · next e he =>
    split
    · exact h.ask now key
    · intro k e' he'
      rw [Option.mem_def, Table.get?_insert] at he'
      split at he'
      · next hk =>
        obtain rfl := Option.some.inj he'
        exact h k e (hk ▸ he)
      · exact h k e' he'
  · exact h.ask now key

theorem Linked.turn (h : c.Linked) (now : Timestamp) (r : Reader) : (r.turn now c).2.Linked := by
  unfold Reader.turn
  split
  · exact h
  · exact h.load now r.key
  · split <;> exact h
  · exact h.filter _
  · exact h

theorem Linked.of_change (h : c.Linked) (hchange : Change c c') : c'.Linked := by
  cases hchange with
  | turn r now => exact h.turn now r
  | removed keep => exact h.filter keep
  | rewritten now hf =>
    intro key e' he' q hq
    obtain ⟨id, hid⟩ := Table.exists_get?_scan _ c.entries c.nextId key
    obtain ⟨e, he, rfl⟩ := Option.map_eq_some_iff.1 (hid.symm.trans he')
    rcases hf key e id with hsame | ⟨v, hnew⟩
    · exact h key e he q (by rwa [hsame] at hq)
    · rw [hnew] at hq
      cases hq
  | answered q v =>
    have hsize : (c.complete q v).ledger.size = c.ledger.size := Array.size_modify
    intro key e he q' hq'
    exact hsize ▸ h key e he q' hq'
  | same => exact h

end OnDemand

namespace ReadingRoom

theorem linked_run (config : Config) (events : List Event) : ((ofConfig config).run events).cache.Linked := by
  induction events using List.reverseRecOn with
  | nil =>
    intro key e he
    cases he
  | append_singleton events event ih =>
    rw [run_concat]
    exact ih.of_change (((ofConfig config).run events).change_step event)

/-- When no inquiry is pending, no entry waits for the store. -/
theorem settled_of_idle (config : Config) (events : List Event)
    (hidle : ((ofConfig config).run events).cache.ledger.pending = []) :
    ((ofConfig config).run events).cache.Settled := by
  intro key e he
  unfold OnDemand.Entry.value?
  cases hsource : e.source with
  | known v => rfl
  | asked q =>
    obtain ⟨i, hi⟩ : ∃ i, ((ofConfig config).run events).cache.ledger.inquiries[q]? = some i :=
      ⟨_, Array.getElem?_eq_getElem (linked_run config events key e he q hsource)⟩
    simp only [OnDemand.Source.value?, Ledger.answer?_of_getElem? hi]
    refine Option.isSome_iff_ne_none.2 fun hanswer => ?_
    have hpending := Ledger.mem_pending.2 ⟨i, hi, hanswer, rfl⟩
    rw [hidle] at hpending
    cases hpending

end ReadingRoom

namespace OnDemand

variable {c c' : OnDemand} {now : Moment} {key : Visitor} {v : Option Punishment} {e : Entry} {l : Ledger}

/-! ## What each call does to a slot -/

theorem slot?_login (c : OnDemand) (k key : Visitor) :
    (c.login k).slot? key = if key = k then none else c.slot? key := by
  simp only [slot?, login, Table.get?_filter]
  cases c.entries.get? key with
  | none => simp
  | some e =>
    by_cases hk : key = k
    · cases hv : e.value? c.ledger <;> simp [hk, hv, Option.filter_some, Entry.slot?]
    · simp [hk, Option.filter_some]

@[simp] theorem policy_recordFor (c : OnDemand) (now : Timestamp) (key : Visitor) (p : Punishment) :
    (c.recordFor now key p).policy = c.policy := by
  unfold recordFor
  split <;> rfl

theorem slot?_of_merge {now : Timestamp} {p : Punishment} {P : Prop} [Decidable P] (hledger : c'.ledger = c.ledger)
    (h : ∃ id, c'.entries.get? key = (c.entries.get? key).map fun e =>
      if P then (e.merge c.ledger now p id).1 else e) :
    c'.slot? key = if P then (c.slot? key).map (Slot.merge now p) else c.slot? key := by
  obtain ⟨id, h⟩ := h
  rw [slot?, slot?, h, hledger]
  cases c.entries.get? key with
  | none => simp
  | some e => split <;> simp [*, Entry.slot?_merge]

theorem slot?_clearWhere (c : OnDemand) (now : Timestamp) (match? : Punishment → Bool) (key : Visitor) :
    (c.clearWhere now match?).2.slot? key = (c.slot? key).map (Slot.clear now match?) := by
  obtain ⟨id, hid⟩ := c.exists_get?_clearWhere now match? key
  have hledger : (c.clearWhere now match?).2.ledger = c.ledger := rfl
  rw [slot?, slot?, hid, hledger]
  cases c.entries.get? key with
  | none => rfl
  | some e => exact e.slot?_clear c.ledger now match? id

theorem slot?_evict (c : OnDemand) (now : Timestamp) (key : Visitor) :
    (c.evict now).2.slot? key = (c.slot? key).filter fun s => !decide (s.Expired c.policy now) := by
  simp only [slot?, evict, Table.get?_filter]
  cases c.entries.get? key with
  | none => rfl
  | some e =>
    by_cases hexp : c.Expired now e <;> cases hv : e.value? c.ledger <;>
      simp_all [Option.filter_some, Entry.slot?, Slot.Expired, Expired]

theorem isSome_slot? (hc : c.Settled) (key : Visitor) : (c.slot? key).isSome = (c.entries.get? key).isSome := by
  cases he : c.entries.get? key with
  | none => simp [slot?, he]
  | some e => simpa [slot?, he, Entry.slot?] using hc key e he

theorem settled_of_isSome (h : ∀ key, (c.entries.get? key).isSome → (c.slot? key).isSome) : c.Settled := by
  intro key e he
  have hsome := h key (by rw [Option.mem_def.1 he]; rfl)
  rwa [slot?, Option.mem_def.1 he, Option.bind_some, Entry.slot?, Option.isSome_map] at hsome

theorem Settled.filter (hc : c.Settled) (keep : Visitor → Entry → Bool) :
    Settled { c with entries := c.entries.filter keep } := by
  intro key e he
  rw [Option.mem_def, Table.get?_filter, Option.filter_eq_some_iff] at he
  exact hc key e he.1

theorem Settled.of_merge {now : Timestamp} {p : Punishment} {P : Visitor → Prop} [DecidablePred P] (hc : c.Settled)
    (hledger : c'.ledger = c.ledger) (h : ∀ key, ∃ id, c'.entries.get? key = (c.entries.get? key).map fun e =>
      if P key then (e.merge c.ledger now p id).1 else e) : c'.Settled := by
  refine settled_of_isSome fun key hsome => ?_
  obtain ⟨id, hid⟩ := h key
  rw [hid, Option.isSome_map, ← isSome_slot? hc] at hsome
  rw [slot?_of_merge hledger (h key)]
  split
  · rwa [Option.isSome_map]
  · exact hsome

theorem Settled.clearWhere (hc : c.Settled) (now : Timestamp) (match? : Punishment → Bool) :
    (c.clearWhere now match?).2.Settled := by
  refine settled_of_isSome fun key hsome => ?_
  obtain ⟨id, hid⟩ := c.exists_get?_clearWhere now match? key
  rw [hid, Option.isSome_map, ← isSome_slot? hc] at hsome
  rwa [slot?_clearWhere, Option.isSome_map]

/-- Answers that come in later change nothing of what is settled. -/
theorem Settled.answers (hc : c.Settled) (h : ∀ q v, c.ledger.answer? q = some v → l.answer? q = some v) :
    Settled { c with ledger := l } ∧ ∀ key, ({ c with ledger := l } : OnDemand).slot? key = c.slot? key := by
  have hvalue : ∀ key, ∀ e ∈ c.entries.get? key, e.value? l = e.value? c.ledger := by
    intro key e he
    obtain ⟨v, hv⟩ := Option.isSome_iff_exists.1 (hc key e he)
    rw [hv, Entry.value?_mono h hv]
  refine ⟨fun key e he => ?_, fun key => ?_⟩
  · rw [hvalue key e he]
    exact hc key e he
  · simp only [slot?]
    cases he : c.entries.get? key with
    | none => rfl
    | some e => simp only [Option.bind_some, Entry.slot?, hvalue key e he]

/-! ## Look-ups -/

/-- The store has answered all that it was asked. -/
def answered (store : Visitor → Option Punishment) (c : OnDemand) : OnDemand :=
  { c with ledger := c.ledger.completeFirst store c.ledger.pending.length }

theorem answer?_answered {store : Visitor → Option Punishment} {q : InquiryId} (h : c.ledger.answer? q = some v) :
    (c.answered store).ledger.answer? q = some v := by
  obtain ⟨i, hi, hanswer⟩ := Option.bind_eq_some_iff.1 h
  exact (Ledger.answer?_completeAll hi).trans (by rw [hanswer, Option.getD_some])

theorem ask_spec (hc : c.Settled) (now : Timestamp) (key : Visitor) (store : Visitor → Option Punishment) :
    ((c.ask now key).2.answered store).Settled ∧ ∀ k, ((c.ask now key).2.answered store).slot? k =
      if k = key then some (.new (store key) now) else c.slot? k := by
  have hget (k : Visitor) : ((c.ask now key).2.answered store).entries.get? k =
      if k = key then some (c.ask now key).1 else c.entries.get? k := Table.get?_insert _ _ _ k
  have hnew : (c.ask now key).1.value? ((c.ask now key).2.answered store).ledger = some (store key) :=
    Ledger.answer?_completeAll (c.ledger.inquiries_start key .entry)
  have hold := hc.answers (l := ((c.ask now key).2.answered store).ledger) fun q v hv =>
    answer?_answered ((c.ledger.answer?_start key .entry q).trans hv)
  have hslot (k : Visitor) : ((c.ask now key).2.answered store).slot? k =
      if k = key then some (.new (store key) now) else c.slot? k := by
    rw [slot?, hget]
    split
    · rw [Option.bind_some, Entry.slot?, hnew]
      rfl
    · exact hold.2 k
  refine ⟨settled_of_isSome fun k hsome => ?_, hslot⟩
  rw [hget] at hsome
  rw [hslot]
  split at hsome
  · next hk => rw [if_pos hk, Option.isSome_some]
  · next hk => rwa [if_neg hk, isSome_slot? hc]

/-- The visitor's entry `e` has been wanted. -/
def touch (c : OnDemand) (now : Timestamp) (key : Visitor) (e : Entry) : OnDemand :=
  { c with entries := c.entries.insert key { e with accessed := now } }

theorem touch_spec (hc : c.Settled) (he : c.entries.get? key = some e) (now : Timestamp) :
    (c.touch now key e).Settled ∧ ∀ k, (c.touch now key e).slot? k =
      if k = key then (c.slot? key).map fun s => { s with accessed := now } else c.slot? k := by
  have hget (k : Visitor) : (c.touch now key e).entries.get? k =
      if k = key then some { e with accessed := now } else c.entries.get? k := Table.get?_insert _ _ _ k
  have hslot (k : Visitor) : (c.touch now key e).slot? k =
      if k = key then (c.slot? key).map fun s => { s with accessed := now } else c.slot? k := by
    rw [slot?, hget]
    split
    · rw [slot?, he, Option.bind_some, Option.bind_some, Entry.slot?, Entry.slot?, Option.map_map]
      rfl
    · rfl
  refine ⟨settled_of_isSome fun k hsome => ?_, hslot⟩
  rw [hslot]
  split
  · rw [Option.isSome_map, isSome_slot? hc, he]
    rfl
  · next hk => rwa [isSome_slot? hc, ← (hget k).trans (if_neg hk)]

theorem Settled.answered (hc : c.Settled) (store : Visitor → Option Punishment) :
    (c.answered store).Settled ∧ ∀ key, (c.answered store).slot? key = c.slot? key :=
  hc.answers fun _ _ => answer?_answered

/-- Nothing is under way in the cache, and it has the slots `slots`. -/
inductive Shows (policy : ExpirationPolicy) (slots : Visitor → Option Slot) : Cache → Prop
  | intro {c : OnDemand} (policy_eq : c.policy = policy) (settled : c.Settled) (slot?_eq : ∀ k, c.slot? k = slots k) :
    Shows policy slots (.onDemand c)

theorem Shows.congr {policy : ExpirationPolicy} {slots slots' : Visitor → Option Slot} {c : Cache}
    (h : Shows policy slots c) (hslots : ∀ k, slots k = slots' k) : Shows policy slots' c := funext hslots ▸ h

/-- A look-up that asks the store is answered by it, and leaves its answer. -/
theorem consult_of_asked {again : Nat} {store : Visitor → Option Punishment} (hc : c'.Settled)
    (hget : c.get now key =
      (.later (.reading c'.ledger.size key c'.nextId now.second again), (c'.ask now.steady key).2))
    (hstore : ∀ p ∈ store key, ¬p.ExpiredAt now.second) :
    ((Cache.onDemand c).consult now store key).1 = store key ∧
      Shows c'.policy (fun k => if k = key then some (.new (store key) now.steady) else c'.slot? k)
        ((Cache.onDemand c).consult now store key).2 := by
  obtain ⟨hsettled, hslot⟩ := ask_spec hc now.steady key store
  obtain ⟨hsettled', hslot'⟩ := hsettled.answered store
  have hanswer : ((c'.ask now.steady key).2.answered store).ledger.answer? c'.ledger.size = some (store key) :=
    Ledger.answer?_completeAll (c'.ledger.inquiries_start key .entry)
  have hlive : ¬∃ p ∈ store key, p.ExpiredAt now.second := fun ⟨p, hp, hover⟩ => hstore p hp hover
  have hresume : ((c'.ask now.steady key).2.answered store).resume now.steady
      (.reading c'.ledger.size key c'.nextId now.second again) =
        (.value (store key), (c'.ask now.steady key).2.answered store) := by
    simp only [resume, hanswer, hlive, if_false]
  have hconsult : (Cache.onDemand c).consult now store key = Cache.finish now store 2
      (((c'.ask now.steady key).2.answered store).resume now.steady
        (.reading c'.ledger.size key c'.nextId now.second again)).1
      (.onDemand (((c'.ask now.steady key).2.answered store).resume now.steady
        (.reading c'.ledger.size key c'.nextId now.second again)).2) := by
    simp only [Cache.consult, Cache.get, hget]
    rfl
  rw [hconsult, hresume]
  exact ⟨rfl, .intro rfl hsettled' fun k => (hslot' k).trans (hslot k)⟩

theorem slot?_dropEntry_of_ne {k : Visitor} (hk : k ≠ key) (id : Nat) : (c.dropEntry key id).slot? k = c.slot? k := by
  simp only [slot?, dropEntry, Table.get?_filter, hk, false_and, decide_false, Bool.not_false]
  cases c.entries.get? k <;> rfl

/-- A look-up that can use what is held asks nothing. -/
theorem consult_of_usable (he : c.entries.get? key = some e) (hv : e.value? c.ledger = some v)
    (h : Slot.Usable c.policy now ⟨v, e.written, e.accessed⟩) (store : Visitor → Option Punishment) :
    (Cache.onDemand c).consult now store key = (v, .onDemand ((c.touch now.steady key e).answered store)) := by
  have hread := read_eq_of_held he h.1 hv (fun p hp hover => h.2 ⟨p, hp, hover⟩) 1
  simp only [Cache.consult, Cache.get, get, hread, Prod.map, id]
  rfl

/-- A look-up that finds a value that is over removes the entry and asks the store. -/
theorem get_of_ended (he : c.entries.get? key = some e) (hexp : ¬c.Expired now.steady e)
    (hv : e.value? c.ledger = some v) (hover : ∃ p ∈ v, p.ExpiredAt now.second) :
    let dropped := (c.touch now.steady key e).dropEntry key e.id
    c.get now key = (.later (.reading dropped.ledger.size key dropped.nextId now.second 0),
      (dropped.ask now.steady key).2) := by
  intro dropped
  have hload : c.load now.steady key = ({ e with accessed := now.steady }, c.touch now.steady key e) := by
    simp only [load, he, hexp, if_false, touch]
  have habsent : dropped.entries.get? key = none := by
    simp [dropped, dropEntry, touch, Table.get?_filter, Table.get?_insert]
  have hagain : dropped.load now.steady key = dropped.ask now.steady key := by simp only [load, habsent]
  exact (read_of_value hload hv 1).trans ((if_pos hover).trans (read_of_load hagain now.second 0))

/-- A look-up uses what the visitor's slot says, and leaves other slots alone. -/
theorem consult_spec (hc : c.Settled) {store : Visitor → Option Punishment}
    (hstore : ∀ p ∈ store key, ¬p.ExpiredAt now.second) :
    ((Cache.onDemand c).consult now store key).1 = (Slot.lookUp c.policy now (store key) (c.slot? key)).1 ∧
      Shows c.policy
        (fun k => if k = key then some (Slot.lookUp c.policy now (store key) (c.slot? key)).2 else c.slot? k)
        ((Cache.onDemand c).consult now store key).2 := by
  cases he : c.entries.get? key with
  | none =>
    have hslot : c.slot? key = none := by rw [slot?, he, Option.bind_none]
    have hload : c.load now.steady key = c.ask now.steady key := by simp only [load, he]
    rw [hslot]
    exact consult_of_asked hc (read_of_load hload now.second 1) hstore
  | some e =>
    obtain ⟨v, hv⟩ := Option.isSome_iff_exists.1 (hc key e he)
    have hslot : c.slot? key = some ⟨v, e.written, e.accessed⟩ := by
      rw [slot?, he, Option.bind_some, Entry.slot?, hv, Option.map_some]
    obtain ⟨htouched, htouched'⟩ := touch_spec hc he now.steady
    by_cases husable : Slot.Usable c.policy now ⟨v, e.written, e.accessed⟩
    · obtain ⟨hsettled, hanswered⟩ := htouched.answered store
      rw [consult_of_usable he hv husable store, hslot, Slot.lookUp_of_usable husable]
      refine ⟨rfl, .intro rfl hsettled fun k => ?_⟩
      rw [hanswered, htouched', hslot]
      rfl
    · rw [hslot, Slot.lookUp_of_not_usable husable]
      by_cases hexp : c.Expired now.steady e
      · exact consult_of_asked hc (read_of_expired he hexp now.second 1) hstore
      · have hover : ∃ p ∈ v, p.ExpiredAt now.second := not_not.1 fun hlive => husable ⟨hexp, hlive⟩
        have hdropped : ((c.touch now.steady key e).dropEntry key e.id).Settled := htouched.filter _
        obtain ⟨hanswer, hshows⟩ := consult_of_asked hdropped (get_of_ended he hexp hv hover) hstore
        refine ⟨hanswer, hshows.congr fun k => ?_⟩
        -- What was dropped and what is put in its place is the entry of this visitor.
        split
        · rfl
        · next hk => rw [slot?_dropEntry_of_ne hk, htouched', if_neg hk]

/-! ## Calls act on slots -/

variable {policy : ExpirationPolicy} {slots : Visitor → Option Slot} {act : Act}

theorem Shows.after {c : Cache} (h : Shows policy slots c) (now : Moment) (act : Act) :
    Shows policy (fun key => Slot.after policy key now (slots key) act) (c.after now act) := by
  obtain ⟨rfl, hsettled, hslots⟩ := h
  next c =>
  obtain rfl : c.slot? = slots := funext hslots
  cases act with
  | get store k =>
    refine (consult_spec hsettled (store.not_expired_applicableMute now.second k)).2.congr fun key => ?_
    simp only [Slot.after]
    split
    · next hk => rw [hk]
    · rfl
  | login k => exact .intro rfl (hsettled.filter _) (c.slot?_login k)
  | record p =>
    have hget := c.exists_get?_record now.steady p
    have hledger := c.ledger_record now.steady p
    exact .intro (c.policy_record now.steady p) (hsettled.of_merge hledger hget) fun key =>
      slot?_of_merge hledger (hget key)
  | recordFor k p =>
    have hget := c.exists_get?_recordFor now.steady k p
    have hledger := c.ledger_recordFor now.steady k p
    exact .intro (c.policy_recordFor now.steady k p) (hsettled.of_merge hledger hget) fun key =>
      slot?_of_merge hledger (hget key)
  | clearWhere match? => exact .intro rfl (hsettled.clearWhere now.steady match?) (c.slot?_clearWhere now.steady match?)
  | sweep online => exact .intro rfl (hsettled.filter _) (c.slot?_evict now.steady)

theorem Shows.answerTo {c : Cache} (h : Shows policy slots c) (key : Visitor) (now : Moment) (act : Act) :
    c.answerTo key now act = Slot.answer? policy key now (slots key) act := by
  obtain ⟨rfl, hsettled, hslots⟩ := h
  next c =>
  obtain rfl : c.slot? = slots := funext hslots
  cases act with
  | get store k =>
    simp only [Cache.answerTo, Slot.answer?]
    split
    · next hk =>
      subst hk
      rw [(consult_spec hsettled (store.not_expired_applicableMute now.second k)).1]
    · rfl
  | login | record | recordFor | clearWhere | sweep => rfl

theorem Shows.consult {c : Cache} (h : Shows policy slots c) (now : Moment) (store : Store) (key : Visitor) :
    (c.consult now (store.applicableMute now.second) key).1 =
      (Slot.lookUp policy now (store.applicableMute now.second key) (slots key)).1 := by
  have hanswer := h.answerTo key now (.get store key)
  simpa only [Cache.answerTo, Slot.answer?, if_true, Option.some.injEq] using hanswer

theorem Shows.run {c : Cache} (h : Shows policy slots c) (calls : List (Moment × Act)) :
    Shows policy (fun key => Slot.run policy key (slots key) calls) (c.run calls) := by
  induction calls generalizing c slots with
  | nil => exact h
  | cons call calls ih => exact ih (h.after call.1 call.2)

theorem Shows.answersTo {c : Cache} (h : Shows policy slots c) (key : Visitor) (calls : List (Moment × Act)) :
    c.answersTo key calls = Slot.answers policy key (slots key) calls := by
  induction calls generalizing c slots with
  | nil => rfl
  | cons call calls ih =>
    obtain ⟨now, act⟩ := call
    rw [Cache.answersTo, Slot.answers, h.answerTo key now act, ih (h.after now act)]

theorem Shows.serves_iff {c : Cache} (h : Shows policy slots c) (now : Moment) (key : Visitor)
    (w : Option Punishment) :
    c.Serves now key w ↔ ∃ s, slots key = some s ∧ ¬s.Expired policy now.steady ∧ s.value = w := by
  obtain ⟨rfl, hsettled, hslots⟩ := h
  next c =>
  rw [← hslots key, slot?, Cache.Serves, Serves]
  cases he : c.entries.get? key with
  | none => simp
  | some e =>
    obtain ⟨v, hv⟩ := Option.isSome_iff_exists.1 (hsettled key e he)
    simp only [Option.mem_def, Option.some.injEq, exists_eq_left', Option.bind_some, Entry.slot?, hv, Option.map_some]
    exact Iff.rfl

end OnDemand

/-! ## Slots that a sweep removes -/

namespace Slot

variable {policy : ExpirationPolicy} {key : Visitor} {now : Moment} {s : Slot} {act : Act} {t : Timestamp}

/-- What has expired stays so. -/
theorem Expired.mono (h : s.Expired policy t) {t' : Timestamp} (ht : t ≤ t') : s.Expired policy t' := by
  have hle : t.toNat ≤ t'.toNat := UInt64.le_iff_toNat_le.1 ht
  unfold Expired at h ⊢
  cases policy <;> simp only [ExpirationPolicy.Expired, Timestamp.since] at h ⊢ <;> omega

/-- A look-up does not use what has expired. -/
theorem lookUp_of_expired (h : s.Expired policy now.steady) (v : Option Punishment) :
    lookUp policy now v (some s) = lookUp policy now v none := lookUp_of_not_usable (fun husable => husable.1 h) v

/-- A look-up is answered otherwise than by the store if there is something else that can be used. -/
theorem lookUp_ne_iff (slot : Option Slot) (v : Option Punishment) : (lookUp policy now v slot).1 ≠ v ↔
    ∃ w, (∃ s, slot = some s ∧ ¬s.Expired policy now.steady ∧ s.value = w) ∧ (∀ p ∈ w, ¬p.ExpiredAt now.second) ∧
      w ≠ v := by
  cases slot with
  | none => simp [lookUp]
  | some s =>
    by_cases husable : s.Usable policy now
    · rw [lookUp_of_usable husable]
      constructor
      · intro hother
        exact ⟨s.value, ⟨s, rfl, husable.1, rfl⟩, fun p hp hover => husable.2 ⟨p, hp, hover⟩, hother⟩
      · rintro ⟨w, ⟨s₀, hs₀, -, rfl⟩, -, hother⟩
        obtain rfl := Option.some.inj hs₀
        exact hother
    · rw [lookUp_of_not_usable husable]
      refine iff_of_false (fun hother => hother rfl) ?_
      rintro ⟨w, ⟨s₀, hs₀, hexp, rfl⟩, hlive, -⟩
      obtain rfl := Option.some.inj hs₀
      exact husable ⟨hexp, fun ⟨p, hp, hover⟩ => hlive p hp hover⟩

theorem after_of_renews (h : s.Expired policy now.steady) (hact : act.Renews key) :
    after policy key now (some s) act = after policy key now none act ∧
      answer? policy key now (some s) act = answer? policy key now none act := by
  cases act with
  | get store k => simp only [after, answer?, lookUp_of_expired h, show k = key from hact, if_true, and_self]
  | login k => simp only [after, answer?, show k = key from hact, if_true, and_self]
  | sweep => simp only [after, answer?, h, decide_true, Bool.not_true, Option.filter_some, Option.filter_none,
      Bool.false_eq_true, if_false, and_self]
  | record | recordFor | clearWhere => exact hact.elim

/-- Where no entry is, none is made until the visitor is looked up. -/
theorem after_none (hact : ¬act.Meets key) : after policy key now none act = none := by
  cases act with
  | get store k => exact if_neg (Ne.symm hact)
  | login k => exact ite_self _
  | record | recordFor => exact ite_self _
  | clearWhere | sweep => rfl

theorem answer?_of_not_meets (hact : ¬act.Meets key) (s : Option Slot) : answer? policy key now s act = none := by
  cases act with
  | get store k => exact if_neg hact
  | login | record | recordFor | clearWhere | sweep => rfl

/-- An expired slot that nothing is written over is as good as none. -/
theorem answers_of_spared {calls : List (Moment × Act)} (h : s.Expired policy t)
    (hlater : ∀ call ∈ calls, t ≤ call.1.steady) (hspared : s.Spared policy key calls) :
    answers policy key (some s) calls = answers policy key none calls := by
  induction calls with
  | nil => rfl
  | cons call calls ih =>
    obtain ⟨now, act⟩ := call
    have hexp : s.Expired policy now.steady := h.mono (hlater _ List.mem_cons_self)
    rcases hspared with hrenews | ⟨hsame, hspared⟩
    · obtain ⟨hafter, hanswer⟩ := after_of_renews hexp hrenews
      rw [answers, answers, hafter, hanswer]
    · by_cases hmeets : act.Meets key
      · obtain ⟨hafter, hanswer⟩ := after_of_renews hexp hmeets.renews
        rw [answers, answers, hafter, hanswer]
      · rw [answers, answers, hsame, after_none hmeets, answer?_of_not_meets hmeets, answer?_of_not_meets hmeets,
          ih (fun call hcall => hlater call (List.mem_cons_of_mem _ hcall)) hspared]

theorem run_none {calls : List (Moment × Act)} (h : ∀ call ∈ calls, ¬call.2.Meets key) :
    run policy key none calls = none := by
  induction calls with
  | nil => rfl
  | cons call calls ih =>
    obtain ⟨hfirst, hrest⟩ := List.forall_mem_cons.1 h
    rw [run, List.foldl_cons, after_none hfirst]
    exact ih hrest

end Slot

namespace OnDemand

/-- A sweep takes away the slots that have expired. As long as such a slot of a visitor is left as it is until the
visitor is looked up or comes in, all look-ups of the visitor are answered as without the sweep. In any case the first
look-up after the sweep is answered in another way exactly if the visitor's slot had expired at the sweep and there is
something else now that can be used, which must have been written over it, and is not what the store names. -/
theorem sweep_shows_iff (config : Config) (events : List ReadingRoom.Event)
    (hidle : ((ReadingRoom.ofConfig config).run events).cache.ledger.pending = []) (t : Moment) (online : Uuid → Bool)
    (key : Visitor) (calls : List (Moment × Act)) :
    let c := ((ReadingRoom.ofConfig config).run events).cache
    let kept := Cache.onDemand c
    let swept := (kept.sweep t online).2
    ((∀ call ∈ calls, t.steady ≤ call.1.steady) →
      (∀ s, c.slot? key = some s → s.Expired c.policy t.steady → s.Spared c.policy key calls) →
        kept.answersTo key calls = swept.answersTo key calls) ∧
    ((∀ call ∈ calls, ¬call.2.Meets key) → ∀ now store,
      let store' := Store.applicableMute store now.second
      ((kept.run calls).consult now store' key).1 ≠ ((swept.run calls).consult now store' key).1 ↔
        (∃ s, c.slot? key = some s ∧ s.Expired c.policy t.steady) ∧
          ∃ v, (kept.run calls).Serves now key v ∧ (∀ p ∈ v, ¬p.ExpiredAt now.second) ∧ v ≠ store' key) := by
  intro c kept swept
  have hkept : Shows c.policy c.slot? kept := .intro rfl (ReadingRoom.settled_of_idle config events hidle) fun _ => rfl
  have hswept := hkept.after t (.sweep online)
  have hfresh {s : Slot} (hexp : ¬s.Expired c.policy t.steady) :
      (some s).filter (fun s => !decide (s.Expired c.policy t.steady)) = some s := by
    simp only [Option.filter_some, hexp, decide_false, Bool.not_false, if_true]
  have hgone {s : Slot} (hexp : s.Expired c.policy t.steady) :
      (some s).filter (fun s => !decide (s.Expired c.policy t.steady)) = none := by
    simp only [Option.filter_some, hexp, decide_true, Bool.not_true, Bool.false_eq_true, if_false]
  constructor
  · intro hlater hspared
    rw [hkept.answersTo, show swept.answersTo key calls = _ from hswept.answersTo key calls, Slot.after]
    cases hslot : c.slot? key with
    | none => rfl
    | some s =>
      by_cases hexp : s.Expired c.policy t.steady
      · rw [hgone hexp]
        exact Slot.answers_of_spared hexp hlater (hspared s hslot hexp)
      · rw [hfresh hexp]
  · intro hmeets now store store'
    rw [(hkept.run calls).consult, show (Cache.consult now store' key (swept.run calls)).1 = _ from
      (hswept.run calls).consult now store key, Slot.after]
    simp only [(hkept.run calls).serves_iff]
    cases hslot : c.slot? key with
    | none => simp
    | some s =>
      by_cases hexp : s.Expired c.policy t.steady
      · have hsome : ∃ s₀, some s = some s₀ ∧ s₀.Expired c.policy t.steady := ⟨s, rfl, hexp⟩
        rw [hgone hexp, Slot.run_none hmeets]
        exact (Slot.lookUp_ne_iff _ (store' key)).trans (and_iff_right hsome).symm
      · rw [hfresh hexp]
        simp [hexp]

/-- A mute that does not end later leaves an expired slot as it is, and then the sweep does not show. A clear writes
over it, and then the sweep shows at the next look-up. -/
theorem sweep_shows_iff_cleared :
    let key : Visitor := default
    let p : Punishment := ⟨1, .mute, .player key.user, .console, "spam", .global, 0, 0⟩
    let q : Punishment := ⟨2, .mute, .address key.address, .console, "flood", .global, 0, 1800000000⟩
    let start : Moment := ⟨1000, 1700000000000⟩
    let later : Moment := ⟨61000, 1700000060000⟩
    let store := (({} : Store).insert p).insert q
    let events : List ReadingRoom.Event :=
      [.arrive start key, .complete 0 (store.applicableMute start.second key), .turn 1000 0]
    let c := ((ReadingRoom.ofConfig { variant := .onDemand }).run events).cache
    let swept := ((Cache.onDemand c).sweep later fun _ => false).2
    let calls : List (Moment × Act) := [(later, .record q), (later, .get (store.erase 1) key)]
    let clear : List (Moment × Act) := [(later, .clearWhere fun r => r.ref = p.ref)]
    (Cache.onDemand c).answersTo key calls = swept.answersTo key calls ∧
      (((Cache.onDemand c).run clear).consult later ((store.erase 1).applicableMute later.second) key).1 ≠
        ((swept.run clear).consult later ((store.erase 1).applicableMute later.second) key).1 := by
  intro key p q start later store events c swept calls clear
  have hidle : c.ledger.pending = [] := by decide +kernel
  have hslot : c.slot? key = some ⟨some p, 1000, 1000⟩ := by decide +kernel
  obtain ⟨hsame, -⟩ := sweep_shows_iff { variant := .onDemand } events hidle later (fun _ => false) key calls
  obtain ⟨-, hshows⟩ := sweep_shows_iff { variant := .onDemand } events hidle later (fun _ => false) key clear
  constructor
  · refine hsame (by decide +kernel) fun s hs _ => ?_
    obtain rfl := Option.some.inj (hslot.symm.trans hs)
    exact .inr ⟨by decide +kernel, .inl rfl⟩
  · refine (hshows (by decide +kernel) later (store.erase 1)).2 ⟨⟨_, hslot, by decide +kernel⟩, none, ?_⟩
    exact ⟨by decide +kernel, by simp, by decide +kernel⟩

/-- The visitor has two mutes, and the one that is cached expires. It is removed from the store and cleared, and the
visitor is let through. After a sweep the visitor would have been told of the other mute. -/
theorem expired_mute_cleared :
    let key : Visitor := default
    let p : Punishment := ⟨1, .mute, .player key.user, .console, "spam", .global, 0, 0⟩
    let q : Punishment := ⟨2, .mute, .address key.address, .console, "flood", .global, 0, 1800000000⟩
    let later : Moment := ⟨61000, 1700000060000⟩
    let store := (({} : Store).insert p).insert q
    let c := (Cache.ofConfig { variant := .onDemand }).after ⟨1000, 1700000000000⟩ (.get store key)
    let swept := (c.sweep later fun _ => false).2
    let calls : List (Moment × Act) := [(later, .clearWhere fun r => r.ref = p.ref), (later, .get (store.erase 1) key)]
    c.ledger.pending = [] ∧ c.answersTo key calls = [none] ∧ swept.answersTo key calls = [some q] := by
  decide +kernel

end OnDemand

end Mute

end Moderation
