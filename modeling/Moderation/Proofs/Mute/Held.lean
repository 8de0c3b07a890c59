import Moderation.Mute.Cache
import Moderation.Proofs.Mute.Ledger
/-!
# What a cache holds

`Cache.held` is the mute that a cache holds for a visitor, whichever kind of cache it is. Clearing
changes it to none where it is what is cleared, `held_clearWhere`, and it is what a look-up answers
with while the cache has not to ask the store again.
-/

namespace Moderation.Mute

theorem unexpired_eq_self {second : Seconds} {v : Option Punishment} (h : ∀ p ∈ v, ¬p.ExpiredAt second) :
    unexpired second v = v := by
  cases v with
  | none => rfl
  | some p => exact Option.filter_some_pos (by simpa using h)

/-! ## Caches that always have an answer -/

namespace AlwaysAvailable

variable {c : AlwaysAvailable} {key : Visitor} {v : Option Punishment}

/-- The mute that is held for a visitor with an entry, after the last refresh that is there. -/
def held (c : AlwaysAvailable) (key : Visitor) : Option (Option Punishment) :=
  (c.entries.get? key).map fun e => (e.fold c.ledger).current

namespace Entry

theorem fold_eq_self {l : Ledger} {e : Entry} (h : e.next.bind l.answer? = none) : e.fold l = e := by
  unfold fold
  rw [h]

/-- Once refreshes are taken over, none is left whose answer is there. -/
theorem next_fold (l : Ledger) (e : Entry) : (e.fold l).next.bind l.answer? = none := by
  unfold fold
  split
  · rfl
  · assumption

@[simp] theorem refreshed_fold (l : Ledger) (e : Entry) : (e.fold l).refreshed = e.refreshed := by
  unfold fold
  split <;> rfl

/-- What is taken over depends on the answer to the refresh alone. -/
theorem fold_congr {l l' : Ledger} {e : Entry} (h : ∀ q ∈ e.next, l'.answer? q = l.answer? q) :
    e.fold l' = e.fold l := by
  have hanswer : e.next.bind l'.answer? = e.next.bind l.answer? := by
    cases hnext : e.next with
    | none => rfl
    | some q => exact h q hnext
  unfold fold
  rw [hanswer]

@[simp] theorem fold_start (l : Ledger) (key : Visitor) (purpose : Purpose) (e : Entry) :
    e.fold (l.start key purpose).2 = e.fold l :=
  fold_congr fun q _ => l.answer?_start key purpose q

@[simp] theorem fold_fold (l : Ledger) (e : Entry) : (e.fold l).fold l = e.fold l :=
  fold_eq_self (next_fold l e)

@[simp] theorem next_clear (match? : Punishment → Bool) (e : Entry) : (e.clear match?).next = e.next := by
  unfold clear
  split <;> rfl

theorem current_clear (match? : Punishment → Bool) (e : Entry) :
    (e.clear match?).current = e.current.filter fun p => !match? p := by
  cases h : e.current with
  | none => simp [clear, holds, h]
  | some p => by_cases hp : match? p <;> simp [clear, holds, h, hp, Option.filter_some]

end Entry

theorem held_clearWhere (c : AlwaysAvailable) (match? : Punishment → Bool) (key : Visitor) :
    (c.clearWhere match?).2.held key = (c.held key).map fun v => v.filter fun p => !match? p := by
  simp only [held, clearWhere, Table.get?_mapRows, Option.map_map]
  congr 1
  funext e
  -- The refresh is taken over before the entry is cleared, so there is none left to be taken over after.
  have hfold : ((e.fold c.ledger).clear match?).fold c.ledger = (e.fold c.ledger).clear match? :=
    Entry.fold_eq_self (by rw [Entry.next_clear, Entry.next_fold])
  simp only [Function.comp, hfold, Entry.current_clear]

theorem refreshIfDue_current (c : AlwaysAvailable) (now : Moment) (key : Visitor) (e : Entry) :
    (c.refreshIfDue now key e).1.current = e.current := by
  unfold refreshIfDue
  split <;> rfl

/-- A look-up answers with the mute that is held, also while it begins a refresh. -/
theorem get_of_held (h : c.held key = some v) (now : Moment) :
    (c.get now key).1 = .value (unexpired now.second v) := by
  obtain ⟨e, he, rfl⟩ := Option.map_eq_some_iff.1 h
  simp only [get, he, refreshIfDue_current]

end AlwaysAvailable

/-! ## Caches that ask on demand -/

namespace OnDemand

variable {c : OnDemand} {key : Visitor} {v : Option Punishment} {e : Entry}

/-- The mute that is held for a visitor with an entry whose value is there. -/
def held (c : OnDemand) (key : Visitor) : Option (Option Punishment) :=
  (c.entries.get? key).bind fun e => e.value? c.ledger

namespace Entry

/-- Clearing puts a new entry without a mute in the place of one whose mute satisfies `match?`. -/
theorem clear_of_value? {l : Ledger} {now : Timestamp} {match? : Punishment → Bool} {nextId : Nat}
    (hv : e.value? l = some v) : (e.clear l now match? nextId).1 =
      if v.any match? then .ofSource nextId (.known none) now else e := by
  unfold clear holds
  rw [hv]
  simp only [Option.any_some]
  split <;> rfl

theorem value?_clear (l : Ledger) (now : Timestamp) (match? : Punishment → Bool) (e : Entry) (nextId : Nat) :
    (e.clear l now match? nextId).1.value? l = (e.value? l).map fun v => v.filter fun p => !match? p := by
  cases hv : e.value? l with
  | none => simp [clear, holds, hv]
  | some v =>
    rw [clear_of_value? hv]
    cases v with
    | none => simp [hv]
    | some p =>
      by_cases hp : match? p
      · simp [hp, ofSource, value?, Source.value?, Option.filter_some]
      · simp [hp, hv, Option.filter_some]

end Entry

/-- Each entry is cleared, with some number for a new one. -/
theorem exists_get?_clearWhere (c : OnDemand) (now : Timestamp) (match? : Punishment → Bool) (key : Visitor) :
    ∃ id, (c.clearWhere now match?).2.entries.get? key =
      (c.entries.get? key).map fun e => (e.clear c.ledger now match? id).1 :=
  Table.exists_get?_scan (fun (_ : Visitor) e id => Entry.clear c.ledger now match? e id) c.entries c.nextId key

theorem held_clearWhere (c : OnDemand) (now : Timestamp) (match? : Punishment → Bool) (key : Visitor) :
    (c.clearWhere now match?).2.held key = (c.held key).map fun v => v.filter fun p => !match? p := by
  obtain ⟨id, h⟩ := c.exists_get?_clearWhere now match? key
  have hledger : (c.clearWhere now match?).2.ledger = c.ledger := rfl
  rw [held, held, h, hledger]
  cases c.entries.get? key with
  | none => rfl
  | some e => exact e.value?_clear c.ledger now match? id

/-- A look-up of a mute that is held, is not over and has not expired only notes that the mute was wanted. -/
theorem read_eq_of_held (he : c.entries.get? key = some e) {now : Timestamp} (hexp : ¬c.Expired now e)
    (hv : e.value? c.ledger = some v) {second : Seconds} (hlive : ∀ p ∈ v, ¬p.ExpiredAt second) (tries : Nat) :
    c.read now key second (tries + 1) =
      (.value v, { c with entries := c.entries.insert key { e with accessed := now } }) := by
  have hload : c.load now key =
      ({ e with accessed := now }, { c with entries := c.entries.insert key { e with accessed := now } }) := by
    simp only [load, he, hexp, if_false]
  have hv' : Entry.value? c.ledger { e with accessed := now } = some v := hv
  have hlive' : ¬∃ p ∈ (some v).join, p.ExpiredAt second := by
    rintro ⟨p, hp, hover⟩
    exact hlive p hp hover
  simp only [read, hload, hv']
  cases e.source <;> exact if_neg hlive'

/-- A look-up answers with a mute that is held, is not over and has not expired. -/
theorem read_of_held (he : c.entries.get? key = some e) {now : Timestamp} (hexp : ¬c.Expired now e)
    (hv : e.value? c.ledger = some v) {second : Seconds} (hlive : ∀ p ∈ v, ¬p.ExpiredAt second) (tries : Nat) :
    (c.read now key second (tries + 1)).1 = .value v :=
  congrArg Prod.fst (read_eq_of_held he hexp hv hlive tries)

/-- A look-up for which there is nothing to use asks the store. -/
theorem read_of_load {now : Timestamp} (hload : c.load now key = c.ask now key) (second : Seconds)
    (tries : Nat) : c.read now key second (tries + 1) =
      (.later (.reading c.ledger.size key c.nextId second tries), (c.ask now key).2) := by
  have hv : (c.ask now key).1.value? (c.ask now key).2.ledger = none :=
    Ledger.answer?_of_getElem? (c.ledger.inquiries_start key .entry)
  simp only [read, hload, hv]
  rfl

/-- A look-up asks the store when what is held has expired. -/
theorem read_of_expired (he : c.entries.get? key = some e) {now : Timestamp} (hexp : c.Expired now e)
    (second : Seconds) (tries : Nat) : c.read now key second (tries + 1) =
      (.later (.reading c.ledger.size key c.nextId second tries), (c.ask now key).2) :=
  read_of_load (by simp only [load, he, hexp, if_true]) second tries

/-- A look-up drops a mute that is over and asks the store. -/
theorem read_of_ended (he : c.entries.get? key = some e) {now : Timestamp} (hexp : ¬c.Expired now e)
    {p : Punishment} (hv : e.value? c.ledger = some (some p)) {second : Seconds} (hover : p.ExpiredAt second)
    (tries : Nat) : ∃ c' : OnDemand, c.read now key second (tries + 2) =
      (.later (.reading c'.ledger.size key c'.nextId second tries), (c'.ask now key).2) := by
  let touched : OnDemand := { c with entries := c.entries.insert key { e with accessed := now } }
  have hload : c.load now key = ({ e with accessed := now }, touched) := by
    simp only [load, he, hexp, if_false, touched]
  have hv' : Entry.value? touched.ledger { e with accessed := now } = some (some p) := hv
  have hread : c.read now key second (tries + 2) = (touched.dropEntry key e.id).read now key second (tries + 1) := by
    have hover' : ∃ r ∈ (some (some p)).join, r.ExpiredAt second := ⟨p, rfl, hover⟩
    conv_lhs => unfold read
    simp only [hload, hv']
    cases e.source <;> exact if_pos hover'
  have habsent : (touched.dropEntry key e.id).entries.get? key = none := by
    simp [dropEntry, touched, Table.get?_filter, Table.get?_insert]
  exact ⟨_, hread.trans (read_of_load (by simp only [load, habsent]) second tries)⟩

/-- The call that waits for the store gets the store's answer. -/
theorem resume_ask (c : OnDemand) (key : Visitor) (now : Timestamp) {store : Visitor → Option Punishment}
    {second : Seconds} (hlive : ∀ p ∈ store key, ¬p.ExpiredAt second) (id again : Nat) :
    let asked := (c.ask now key).2
    (({ asked with ledger := asked.ledger.completeFirst store asked.ledger.pending.length } : OnDemand).resume
      now (.reading c.ledger.size key id second again)).1 = .value (store key) := by
  have hanswer : ((c.ask now key).2.ledger.completeFirst store (c.ask now key).2.ledger.pending.length).answer?
      c.ledger.size = some (store key) :=
    Ledger.answer?_completeAll (c.ledger.inquiries_start key .entry)
  have hlive' : ¬∃ p ∈ store key, p.ExpiredAt second := by
    rintro ⟨p, hp, hover⟩
    exact hlive p hp hover
  simp only [resume, hanswer, hlive', if_false]

end OnDemand

/-! ## Both kinds of cache -/

namespace Cache

variable {c : Cache} {key : Visitor} {v : Option Punishment} {store : Visitor → Option Punishment}
  {now : Moment}

/-- The mute that is held for a visitor, if the cache holds an answer for it. -/
def held (c : Cache) (key : Visitor) : Option (Option Punishment) :=
  match c with
  | alwaysAvailable c => c.held key
  | onDemand c => c.held key

/-- What is put into the cache at `written` still answers a look-up at `now`. -/
def Keeps (c : Cache) (written now : Moment) : Prop :=
  match c with
  | alwaysAvailable _ => True
  | onDemand c => ¬c.policy.Expired written.steady written.steady now.steady

instance : ∀ (c : Cache) (written now : Moment), Decidable (c.Keeps written now)
  | alwaysAvailable _, _, _ => inferInstanceAs (Decidable True)
  | onDemand _, _, _ => inferInstanceAs (Decidable (¬_))

theorem held_clearWhere (c : Cache) (now : Moment) (match? : Punishment → Bool) (key : Visitor) :
    (c.clearWhere now match?).2.held key = (c.held key).map fun v => v.filter fun p => !match? p := by
  cases c with
  | alwaysAvailable c => exact c.held_clearWhere match? key
  | onDemand c => exact c.held_clearWhere now.steady match? key

theorem consult_alwaysAvailable {c : AlwaysAvailable} (h : c.held key = some v) :
    ((alwaysAvailable c).consult now store key).1 = unexpired now.second v := by
  simp only [consult, get, Prod.map, AlwaysAvailable.get_of_held h, id, finish]

/-- A look-up that asks the store answers with what the store gives, if that is not over. -/
theorem consult_of_ask {c c' : OnDemand} {again : Nat} (hget : c.get now key =
      (.later (.reading c'.ledger.size key c'.nextId now.second again), (c'.ask now.steady key).2))
    (hstore : ∀ p ∈ store key, ¬p.ExpiredAt now.second) : ((onDemand c).consult now store key).1 = store key := by
  simp only [consult, get, hget, Prod.map, id, maxWaits, finish, completeAll, completeFirst, ledger, resume]
  rw [OnDemand.resume_ask c' key now.steady hstore]
  rfl

/-- A look-up in a cache that asks on demand, when the store gives only mutes that are not over. -/
theorem consult_onDemand {c : OnDemand} {e : OnDemand.Entry} (he : c.entries.get? key = some e)
    (hv : e.value? c.ledger = some v) (hlive : ∀ p ∈ v, ¬p.ExpiredAt now.second)
    (hstore : ∀ p ∈ store key, ¬p.ExpiredAt now.second) :
    ((onDemand c).consult now store key).1 = if c.Expired now.steady e then store key else v := by
  split
  · next hexp => exact consult_of_ask (OnDemand.read_of_expired he hexp now.second 1) hstore
  · next hexp =>
    simp only [consult, get, OnDemand.get, Prod.map, OnDemand.read_of_held he hexp hv hlive, id, finish]

/-- A look-up answers with what is held, unless that is over, or with what the store gives. -/
theorem consult_of_held (h : c.held key = some v) (hstore : ∀ p ∈ store key, ¬p.ExpiredAt now.second) :
    (c.consult now store key).1 = unexpired now.second v ∨ (c.consult now store key).1 = store key := by
  cases c with
  | alwaysAvailable c => exact .inl (consult_alwaysAvailable h)
  | onDemand c =>
    obtain ⟨e, he, hv⟩ := Option.bind_eq_some_iff.1 h
    by_cases hended : ∃ p ∈ v, p.ExpiredAt now.second
    · obtain ⟨p, rfl, hover⟩ := hended
      by_cases hexp : c.Expired now.steady e
      · exact .inr (consult_of_ask (OnDemand.read_of_expired he hexp now.second 1) hstore)
      · obtain ⟨c', hread⟩ := OnDemand.read_of_ended he hexp hv hover 0
        exact .inr (consult_of_ask hread hstore)
    · have hlive : ∀ p ∈ v, ¬p.ExpiredAt now.second := fun p hp hover => hended ⟨p, hp, hover⟩
      rw [consult_onDemand he hv hlive hstore, unexpired_eq_self hlive]
      split
      · exact .inr rfl
      · exact .inl rfl

/-- A visitor is denied when a mute that is not over is held and the store names one too. -/
theorem consult_isSome_of_held {p : Punishment} (h : c.held key = some (some p))
    (hlive : ¬p.ExpiredAt now.second) (hstore : ∀ p ∈ store key, ¬p.ExpiredAt now.second)
    (hsome : (store key).isSome) : (c.consult now store key).1.isSome := by
  have hlive' : ∀ q ∈ some p, ¬q.ExpiredAt now.second := by simpa using hlive
  cases c with
  | alwaysAvailable c =>
    rw [consult_alwaysAvailable h, unexpired, Option.filter_some_pos (by simpa using hlive)]
    rfl
  | onDemand c =>
    obtain ⟨e, he, hv⟩ := Option.bind_eq_some_iff.1 h
    rw [consult_onDemand he hv hlive' hstore]
    split
    · exact hsome
    · rfl

/-- What a look-up answers with when the mute that was held has been cleared. -/
theorem consult_clearWhere {p : Punishment} (h : c.held key = some (some p)) {match? : Punishment → Bool}
    (hp : match? p) (cleared : Moment) (hstore : ∀ p ∈ store key, ¬p.ExpiredAt now.second) :
    ((c.clearWhere cleared match?).2.consult now store key).1 =
      if c.Keeps cleared now then none else store key := by
  cases c with
  | alwaysAvailable c =>
    have hnone : (c.clearWhere match?).2.held key = some none := by
      rw [AlwaysAvailable.held_clearWhere, show c.held key = some (some p) from h]
      simp [hp, Option.filter_some]
    exact (consult_alwaysAvailable hnone).trans (if_pos trivial).symm
  | onDemand c =>
    obtain ⟨e, he, hv⟩ := Option.bind_eq_some_iff.1 h
    obtain ⟨id, hid⟩ := c.exists_get?_clearWhere cleared.steady match? key
    rw [he, Option.map_some, OnDemand.Entry.clear_of_value? hv] at hid
    simp only [Option.any_some, hp, if_true] at hid
    refine (consult_onDemand hid rfl (by simp) hstore).trans ?_
    by_cases hexp : c.policy.Expired cleared.steady cleared.steady now.steady
    · exact (if_pos hexp).trans (if_neg (not_not.2 hexp)).symm
    · exact (if_neg hexp).trans (if_pos hexp).symm

end Cache

end Moderation.Mute
