import Moderation.Proofs.Mute.Clearing
import Moderation.Proofs.Mute.Course
import Moderation.Proofs.Mute.Recording
import Moderation.Proofs.Store.Applicable
/-!
# Two kinds of cache, one behaviour

While no refresh is under way, and no entry that is looked up is old and no mute is over, a cache of either kind is no
more than what it holds for each visitor. What it answers to a use and what it holds afterwards is said from that
alone (`Cache.use_of_idle`), and so is the whole of a run (`Cache.trace_of_idle`). Two caches that have been loaded
with the same values are therefore not to be told apart: `variants_agree`.
-/

namespace Moderation.Mute

namespace Cache

/-! ## Uses -/

inductive Use where
  | get (key : Visitor)
  | record (p : Punishment)
  | recordFor (key : Visitor) (p : Punishment)
  /-- Mutes are cleared: by their name, by their number, or by whatever else is said of them. -/
  | clearWhere (match? : Punishment → Bool)

def use (now : Moment) : Use → Cache → Answer × Cache
  | .get key, c => (c.get now key).map .reply id
  | .record p, c => (.nothing, c.record now p)
  | .recordFor key p, c => (.nothing, c.recordFor now key p)
  | .clearWhere match?, c => (c.clearWhere now match?).map .count id

/-- What is answered at each use, with the inquiries that there are after it. -/
def trace (c : Cache) : List (Moment × Use) → List (Answer × Ledger)
  | [] => []
  | (now, use) :: steps =>
    ((c.use now use).1, (c.use now use).2.ledger) :: trace (c.use now use).2 steps

/-- The punishment that is recorded, whatever its kind. -/
def Use.recorded? : Use → Option Punishment
  | record p | recordFor _ p => some p
  | get _ | clearWhere _ => none

/-- The visitor who is looked up. -/
def Use.lookedUp? : Use → Option Visitor
  | get key => some key
  | record _ | recordFor _ _ | clearWhere _ => none

/-- A mute is held for someone at the start, or is recorded. -/
def Involves (c : Cache) (steps : List (Moment × Use)) (p : Punishment) : Prop :=
  (∃ key, c.held key = some (some p)) ∨ ∃ step ∈ steps, step.2.recorded? = some p

/-- The entry for a visitor is not too old to be used. -/
def Fresh (c : Cache) (now : Moment) (key : Visitor) : Prop :=
  match c with
  | alwaysAvailable c => ∀ e ∈ c.entries.get? key, ¬c.Stale now e
  | onDemand c => ∀ e ∈ c.entries.get? key, ¬c.Expired now.steady e

instance : ∀ (c : Cache) (now : Moment) (key : Visitor), Decidable (c.Fresh now key)
  | alwaysAvailable c, now, key => inferInstanceAs (Decidable (∀ e ∈ c.entries.get? key, ¬c.Stale now e))
  | onDemand c, now, key => inferInstanceAs (Decidable (∀ e ∈ c.entries.get? key, ¬c.Expired now.steady e))

/-- No entry is too old when it is looked up. -/
def InWindow (c : Cache) : List (Moment × Use) → Prop
  | [] => True
  | (now, use) :: steps => (∀ key ∈ use.lookedUp?, c.Fresh now key) ∧ InWindow (c.use now use).2 steps

instance decidableInWindow (c : Cache) : ∀ steps : List (Moment × Use), Decidable (c.InWindow steps)
  | [] => inferInstanceAs (Decidable True)
  | (now, use) :: steps =>
    haveI := decidableInWindow (c.use now use).2 steps
    inferInstanceAs (Decidable ((∀ key ∈ use.lookedUp?, c.Fresh now key) ∧ InWindow (c.use now use).2 steps))

/-! ## What is said from what is held -/

/-- What is held for each visitor with an entry whose value is there. -/
abbrev Holding := Visitor → Option (Option Punishment)

noncomputable def Use.answer (held : Holding) : Use → Answer
  | get key => .reply (.value (held key).join)
  | record _ | recordFor _ _ => .nothing
  | clearWhere match? => .count {key | (held key).any fun v => v.any match?}.ncard

def Use.after (held : Holding) : Use → Holding
  | get _ => held
  | record p => fun key =>
    if p.kind = .mute ∧ p.victim.Covers key then (held key).map fun v => some (Punishment.later v p) else held key
  | recordFor key p => fun k =>
    if p.kind = .mute ∧ k = key then (held k).map fun v => some (Punishment.later v p) else held k
  | clearWhere match? => fun key => (held key).map fun v => v.filter fun p => !match? p

noncomputable def answers (held : Holding) : List Use → List Answer
  | [] => []
  | use :: uses => use.answer held :: answers (use.after held) uses

theorem Use.isSome_after (held : Holding) (use : Use) (key : Visitor) :
    (use.after held key).isSome = (held key).isSome := by
  cases use with
  | get => rfl
  | record p | recordFor k p =>
    simp only [after]
    split
    · exact Option.isSome_map
    · rfl
  | clearWhere => exact Option.isSome_map

/-- What is held after a use was held before it, or is what the use records. -/
theorem Use.after_eq_some {held : Holding} {use : Use} {key : Visitor} {p : Punishment}
    (h : use.after held key = some (some p)) : held key = some (some p) ∨ use.recorded? = some p := by
  have hlater : ∀ q, ((held key).map fun v => some (Punishment.later v q)) = some (some p) →
      held key = some (some p) ∨ some q = some p := by
    intro q hq
    obtain ⟨v, hv, hlast⟩ := Option.map_eq_some_iff.1 hq
    obtain rfl := Option.some.inj hlast
    rcases (Punishment.later_spec v q).1 with hnew | hold
    · exact .inr (congrArg some hnew.symm)
    · exact .inl (hv.trans (congrArg some hold))
  cases use with
  | get => exact .inl h
  | record q | recordFor k q =>
    simp only [after] at h
    split at h
    · exact hlater q h
    · exact .inl h
  | clearWhere match? =>
    obtain ⟨v, hv, hp⟩ := Option.map_eq_some_iff.1 h
    exact .inl (hv.trans (congrArg some (Option.filter_eq_some_iff.1 hp).1))

end Cache

/-! ## Look-ups that ask for nothing -/

/-- A look-up of a fresh entry whose mute is not over takes the last refresh over, and no more. -/
theorem AlwaysAvailable.get_of_fresh {c : AlwaysAvailable} {now : Moment} {key : Visitor} {e : AlwaysAvailable.Entry}
    (he : c.entries.get? key = some e) (hfresh : ¬c.Stale now e)
    (hlive : ∀ p ∈ (e.fold c.ledger).current, ¬p.ExpiredAt now.second) :
    c.get now key =
      (.value (e.fold c.ledger).current, { c with entries := c.entries.insert key (e.fold c.ledger) }) := by
  have hdue : ¬((e.fold c.ledger).next = none ∧ (c.Stale now (e.fold c.ledger) ∨ Ended now (e.fold c.ledger))) := by
    rintro ⟨-, hstale | ⟨p, hp, hover⟩⟩
    · rw [Stale, Entry.refreshed_fold] at hstale
      exact hfresh hstale
    · exact hlive p hp hover
  have hvisit : c.refreshIfDue now key (e.fold c.ledger) = (e.fold c.ledger, c.ledger) := if_neg hdue
  simp only [get, he, hvisit, unexpired_eq_self hlive]

namespace Cache

variable {c : Cache} {now : Moment} {key : Visitor} {v : Option Punishment}

/-- A look-up of what is fresh and not over answers with that, and changes nothing of what is held. -/
theorem get_of_fresh (hheld : c.held key = some v) (hfresh : c.Fresh now key)
    (hlive : ∀ p ∈ v, ¬p.ExpiredAt now.second) : (c.get now key).1 = .value v ∧ (c.get now key).2.ledger = c.ledger ∧
      ∀ k, (c.get now key).2.held k = c.held k ∧ ((c.get now key).2.Refreshing k ↔ c.Refreshing k) := by
  cases c with
  | alwaysAvailable c =>
    obtain ⟨e, he, rfl⟩ := Option.map_eq_some_iff.1 hheld
    simp only [get, AlwaysAvailable.get_of_fresh he (hfresh e he) hlive, Prod.map, id]
    refine ⟨trivial, rfl, fun k => ?_⟩
    simp only [held, Refreshing, AlwaysAvailable.held, AlwaysAvailable.Refreshing, Table.get?_insert]
    by_cases hk : k = key
    · subst hk
      simp [he]
    · simp [hk]
  | onDemand c =>
    obtain ⟨e, he, hv⟩ := Option.bind_eq_some_iff.1 hheld
    simp only [get, OnDemand.get, OnDemand.read_eq_of_held he (hfresh e he) hv hlive, Prod.map, id]
    refine ⟨trivial, rfl, fun k => ⟨?_, Iff.rfl⟩⟩
    simp only [held, OnDemand.held, Table.get?_insert]
    by_cases hk : k = key
    · subst hk
      simp only [if_true, he, Option.bind_some]
      rfl
    · simp only [hk, if_false]

/-! ## Uses and runs -/

/-- What a use answers with and what is held after it, when no refresh is under way and what is looked up is fresh and
not over. Nothing is asked of the store. -/
theorem use_of_idle {use : Use} (hidle : ∀ key, ¬c.Refreshing key)
    (hget : ∀ key ∈ use.lookedUp?, c.Fresh now key ∧ ∃ v, c.held key = some v ∧ ∀ p ∈ v, ¬p.ExpiredAt now.second) :
    (c.use now use).1 = use.answer c.held ∧ (c.use now use).2.held = use.after c.held ∧
      (c.use now use).2.ledger = c.ledger ∧ ∀ key, ¬(c.use now use).2.Refreshing key := by
  cases use with
  | get key =>
    obtain ⟨hfresh, v, hheld, hlive⟩ := hget key rfl
    obtain ⟨hreply, hledger, hsame⟩ := get_of_fresh hheld hfresh hlive
    refine ⟨?_, funext fun k => (hsame k).1, hledger, fun k hk => hidle k ((hsame k).2.1 hk)⟩
    simp only [Cache.use, Prod.map, hreply, Use.answer, hheld, Option.join_some]
  | record p =>
    refine ⟨rfl, ?_, ledger_edit (.record now p c), fun key hkey => hidle key ((c.refreshing_record now p key).1 hkey)⟩
    funext key
    refine (c.held_record now p key).trans ?_
    simp only [hidle key, not_false_eq_true, and_true]
    rfl
  | recordFor key p =>
    refine ⟨rfl, ?_, c.ledger_recordFor now key p, fun k hk => hidle k ((c.refreshing_recordFor now key p k).1 hk)⟩
    funext k
    refine (c.held_recordFor now key p k).trans ?_
    simp only [hidle k, not_false_eq_true, and_true]
    rfl
  | clearWhere match? =>
    refine ⟨congrArg Answer.count (c.clearWhere_count now match?), funext (c.held_clearWhere now match?),
      ledger_edit (.clearWhere now match? c), fun key hkey => ?_⟩
    exact hidle key ((c.refreshing_clearWhere now match? key).1 hkey)

/-- What a run answers is said from what is held at the start, and nothing is asked of the store. All punishments that
play a part satisfy `P`. -/
theorem trace_of_idle {P : Punishment → Prop} {steps : List (Moment × Use)} (hidle : ∀ key, ¬c.Refreshing key)
    (hheld : ∀ key p, c.held key = some (some p) → P p) (hrecorded : ∀ step ∈ steps, ∀ p ∈ step.2.recorded?, P p)
    (hget : ∀ step ∈ steps, ∀ key ∈ step.2.lookedUp?,
      (c.held key).isSome ∧ ∀ p, P p → ¬p.ExpiredAt step.1.second)
    (hwindow : c.InWindow steps) :
    c.trace steps = (answers c.held (steps.map Prod.snd)).map fun answer => (answer, c.ledger) := by
  induction steps generalizing c with
  | nil => rfl
  | cons step steps ih =>
    obtain ⟨now, use⟩ := step
    obtain ⟨hfresh, hrest⟩ := hwindow
    have hlook : ∀ key ∈ use.lookedUp?,
        c.Fresh now key ∧ ∃ v, c.held key = some v ∧ ∀ p ∈ v, ¬p.ExpiredAt now.second := by
      intro key hkey
      obtain ⟨hsome, hlive⟩ := hget (now, use) List.mem_cons_self key hkey
      obtain ⟨v, hv⟩ := Option.isSome_iff_exists.1 hsome
      refine ⟨hfresh key hkey, v, hv, ?_⟩
      rintro p rfl
      exact hlive p (hheld key p hv)
    obtain ⟨hanswer, hafter, hledger, hidle'⟩ := use_of_idle hidle hlook
    have hheld' : ∀ key p, (c.use now use).2.held key = some (some p) → P p := by
      intro key p hp
      rw [hafter] at hp
      rcases Use.after_eq_some hp with hold | hnew
      · exact hheld key p hold
      · exact hrecorded (now, use) List.mem_cons_self p hnew
    have hget' : ∀ step ∈ steps, ∀ key ∈ step.2.lookedUp?,
        ((c.use now use).2.held key).isSome ∧ ∀ p, P p → ¬p.ExpiredAt step.1.second := by
      intro step hstep key hkey
      rw [hafter, Use.isSome_after]
      exact hget step (List.mem_cons_of_mem _ hstep) key hkey
    have htrace := ih hidle' hheld' (fun step hstep => hrecorded step (List.mem_cons_of_mem _ hstep)) hget' hrest
    rw [trace, htrace, hanswer, hledger, hafter]
    rfl

end Cache

/-! ## Caches that are loaded alike -/

/-- A cache of each kind hold the same values, and nothing is under way. -/
structure Alike (a : AlwaysAvailable) (o : OnDemand) : Prop where
  held : ∀ key, a.held key = o.held key
  settled : ∀ key, ¬a.Refreshing key
  answered : ∀ key, ∀ e ∈ o.entries.get? key, (e.value? o.ledger).isSome

namespace AlwaysAvailable

/-- A visitor comes in, and the store answers. -/
def loaded (c : AlwaysAvailable) (now : Moment) (key : Visitor) (v : Option Punishment) : AlwaysAvailable :=
  (c.login now key).2.complete c.ledger.size v

variable {c : AlwaysAvailable} {key : Visitor}

theorem get?_loaded (hnew : c.entries.get? key = none) (now : Moment) (v : Option Punishment) (k : Visitor) :
    (c.loaded now key v).entries.get? k = if k = key then
      some { id := c.nextId, current := none, refreshed := now.steady, next := some c.ledger.size }
      else c.entries.get? k := by
  simp only [loaded, login, hnew, complete, Table.get?_insert]
  rfl

theorem ledger_loaded (hnew : c.entries.get? key = none) (now : Moment) (v : Option Punishment) :
    (c.loaded now key v).ledger = (c.ledger.start key .entry).2.complete c.ledger.size v := by
  simp only [loaded, login, hnew, complete]

theorem fold_loaded (hnew : c.entries.get? key = none) (now : Moment) (v : Option Punishment) {e : Entry}
    (he : (e.fold c.ledger).next = none) : e.fold (c.loaded now key v).ledger = e.fold c.ledger := by
  rw [ledger_loaded hnew]
  apply Entry.fold_congr
  intro q hq
  rw [Ledger.answer?_start_complete, if_neg]
  rintro rfl
  rw [Entry.fold_eq_self, Option.mem_def.1 hq] at he
  · cases he
  · rw [Option.mem_def.1 hq, Option.bind_some, Ledger.answer?_size]

/-- The entry of the visitor who came in takes over what the store answered. -/
theorem fold_loaded_new (hnew : c.entries.get? key = none) (now : Moment) (v : Option Punishment) :
    let e : Entry := { id := c.nextId, current := none, refreshed := now.steady, next := some c.ledger.size }
    e.fold (c.loaded now key v).ledger = { e with current := v, next := none } := by
  intro e
  have hanswer : e.next.bind (c.loaded now key v).ledger.answer? = some v := by
    rw [ledger_loaded hnew, Option.bind_some, Ledger.answer?_start_complete, if_pos rfl]
  rw [Entry.fold, hanswer]

/-- The values that are held are those that were held and the one that has been loaded. -/
theorem held_loaded (hnew : c.entries.get? key = none) (hsettled : ∀ k, ¬c.Refreshing k) (now : Moment)
    (v : Option Punishment) (k : Visitor) : (c.loaded now key v).held k = if k = key then some v else c.held k := by
  rw [held, get?_loaded hnew]
  by_cases hk : k = key
  · rw [if_pos hk, if_pos hk, Option.map_some, fold_loaded_new hnew]
  · rw [if_neg hk, if_neg hk, held]
    cases he : c.entries.get? k with
    | none => rfl
    | some e =>
      have hnext := Option.not_isSome_iff_eq_none.1 fun h => hsettled k ⟨e, he, h⟩
      rw [Option.map_some, Option.map_some, fold_loaded hnew now v hnext]

theorem not_refreshing_loaded (hnew : c.entries.get? key = none) (hsettled : ∀ k, ¬c.Refreshing k) (now : Moment)
    (v : Option Punishment) (k : Visitor) : ¬(c.loaded now key v).Refreshing k := by
  rintro ⟨e, he, hnext⟩
  rw [Option.mem_def, get?_loaded hnew] at he
  split at he
  · obtain rfl := Option.some.inj he
    rw [fold_loaded_new hnew] at hnext
    cases hnext
  · have hold := Option.not_isSome_iff_eq_none.1 fun h => hsettled k ⟨e, he, h⟩
    rw [fold_loaded hnew now v hold, hold] at hnext
    cases hnext

end AlwaysAvailable

namespace OnDemand

/-- A visitor is looked up, and the store answers. -/
def loaded (c : OnDemand) (now : Moment) (key : Visitor) (v : Option Punishment) : OnDemand :=
  (c.get now key).2.complete c.ledger.size v

variable {c : OnDemand} {key : Visitor}

theorem loaded_eq (hnew : c.entries.get? key = none) (now : Moment) (v : Option Punishment) :
    c.loaded now key v = (c.ask now.steady key).2.complete c.ledger.size v := by
  have hload : c.load now.steady key = c.ask now.steady key := by
    simp only [load, hnew]
  rw [loaded, get, read_of_load hload]

theorem get?_loaded (hnew : c.entries.get? key = none) (now : Moment) (v : Option Punishment) (k : Visitor) :
    (c.loaded now key v).entries.get? k =
      if k = key then some (.ofSource c.nextId (.asked c.ledger.size) now.steady) else c.entries.get? k := by
  rw [loaded_eq hnew]
  exact Table.get?_insert _ _ _ _

/-- An entry whose value is there keeps it. -/
theorem value?_loaded (hnew : c.entries.get? key = none) (now : Moment) (v : Option Punishment) {e : Entry}
    (he : (e.value? c.ledger).isSome) : e.value? (c.loaded now key v).ledger = e.value? c.ledger := by
  rw [loaded_eq hnew]
  unfold Entry.value? at he ⊢
  cases hsource : e.source with
  | known u => rfl
  | asked q =>
    rw [hsource] at he
    refine (c.ledger.answer?_start_complete key .entry v q).trans (if_neg ?_)
    rintro rfl
    rw [Source.value?, Ledger.answer?_size] at he
    cases he

theorem value?_loaded_new (hnew : c.entries.get? key = none) (now : Moment) (v : Option Punishment) :
    (Entry.ofSource c.nextId (.asked c.ledger.size) now.steady).value? (c.loaded now key v).ledger = some v := by
  rw [loaded_eq hnew]
  exact (c.ledger.answer?_start_complete key .entry v c.ledger.size).trans (if_pos rfl)

/-- The values that are held are those that were held and the one that has been loaded. -/
theorem held_loaded (hnew : c.entries.get? key = none)
    (hanswered : ∀ k, ∀ e ∈ c.entries.get? k, (e.value? c.ledger).isSome) (now : Moment) (v : Option Punishment)
    (k : Visitor) : (c.loaded now key v).held k = if k = key then some v else c.held k := by
  rw [held, get?_loaded hnew]
  by_cases hk : k = key
  · rw [if_pos hk, if_pos hk, Option.bind_some, value?_loaded_new hnew]
  · rw [if_neg hk, if_neg hk, held]
    cases he : c.entries.get? k with
    | none => rfl
    | some e => exact value?_loaded hnew now v (hanswered k e he)

theorem answered_loaded (hnew : c.entries.get? key = none)
    (hanswered : ∀ k, ∀ e ∈ c.entries.get? k, (e.value? c.ledger).isSome) (now : Moment) (v : Option Punishment)
    (k : Visitor) : ∀ e ∈ (c.loaded now key v).entries.get? k, (e.value? (c.loaded now key v).ledger).isSome := by
  intro e he
  rw [Option.mem_def, get?_loaded hnew] at he
  split at he
  · obtain rfl := Option.some.inj he
    rw [value?_loaded_new hnew]
    rfl
  · rw [value?_loaded hnew now v (hanswered k e he)]
    exact hanswered k e he

end OnDemand

theorem alike_ofConfig (config config' : Config) : Alike (.ofConfig config) (.ofConfig config') where
  held _ := rfl
  settled _ := by
    rintro ⟨e, he, -⟩
    cases he
  answered _ _ he := by cases he

/-- Two caches that are alike stay so when a visitor whom neither has an entry for is loaded into both. -/
theorem Alike.loaded {a : AlwaysAvailable} {o : OnDemand} (h : Alike a o) {key : Visitor}
    (hnew : a.entries.get? key = none) (now now' : Moment) (v : Option Punishment) :
    Alike (a.loaded now key v) (o.loaded now' key v) := by
  have hnew' : o.entries.get? key = none := by
    have hheld : o.held key = none := by rw [← h.held, AlwaysAvailable.held, hnew, Option.map_none]
    refine Option.eq_none_iff_forall_not_mem.2 fun e he => ?_
    have hvalue := h.answered key e he
    rw [OnDemand.held, Option.mem_def.1 he, Option.bind_some] at hheld
    rw [hheld] at hvalue
    cases hvalue
  constructor
  · intro k
    rw [AlwaysAvailable.held_loaded hnew h.settled, OnDemand.held_loaded hnew' h.answered, h.held]
  · exact AlwaysAvailable.not_refreshing_loaded hnew h.settled now v
  · exact OnDemand.answered_loaded hnew' h.answered now' v

/-! ## What callers see -/

open Cache (Use)

/-- Two caches, one of each kind, hold the same values, and nothing is under way. Mutes are recorded and cleared, and
visitors looked up whose values are there, while no entry that is looked up is too old and no mute that plays a part
is over. Then both caches give the answers that are said from what they held, and ask the store for nothing. -/
theorem variants_agree {a : AlwaysAvailable} {o : OnDemand} (h : Alike a o) {steps : List (Moment × Use)}
    (hget : ∀ step ∈ steps, ∀ key ∈ step.2.lookedUp?, (a.held key).isSome ∧
      ∀ p, (Cache.alwaysAvailable a).Involves steps p → ¬p.ExpiredAt step.1.second)
    (ha : (Cache.alwaysAvailable a).InWindow steps) (ho : (Cache.onDemand o).InWindow steps) :
    let answers := Cache.answers a.held (steps.map Prod.snd)
    (Cache.alwaysAvailable a).trace steps = answers.map (fun answer => (answer, a.ledger)) ∧
      (Cache.onDemand o).trace steps = answers.map fun answer => (answer, o.ledger) := by
  have hrecorded : ∀ step ∈ steps, ∀ p ∈ step.2.recorded?, (Cache.alwaysAvailable a).Involves steps p :=
    fun step hstep p hp => .inr ⟨step, hstep, hp⟩
  constructor
  · exact Cache.trace_of_idle h.settled (fun key p hp => .inl ⟨key, hp⟩) hrecorded hget ha
  · have hheld : a.held = o.held := funext h.held
    simp only [hheld]
    refine Cache.trace_of_idle (fun _ => id) (fun key p hp => .inl ⟨key, (h.held key).trans hp⟩) hrecorded ?_ ho
    intro step hstep key hkey
    obtain ⟨hsome, hlive⟩ := hget step hstep key hkey
    exact ⟨(congrArg Option.isSome (h.held key)).symm.trans hsome, hlive⟩

/-- A mute that never ends takes the place of one that does, and is cleared by its number. -/
theorem variants_agree_on_outlasting_mute :
    let muted : Visitor := default
    let other : Visitor := { user := ⟨List.replicate 16 1, rfl⟩, address := default }
    let p : Punishment := ⟨1, .mute, .player muted.user, .console, "spam", .global, 0, 1800000000⟩
    let q : Punishment := ⟨2, .mute, .player muted.user, .console, "spam", .global, 0, 0⟩
    let start : Moment := ⟨1000, 1700000000000⟩
    let now : Moment := ⟨60999, 1700000059999⟩
    let a := ((AlwaysAvailable.ofConfig {}).loaded start muted (some p)).loaded start other none
    let o := ((OnDemand.ofConfig {}).loaded start muted (some p)).loaded start other none
    let uses : List Use := [.get muted, .record q, .recordFor other p, .get muted, .clearWhere fun r => r.id = 2,
      .get muted, .get other]
    let steps := uses.map fun use => (now, use)
    ((Cache.onDemand o).trace steps).map Prod.fst = [.reply (.value (some p)), .nothing, .nothing,
        .reply (.value (some q)), .count 1, .reply (.value none), .reply (.value (some p))] ∧
      (Cache.alwaysAvailable a).trace steps =
        (Cache.answers a.held uses).map (fun answer => (answer, a.ledger)) ∧
      (Cache.onDemand o).trace steps = (Cache.answers a.held uses).map fun answer => (answer, o.ledger) := by
  intro muted other p q start now a o uses steps
  have hone : Alike ((AlwaysAvailable.ofConfig {}).loaded start muted (some p))
      ((OnDemand.ofConfig {}).loaded start muted (some p)) :=
    (alike_ofConfig {} {}).loaded rfl start start (some p)
  have halike : Alike a o := hone.loaded (by decide +kernel) start start none
  have hheld : ∀ key, a.held key = if key = other then some none else if key = muted then some (some p) else none := by
    intro key
    rw [AlwaysAvailable.held_loaded (by decide +kernel) hone.settled,
      AlwaysAvailable.held_loaded rfl (alike_ofConfig {} {}).settled]
    rfl
  have hlive : ∀ r, (Cache.alwaysAvailable a).Involves steps r → ¬r.ExpiredAt now.second := by
    rintro r (⟨key, hkey⟩ | ⟨step, hstep, hr⟩)
    · have hr := (hheld key).symm.trans hkey
      split at hr
      · cases hr
      · split at hr
        · cases hr
          decide +kernel
        · cases hr
    · simp only [steps, uses, List.map_cons, List.map_nil, List.mem_cons, List.not_mem_nil, or_false] at hstep
      rcases hstep with rfl | rfl | rfl | rfl | rfl | rfl | rfl <;> cases hr <;> decide +kernel
  have hloaded : ∀ step ∈ steps, ∀ key ∈ step.2.lookedUp?, (a.held key).isSome := by decide +kernel
  refine ⟨by decide +kernel, variants_agree halike ?_ (by decide +kernel) (by decide +kernel)⟩
  intro step hstep key hkey
  refine ⟨hloaded step hstep key hkey, ?_⟩
  obtain ⟨use, -, rfl⟩ := List.mem_map.1 hstep
  exact hlive

end Moderation.Mute
