import Moderation.Proofs.Mute.Refreshes
/-!
# Refreshes when they are due

Whoever looks at an entry begins a refresh of it if one is due, and not otherwise: none is under way, and the last one
was begun longer ago than a refresh is fresh, or the mute that is held has ended. Nothing else begins one but a visitor
who comes in and has no entry. An entry carries the moment of its last refresh along whatever else becomes of it, so two
refreshes of an entry follow one another by more than that time, unless the mute has ended before the second. All of
this is `refreshed_when_due`. That it is one entry of which they are refreshes is told by its number, which no other
entry has (`idAt_of_run`).
-/

namespace Moderation.Mute.AlwaysAvailable

variable {c : AlwaysAvailable} {config : Config} {events : List Event} {event : Event} {now : Moment} {key : Visitor}
  {e : Entry}

/-! ## Looking at an entry -/

/-- A refresh is to be begun of an entry that has taken over what is there. -/
def Wants (c : AlwaysAvailable) (now : Moment) (e : Entry) : Prop := e.next = none ∧ (c.Stale now e ∨ Ended now e)

instance (c : AlwaysAvailable) (now : Moment) (e : Entry) : Decidable (c.Wants now e) :=
  inferInstanceAs (Decidable (_ ∧ _))

/-- After a course: no refresh of the visitor's entry is under way, and the last one was begun more than the expiration
time ago, or the mute that is held has ended. -/
def Due (c : AlwaysAvailable) (events : List Event) (now : Moment) (key : Visitor) : Prop :=
  ¬(c.run events).Refreshing key ∧ ((∃ t ∈ c.lastBegun key events, c.expiration.toNat < now.steady.since t) ∨
    ∃ p ∈ ((c.run events).held key).join, p.ExpiredAt now.second)

instance (c : AlwaysAvailable) (events : List Event) (now : Moment) (key : Visitor) :
    Decidable (c.Due events now key) :=
  inferInstanceAs (Decidable (_ ∧ ((∃ t ∈ c.lastBegun key events, c.expiration.toNat < now.steady.since t) ∨
    ∃ p ∈ ((c.run events).held key).join, p.ExpiredAt now.second)))

/-- Whether a refresh is due can be read off the entry. -/
theorem due_iff (he : ((ofConfig config).run events).entries.get? key = some e) :
    (ofConfig config).Due events now key ↔
      ((ofConfig config).run events).Wants now (e.fold ((ofConfig config).run events).ledger) := by
  have hlast : (ofConfig config).lastBegun key events = some e.refreshed :=
    refreshedAt_run (by rw [refreshedAt, he, Option.map_some])
  have hexpiration := (settings_run (ofConfig config) events).1
  simp only [Due, Wants, Refreshing, Stale, Ended, held, hlast, he, hexpiration, Entry.refreshed_fold]
  simp

theorem ledger_visit (h : event.Visits now key) (he : c.entries.get? key = some e) :
    (c.step event).2.ledger =
      if c.Wants now (e.fold c.ledger) then (c.ledger.start key .entry).2 else c.ledger := by
  rw [step_visit h he]
  by_cases hwants : c.Wants now (e.fold c.ledger)
  · have hdue : c.refreshIfDue now key (e.fold c.ledger) = _ := if_pos hwants
    rw [hdue, if_pos hwants]
  · have hdue : c.refreshIfDue now key (e.fold c.ledger) = _ := if_neg hwants
    rw [hdue, if_neg hwants]

theorem refreshing_visit (h : event.Visits now key) (he : c.entries.get? key = some e)
    (hwants : c.Wants now (e.fold c.ledger)) : (c.step event).2.Refreshing key := by
  have hdue : c.refreshIfDue now key (e.fold c.ledger) =
      ({ e.fold c.ledger with next := some c.ledger.size, refreshed := now.steady }, (c.ledger.start key .entry).2) :=
    if_pos hwants
  -- The store has not answered the inquiry that has just been made.
  have hnone : (c.ledger.start key .entry).2.answer? c.ledger.size = none := by
    rw [Ledger.answer?_start, Ledger.answer?_size]
  have hfold : ({ e.fold c.ledger with next := some c.ledger.size, refreshed := now.steady } : Entry).fold
      (c.ledger.start key .entry).2 = _ := Entry.fold_eq_self hnone
  rw [step_visit h he, hdue]
  refine ⟨_, (Table.get?_insert _ _ _ _).trans (if_pos rfl), ?_⟩
  exact (congrArg (·.next.isSome) hfold).trans rfl

/-! ## What begins a refresh -/

theorem begins_visit {k : Visitor} (h : event.Visits now k) (he : c.entries.get? k = some e) :
    c.begins event key = true ↔ k = key ∧ c.Wants now (e.fold c.ledger) := by
  have hledger := ledger_visit h he
  by_cases hwants : c.Wants now (e.fold c.ledger)
  · rw [if_pos hwants] at hledger
    rw [begins_of_start hledger]
    simp [hwants]
  · rw [if_neg hwants] at hledger
    rw [begins_of_size (congrArg Ledger.size hledger)]
    simp [hwants]

/-- No other event makes an inquiry. -/
theorem size_step (hget : ∀ now k, event ≠ .get now k) (hlogin : ∀ now k, event ≠ .login now k) :
    (c.step event).2.ledger.size = c.ledger.size := by
  cases event with
  | get now k => exact absurd rfl (hget now k)
  | login now k => exact absurd rfl (hlogin now k)
  | refreshHandle k =>
    simp only [step, refreshHandle]
    split <;> rfl
  | record p => exact congrArg Ledger.size (c.ledger_record p)
  | recordFor k p => exact congrArg Ledger.size (c.ledger_recordFor k p)
  | complete q v => exact Array.size_modify
  | clearWhere | purge | contains | size | resume => rfl

/-- A refresh of the visitor's entry is begun by those who look at the entry when it wants one, and by the visitor who
comes in and has no entry. -/
theorem begins_iff : c.begins event key = true ↔
    (∃ now e, event.Visits now key ∧ c.entries.get? key = some e ∧ c.Wants now (e.fold c.ledger)) ∨
      ∃ now, event = .login now key ∧ key ∉ c.entries := by
  have hvisit {now : Moment} {k : Visitor} {e : Entry} (h : event.Visits now k) (he : c.entries.get? k = some e) :
      c.begins event key = true ↔
        (∃ now e, event.Visits now key ∧ c.entries.get? key = some e ∧ c.Wants now (e.fold c.ledger)) ∨
          ∃ now, event = .login now key ∧ key ∉ c.entries := by
    rw [begins_visit h he]
    have hmem := Table.mem_of_get?_eq_some he
    rcases h with rfl | rfl
    · simp only [Event.Visits, Event.get.injEq, reduceCtorEq, or_false, false_and, exists_false]
      constructor
      · rintro ⟨rfl, hwants⟩
        exact ⟨now, e, ⟨rfl, rfl⟩, he, hwants⟩
      · rintro ⟨_, e', ⟨rfl, rfl⟩, he', hwants⟩
        obtain rfl := Option.some.inj (he.symm.trans he')
        exact ⟨rfl, hwants⟩
    · simp only [Event.Visits, Event.login.injEq, reduceCtorEq, false_or]
      constructor
      · rintro ⟨rfl, hwants⟩
        exact .inl ⟨now, e, ⟨rfl, rfl⟩, he, hwants⟩
      · rintro (⟨_, e', ⟨rfl, rfl⟩, he', hwants⟩ | ⟨_, ⟨-, rfl⟩, habsent⟩)
        · obtain rfl := Option.some.inj (he.symm.trans he')
          exact ⟨rfl, hwants⟩
        · exact absurd hmem habsent
  cases event with
  | get now k =>
    cases he : c.entries.get? k with
    | some e => exact hvisit (.inl rfl) he
    | none =>
      have hledger : (c.step (.get now k)).2.ledger = (c.ledger.start k .caller).2 := by
        simp only [step, get, he]
        rfl
      rw [begins_of_start hledger]
      simp only [Event.Visits, Event.get.injEq, reduceCtorEq, or_false, false_and, and_false, decide_false,
        exists_false, Bool.false_eq_true, false_iff]
      rintro ⟨_, e, ⟨-, rfl⟩, he', -⟩
      rw [he] at he'
      cases he'
  | login now k =>
    cases he : c.entries.get? k with
    | some e => exact hvisit (.inr rfl) he
    | none =>
      have hledger : (c.step (.login now k)).2.ledger = (c.ledger.start k .entry).2 := by
        simp only [step, login, he]
        rfl
      rw [begins_of_start hledger]
      simp only [Event.Visits, Event.login.injEq, reduceCtorEq, false_or, and_true, decide_eq_true_eq]
      constructor
      · rintro rfl
        exact .inr ⟨now, ⟨rfl, rfl⟩, Table.get?_eq_none_iff.1 he⟩
      · rintro (⟨_, _, ⟨-, rfl⟩, -⟩ | ⟨_, ⟨-, rfl⟩, -⟩) <;> rfl
  | refreshHandle | record | recordFor | clearWhere | purge | contains | size | complete | resume =>
    rw [begins_of_size (size_step (by simp) (by simp))]
    simp [Event.Visits]

/-! ## One entry -/

/-- The number of a visitor's entry. -/
def idAt (c : AlwaysAvailable) (key : Visitor) : Option Nat := (c.entries.get? key).map Entry.id

theorem lasting_id : Lasting Entry.id := .of_update fun _ _ _ => rfl

theorem idAt_visit {k : Visitor} (h : event.Visits now k) (he : c.entries.get? k = some e) :
    (c.step event).2.idAt key = c.idAt key := by
  refine Lasting.of_insert he ?_ (congrArg AlwaysAvailable.entries (step_visit h he))
  rcases c.refreshIfDue_cases now k (e.fold c.ledger) with ⟨-, hdue⟩ | hdue
  · rw [hdue]
    exact lasting_id.fold c.ledger e
  · rw [hdue]
    exact lasting_id.fold c.ledger e

/-- A visitor's entry keeps its number, unless it is the new one of a visitor who comes in: that has the next number. -/
theorem idAt_step {id : Nat} (h : (c.step event).2.idAt key = some id) : c.idAt key = some id ∨
    (∃ now, event = .login now key) ∧ key ∉ c.entries ∧ id = c.nextId ∧ (c.step event).2.nextId = c.nextId + 1 := by
  cases event with
  | get now k =>
    cases he : c.entries.get? k with
    | some e => exact .inl ((idAt_visit (.inl rfl) he).symm.trans h)
    | none =>
      simp only [step, get, he] at h
      exact .inl h
  | login now k =>
    cases he : c.entries.get? k with
    | some e => exact .inl ((idAt_visit (.inr rfl) he).symm.trans h)
    | none =>
      simp only [step, login, he, Prod.map, id_eq, idAt, Table.get?_insert] at h ⊢
      by_cases hk : key = k
      · subst hk
        simp only [if_true, Option.map_some, Option.some.injEq] at h
        exact .inr ⟨⟨now, rfl⟩, Table.get?_eq_none_iff.1 he, h.symm, trivial⟩
      · simp only [hk, if_false] at h
        exact .inl h
  | refreshHandle k => exact .inl ((lasting_id.refreshHandle c k key).symm.trans h)
  | record p => exact .inl ((lasting_id.record c p key).symm.trans h)
  | recordFor k p => exact .inl ((lasting_id.recordFor c k p key).symm.trans h)
  | clearWhere match? => exact .inl ((lasting_id.clearWhere c match? key).symm.trans h)
  | purge now online => exact .inl (map_get?_of_purge h)
  | contains | size | complete | resume => exact .inl h

theorem nextId_le_step (c : AlwaysAvailable) (event : Event) : c.nextId ≤ (c.step event).2.nextId := by
  cases event with
  | get now k =>
    simp only [step, get]
    split <;> exact Nat.le_refl _
  | login now k =>
    simp only [step, login]
    split
    · exact Nat.le_refl _
    · exact Nat.le_succ _
  | refreshHandle k =>
    simp only [step, refreshHandle]
    split <;> exact Nat.le_refl _
  | record p =>
    simp only [step, record]
    split <;> exact Nat.le_refl _
  | recordFor k p =>
    simp only [step, recordFor]
    split <;> exact Nat.le_refl _
  | clearWhere | purge | contains | size | complete | resume => exact Nat.le_refl _

theorem nextId_le_run (c : AlwaysAvailable) (events : List Event) : c.nextId ≤ (c.run events).nextId := by
  induction events using List.reverseRecOn with
  | nil => exact Nat.le_refl _
  | append_singleton events event ih =>
    rw [run_concat]
    exact Nat.le_trans ih (nextId_le_step _ event)

/-- Numbers that were given out lie below the next one. -/
theorem idAt_lt {id : Nat} (h : ((ofConfig config).run events).idAt key = some id) :
    id < ((ofConfig config).run events).nextId := by
  induction events using List.reverseRecOn with
  | nil => cases h
  | append_singleton events event ih =>
    rw [run_concat] at h ⊢
    rcases idAt_step h with hbefore | ⟨-, -, rfl, hnext⟩
    · exact Nat.lt_of_lt_of_le (ih hbefore) (nextId_le_step _ event)
    · rw [hnext]
      exact Nat.lt_succ_self _

/-- An entry whose number was given out before has been there ever since. -/
theorem idAt_of_run {id : Nat} (h : (c.run events).idAt key = some id) (hid : id < c.nextId) :
    c.idAt key = some id := by
  induction events using List.reverseRecOn with
  | nil => exact h
  | append_singleton events event ih =>
    rw [run_concat] at h
    rcases idAt_step h with hbefore | ⟨-, -, rfl, -⟩
    · exact ih hbefore
    · exact absurd (nextId_le_run c events) (Nat.not_le.2 hid)

/-! ## From one refresh to the next -/

theorem run_append (c : AlwaysAvailable) (before after : List Event) :
    c.run (before ++ after) = (c.run before).run after := List.foldl_append

/-- The event begins a refresh of the visitor's entry, and the entry has the number `id`. -/
def BeginsFor (c : AlwaysAvailable) (event : Event) (key : Visitor) (id : Nat) : Prop :=
  c.begins event key = true ∧ (c.step event).2.idAt key = some id

instance (c : AlwaysAvailable) (event : Event) (key : Visitor) (id : Nat) : Decidable (c.BeginsFor event key id) :=
  inferInstanceAs (Decidable (_ ∧ _))

/-- Whoever begins a refresh leaves an entry. -/
theorem exists_idAt_of_begins (h : c.begins event key = true) : ∃ id, (c.step event).2.idAt key = some id := by
  rcases begins_iff.1 h with ⟨now, e, hvisit, he, -⟩ | ⟨now, rfl, -⟩
  · refine ⟨e.id, ?_⟩
    rw [idAt_visit hvisit he, idAt, he, Option.map_some]
  · have hmem : key ∈ (c.step (.login now key)).2.entries := mem_login.2 (.inl rfl)
    obtain ⟨e, he⟩ := Option.ne_none_iff_exists'.1 fun hnone => Table.get?_eq_none_iff.1 hnone hmem
    exact ⟨e.id, by rw [idAt, he, Option.map_some]⟩

/-- Where nothing begins a refresh, the last one stays the last. -/
theorem lastBegun_of_quiet {before between : List Event}
    (h : ∀ i (hi : i < between.length), (c.run (before ++ between.take i)).begins between[i] key = false) :
    c.lastBegun key (before ++ between) = c.lastBegun key before := by
  induction between using List.reverseRecOn with
  | nil => rw [List.append_nil]
  | append_singleton between event ih =>
    have hlast := h between.length (by simp)
    simp only [List.take_left', List.getElem_concat_length] at hlast
    rw [← List.append_assoc, lastBegun_concat, hlast]
    simp only [Bool.false_eq_true, if_false, Option.none_or]
    apply ih
    intro i hi
    have hbefore := h i (by simp; omega)
    rw [List.take_append_of_le_length (Nat.le_of_lt hi), List.getElem_append_left hi] at hbefore
    exact hbefore

theorem exists_steady_of_begins (h : c.begins event key = true) : ∃ t, event.steady? = some t := by
  rcases begins_iff.1 h with ⟨now, -, rfl | rfl, -⟩ | ⟨now, rfl, -⟩ <;> exact ⟨now.steady, rfl⟩

/-- The number of an entry of which a refresh was begun was given out. -/
theorem BeginsFor.lt_nextId {before : List Event} {first : Event} {id : Nat}
    (h : ((ofConfig config).run before).BeginsFor first key id) (between : List Event) :
    id < ((ofConfig config).run (before ++ [first] ++ between)).nextId := by
  have hnumber : id < ((ofConfig config).run (before ++ [first])).nextId := by
    apply idAt_lt
    rw [run_concat]
    exact h.2
  rw [run_append]
  exact Nat.lt_of_lt_of_le hnumber (nextId_le_run _ _)

/-- Where one refresh of an entry follows another and there was none between the two, the moment of the first is the
last at which one was begun for the visitor. -/
theorem lastBegun_of_successive {before between : List Event} {first second : Event} {id : Nat}
    (hfirst : ((ofConfig config).run before).BeginsFor first key id)
    (hsecond : ((ofConfig config).run (before ++ [first] ++ between)).BeginsFor second key id)
    (hquiet : ∀ i (hi : i < between.length),
      ¬((ofConfig config).run (before ++ [first] ++ between.take i)).BeginsFor between[i] key id) :
    (ofConfig config).lastBegun key (before ++ [first] ++ between) = first.steady? := by
  obtain ⟨t, ht⟩ := exists_steady_of_begins hfirst.1
  have hnone : ∀ i (hi : i < between.length),
      ((ofConfig config).run (before ++ [first] ++ between.take i)).begins between[i] key = false := by
    intro i hi
    rw [← Bool.not_eq_true]
    intro hbegins
    -- The entry of which this would be a refresh is there at the end, and so it is that entry.
    obtain ⟨id', hid'⟩ := exists_idAt_of_begins hbegins
    have hend := hsecond.2
    rw [← run_concat, List.append_assoc _ between] at hend
    have hrest : between ++ [second] = between.take (i + 1) ++ (between.drop (i + 1) ++ [second]) := by
      rw [← List.append_assoc, List.take_append_drop]
    rw [hrest, ← List.append_assoc, run_append] at hend
    have hid := idAt_of_run hend (hfirst.lt_nextId _)
    rw [List.take_succ_eq_append_getElem hi, ← List.append_assoc, run_concat] at hid
    exact hquiet i hi ⟨hbegins, hid⟩
  rw [lastBegun_of_quiet hnone, lastBegun_concat, if_pos hfirst.1, ht, Option.some_or]

/-- Over every course of a cache that was empty: of an entry that is looked at one refresh is begun if one is due, and
is under way then, and none is begun otherwise; a refresh of the visitor's entry is begun by those who look at it when
one is due and by the visitor who comes in without an entry, and by nothing else. So of two refreshes of one entry that
follow one another the second is begun longer after the first than a refresh is fresh, or because the mute that is held
has ended. -/
theorem refreshed_when_due (config : Config) (events : List Event) :
    let c := (ofConfig config).run events
    (∀ event now key, event.Visits now key → key ∈ c.entries →
      ((ofConfig config).Due events now key →
        (c.step event).2.ledger = (c.ledger.start key .entry).2 ∧ (c.step event).2.Refreshing key) ∧
      (¬(ofConfig config).Due events now key → (c.step event).2.ledger = c.ledger)) ∧
    (∀ event key, c.begins event key = true ↔
      (∃ now, event.Visits now key ∧ key ∈ c.entries ∧ (ofConfig config).Due events now key) ∨
        ∃ now, event = .login now key ∧ key ∉ c.entries) ∧
    ∀ before first between second key id, events = before ++ first :: between →
      ((ofConfig config).run before).BeginsFor first key id → c.BeginsFor second key id →
      (∀ i (hi : i < between.length),
        ¬((ofConfig config).run (before ++ first :: between.take i)).BeginsFor between[i] key id) →
      ∃ t now, first.steady? = some t ∧ second.Visits now key ∧
        (config.expiration.toNat < now.steady.since t ∨ ∃ p ∈ (c.held key).join, p.ExpiredAt now.second) := by
  intro c
  have hbegins (event : Event) (key : Visitor) : c.begins event key = true ↔
      (∃ now, event.Visits now key ∧ key ∈ c.entries ∧ (ofConfig config).Due events now key) ∨
        ∃ now, event = .login now key ∧ key ∉ c.entries := by
    rw [begins_iff]
    refine or_congr_left (exists_congr fun now => ?_)
    constructor
    · rintro ⟨e, hvisit, he, hwants⟩
      exact ⟨hvisit, Table.mem_of_get?_eq_some he, (due_iff he).2 hwants⟩
    · rintro ⟨hvisit, hmem, hdue⟩
      obtain ⟨e, he⟩ := Option.ne_none_iff_exists'.1 fun hnone => Table.get?_eq_none_iff.1 hnone hmem
      exact ⟨e, hvisit, he, (due_iff he).1 hdue⟩
  refine ⟨fun event now key hvisit hmem => ?_, hbegins, ?_⟩
  · obtain ⟨e, he⟩ := Option.ne_none_iff_exists'.1 fun hnone => Table.get?_eq_none_iff.1 hnone hmem
    have hledger := ledger_visit hvisit he
    constructor
    · intro hdue
      have hwants := (due_iff he).1 hdue
      rw [if_pos hwants] at hledger
      exact ⟨hledger, refreshing_visit hvisit he hwants⟩
    · intro hdue
      rw [if_neg (mt (due_iff he).2 hdue)] at hledger
      exact hledger
  · intro before first between second key id hevents hfirst hsecond hquiet
    rw [List.append_cons] at hevents
    subst hevents
    have hbetween : ∀ i (hi : i < between.length),
        ¬((ofConfig config).run (before ++ [first] ++ between.take i)).BeginsFor between[i] key id := by
      intro i hi
      rw [← List.append_cons]
      exact hquiet i hi
    obtain ⟨t, ht⟩ := exists_steady_of_begins hfirst.1
    rcases (hbegins second key).1 hsecond.1 with ⟨now, hvisit, -, -, hdue⟩ | ⟨now, rfl, habsent⟩
    · rw [lastBegun_of_successive hfirst hsecond hbetween, ht] at hdue
      refine ⟨t, now, ht, hvisit, hdue.imp_left ?_⟩
      rintro ⟨_, ⟨⟩, hold⟩
      exact hold
    · -- The entry of a visitor who comes in without one has a new number.
      exfalso
      rcases idAt_step hsecond.2 with hbefore | ⟨-, -, rfl, -⟩
      · rw [idAt, Table.get?_eq_none_iff.2 habsent] at hbefore
        cases hbefore
      · exact Nat.lt_irrefl _ (hfirst.lt_nextId _)

/-- A visitor comes in and is told of a mute, and another one replaces it that is cleared. As long as the first refresh
is fresh no look-up begins another one, a millisecond later one does. -/
theorem refreshed_when_due_late :
    let key : Visitor := default
    let p : Punishment := ⟨1, .mute, .player key.user, .console, "spam", .global, 0, 2000⟩
    let q : Punishment := ⟨2, .mute, .player key.user, .console, "flood", .global, 0, 0⟩
    let first : Event := .login ⟨1000, 1000⟩ key
    let between : List Event := [.complete 0 (some p), .get ⟨2000, 1000⟩ key, .recordFor key q,
      .clearWhere fun p => p.id = 2, .purge ⟨60000, 1000⟩ fun _ => true, .login ⟨61000, 1000⟩ key]
    let second : Event := .get ⟨61001, 1000⟩ key
    let c := (ofConfig {}).run ([] ++ first :: between)
    (c.step (.get ⟨61000, 1000⟩ key)).2.ledger = c.ledger ∧ (c.step second).2.Refreshing key ∧
      ∃ t now, first.steady? = some t ∧ second.Visits now key ∧
        (({} : Config).expiration.toNat < now.steady.since t ∨ ∃ p ∈ (c.held key).join, p.ExpiredAt now.second) := by
  intro key p q first between second c
  obtain ⟨hvisits, -, hsuccessive⟩ := refreshed_when_due {} ([] ++ first :: between)
  have hmem : key ∈ c.entries := by decide +kernel
  have hfresh : ¬(ofConfig {}).Due ([] ++ first :: between) ⟨61000, 1000⟩ key := by decide +kernel
  have hdue : (ofConfig {}).Due ([] ++ first :: between) ⟨61001, 1000⟩ key := by decide +kernel
  obtain ⟨-, hearly⟩ := hvisits (.get ⟨61000, 1000⟩ key) ⟨61000, 1000⟩ key (.inl rfl) hmem
  obtain ⟨hlate, -⟩ := hvisits second ⟨61001, 1000⟩ key (.inl rfl) hmem
  refine ⟨by rw [hearly hfresh], (hlate hdue).2, ?_⟩
  have hfirst : ((ofConfig {}).run []).BeginsFor first key 0 := by decide +kernel
  have hsecond : c.BeginsFor second key 0 := by decide +kernel
  have hquiet : ∀ i (hi : i < between.length),
      ¬((ofConfig {}).run ([] ++ first :: between.take i)).BeginsFor between[i] key 0 := by decide +kernel
  exact hsuccessive [] first between second key 0 rfl hfirst hsecond hquiet

end Moderation.Mute.AlwaysAvailable
