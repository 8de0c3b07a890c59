import Mathlib.Data.List.Induction
import Moderation.Proofs.Mute.Course
import Moderation.Proofs.Mute.Recording
/-!
# Who has an entry

A cache that always has an answer has an entry for everyone who has come in since the last sweep that removed the
entry, and for no one else. A sweep goes by the moment at which a refresh was last begun for an entry, which every
entry carries along (`refreshedAt_run`). So who has come in and is online whenever the cache is swept is answered
at once: `always_available`.
-/

namespace Moderation.Mute.AlwaysAvailable

variable {c : AlwaysAvailable} {key : Visitor}

/-! ## What a course says -/

/-- The steady clock's reading, at those events that read it. -/
def Event.steady? : Event → Option Timestamp
  | .get now _ | .login now _ | .purge now _ => some now.steady
  | _ => none

/-- The event begins an inquiry for the visitor's entry. -/
def begins (c : AlwaysAvailable) (event : Event) (key : Visitor) : Bool :=
  ((c.step event).2.ledger.inquiries.toList.drop c.ledger.size).any fun i => i.key = key ∧ i.purpose = .entry

/-- When an inquiry for the visitor's entry was last begun. -/
def lastBegun (c : AlwaysAvailable) (key : Visitor) : List Event → Option Timestamp
  | [] => none
  | event :: events =>
    ((c.step event).2.lastBegun key events).or (if c.begins event key then event.steady? else none)

/-- The event is a sweep that removes the visitor's entry. -/
def Removes (c : AlwaysAvailable) (event : Event) (key : Visitor) : Prop :=
  (∃ now online, event = .purge now online) ∧ key ∈ c.entries ∧ key ∉ (c.step event).2.entries

/-- The visitor has come in since the last sweep that removed the visitor's entry. -/
def CameIn (c : AlwaysAvailable) (events : List Event) (key : Visitor) : Prop :=
  ∃ before now after, events = before ++ .login now key :: after ∧
    ∀ between event rest, after = between ++ event :: rest →
      ¬(c.run (before ++ .login now key :: between)).Removes event key

theorem lastBegun_concat (c : AlwaysAvailable) (key : Visitor) (events : List Event) (event : Event) :
    c.lastBegun key (events ++ [event]) =
      (if (c.run events).begins event key then event.steady? else none).or (c.lastBegun key events) := by
  induction events generalizing c with
  | nil => exact Option.or_none.symm
  | cons first events ih =>
    rw [List.cons_append, lastBegun, ih, Option.or_assoc]
    rfl

/-- Of a course with one event more, an event is the last one or one of those before it. -/
theorem split_concat {events before after : List Event} {last event : Event}
    (h : events ++ [last] = before ++ event :: after) :
    (before = events ∧ event = last ∧ after = []) ∨
      ∃ rest, after = rest ++ [last] ∧ events = before ++ event :: rest := by
  rcases List.eq_nil_or_concat after with rfl | ⟨rest, end_, rfl⟩
  · obtain ⟨hevents, hlast⟩ := List.append_inj' h rfl
    exact .inl ⟨hevents.symm, (List.singleton_inj.1 hlast).symm, rfl⟩
  · rw [List.concat_eq_append, ← List.cons_append, ← List.append_assoc] at h
    obtain ⟨hevents, hlast⟩ := List.append_inj' h rfl
    obtain rfl := List.singleton_inj.1 hlast
    exact .inr ⟨rest, List.concat_eq_append, hevents⟩

theorem cameIn_concat {events : List Event} {event : Event} : c.CameIn (events ++ [event]) key ↔
    (∃ now, event = .login now key) ∨ c.CameIn events key ∧ ¬(c.run events).Removes event key := by
  constructor
  · rintro ⟨before, now, after, hevents, hkept⟩
    rcases split_concat hevents with ⟨-, hlogin, -⟩ | ⟨rest, rfl, rfl⟩
    · exact .inl ⟨now, hlogin.symm⟩
    · refine .inr ⟨⟨before, now, rest, rfl, ?_⟩, hkept rest event [] rfl⟩
      rintro between e later rfl
      exact hkept between e (later ++ [event]) (by simp)
  · rintro (⟨now, rfl⟩ | ⟨⟨before, now, after, rfl, hkept⟩, hnot⟩)
    · exact ⟨events, now, [], rfl, by simp⟩
    · refine ⟨before, now, after ++ [event], by simp, fun between e rest h => ?_⟩
      rcases split_concat h with ⟨rfl, rfl, -⟩ | ⟨later, -, hafter⟩
      · exact hnot
      · exact hkept between e later hafter

/-! ## What an event does to the entries -/

/-- Only those who come in and sweeps change who has an entry. -/
theorem keys_step {event : Event} (hlogin : ∀ now key, event ≠ .login now key)
    (hpurge : ∀ now online, event ≠ .purge now online) : (c.step event).2.entries.keys = c.entries.keys := by
  cases event with
  | login now k => exact absurd rfl (hlogin now k)
  | purge now online => exact absurd rfl (hpurge now online)
  | get now k =>
    simp only [step, get]
    split
    · next e he => exact Table.keys_insert_of_mem (Table.mem_of_get?_eq_some he) _
    · rfl
  | refreshHandle k =>
    simp only [step, refreshHandle]
    split
    · next e he => exact Table.keys_insert_of_mem (Table.mem_of_get?_eq_some he) _
    · rfl
  | record p =>
    simp only [step, record]
    split
    · exact Table.keys_mapRows _ _
    · rfl
  | recordFor k p =>
    simp only [step, recordFor]
    split
    · exact Table.keys_mapRows _ _
    · rfl
  | clearWhere match? => exact (Table.keys_mapRows _ _).trans (Table.keys_mapRows _ _)
  | contains | size | complete | resume => rfl

/-- Whoever comes in has an entry then, and who had one keeps it. -/
theorem mem_login {now : Moment} {k : Visitor} : key ∈ (c.login now k).2.entries ↔ key = k ∨ key ∈ c.entries := by
  unfold login
  split <;> exact Table.mem_insert

theorem mem_step {event : Event} : key ∈ (c.step event).2.entries ↔
    (∃ now, event = .login now key) ∨ key ∈ c.entries ∧ ¬c.Removes event key := by
  by_cases hlogin : ∃ now k, event = .login now k
  · obtain ⟨now, k, rfl⟩ := hlogin
    have hkept : ¬c.Removes (.login now k) key := by
      rintro ⟨⟨_, _, h⟩, -⟩
      cases h
    simp only [Event.login.injEq, exists_eq_left', hkept, not_false_eq_true, and_true]
    exact mem_login.trans (or_congr_left eq_comm)
  · have hother : ¬∃ now, event = .login now key := fun ⟨now, h⟩ => hlogin ⟨now, key, h⟩
    simp only [hother, false_or, Removes, not_and, not_not]
    by_cases hpurge : ∃ now online, event = .purge now online
    · obtain ⟨now, online, rfl⟩ := hpurge
      have hsub : key ∈ (c.step (.purge now online)).2.entries → key ∈ c.entries := fun h => by
        obtain ⟨r, hr, rfl⟩ := List.mem_map.1 h
        exact List.mem_map_of_mem (List.mem_of_mem_filter hr)
      exact ⟨fun h => ⟨hsub h, fun _ _ => h⟩, fun ⟨h, hkept⟩ => hkept ⟨now, online, rfl⟩ h⟩
    · have hkeys := keys_step (c := c) (fun now k h => hlogin ⟨now, k, h⟩) fun now online h => hpurge ⟨now, online, h⟩
      simp only [Table.mem_def, hkeys, hpurge, false_imp_iff, and_true]

/-! ## When a refresh was last begun -/

/-- The moment that the entry of a visitor carries along. -/
def refreshedAt (c : AlwaysAvailable) (key : Visitor) : Option Timestamp :=
  (c.entries.get? key).map Entry.refreshed

theorem begins_of_size {event : Event} (h : (c.step event).2.ledger.size = c.ledger.size) :
    c.begins event key = false := by
  have hnew : (c.step event).2.ledger.inquiries.toList.drop c.ledger.size = [] := by
    apply List.drop_eq_nil_of_le
    rw [Array.length_toList]
    exact Nat.le_of_eq h
  rw [begins, hnew]
  rfl

theorem begins_of_start {event : Event} {k : Visitor} {purpose : Purpose}
    (h : (c.step event).2.ledger = (c.ledger.start k purpose).2) :
    c.begins event key = decide (k = key ∧ purpose = .entry) := by
  have hnew : (c.step event).2.ledger.inquiries.toList.drop c.ledger.size = [{ key := k, purpose }] := by
    rw [h]
    simp [Ledger.start, Ledger.size]
  rw [begins, hnew]
  simp

/-- The event is a look-up of the visitor or the visitor comes in. -/
def Event.Visits (now : Moment) (key : Visitor) (event : Event) : Prop := event = .get now key ∨ event = .login now key

/-- Of an entry that is looked at, a refresh is begun if one is due. -/
theorem step_visit {event : Event} {now : Moment} {e : Entry} (h : event.Visits now key)
    (he : c.entries.get? key = some e) :
    (c.step event).2 = { c with
      entries := c.entries.insert key (c.refreshIfDue now key (e.fold c.ledger)).1
      ledger := (c.refreshIfDue now key (e.fold c.ledger)).2 } := by
  rcases h with rfl | rfl
  · simp only [step, get, he]
    rfl
  · simp only [step, login, he]
    rfl

/-- The moment of an entry that is looked at. -/
theorem refreshedAt_visit {event : Event} {now : Moment} {k : Visitor} {e : Entry} {t : Timestamp}
    (hvisit : event.Visits now k) (he : c.entries.get? k = some e) (h : (c.step event).2.refreshedAt key = some t) :
    (if c.begins event key then event.steady? else c.refreshedAt key) = some t := by
  have hsteady : event.steady? = some now.steady := by
    rcases hvisit with rfl | rfl <;> rfl
  have hstep := step_visit hvisit he
  unfold refreshIfDue at hstep
  split at hstep
  · have hledger : (c.step event).2.ledger = (c.ledger.start k .entry).2 := by rw [hstep]
    rw [hstep, refreshedAt, Table.get?_insert] at h
    rw [begins_of_start hledger]
    by_cases hk : key = k
    · subst hk
      simpa [hsteady] using h
    · simpa [hk, Ne.symm hk, refreshedAt] using h
  · have hledger : (c.step event).2.ledger = c.ledger := by rw [hstep]
    rw [hstep, refreshedAt, Table.get?_insert] at h
    rw [begins_of_size (by rw [hledger])]
    by_cases hk : key = k
    · subst hk
      simpa [refreshedAt, he] using h
    · simpa [hk, refreshedAt] using h

/-- An event that begins no inquiry leaves the entries their moments. -/
theorem refreshedAt_quiet {event : Event} {t : Timestamp} (hsize : (c.step event).2.ledger.size = c.ledger.size)
    (h : c.refreshedAt key = some t) : (if c.begins event key then event.steady? else c.refreshedAt key) = some t := by
  rw [begins_of_size hsize]
  exact h

/-- What stays the same in an entry when it takes a refresh over, a mute is recorded or it is cleared. -/
structure Lasting {α : Type} (g : Entry → α) : Prop where
  fold (l : Ledger) (e : Entry) : g (e.fold l) = g e
  merge (l : Ledger) (p : Punishment) (e : Entry) : g (e.merge l p) = g e
  clear (match? : Punishment → Bool) (e : Entry) : g (e.clear match?) = g e

/-- What does not depend on the mute that is held and on the refresh under way lasts. -/
theorem Lasting.of_update {α : Type} {g : Entry → α}
    (h : ∀ e current next, g { e with current := current, next := next } = g e) : Lasting g := by
  have hfold (l : Ledger) (e : Entry) : g (e.fold l) = g e := by
    unfold Entry.fold
    split
    · exact h e _ _
    · rfl
  refine ⟨hfold, fun l p e => ?_, fun match? e => ?_⟩
  · unfold Entry.merge
    dsimp only
    split
    · exact hfold l e
    · exact (h (e.fold l) _ _).trans (hfold l e)
  · unfold Entry.clear
    split
    · exact h e _ _
    · rfl

theorem lasting_refreshed : Lasting Entry.refreshed := .of_update fun _ _ _ => rfl

namespace Lasting

variable {α : Type} {g : Entry → α}

theorem of_map {c' : AlwaysAvailable} {f : Entry → Entry} (hf : ∀ e, g (f e) = g e)
    (h : c'.entries.get? key = (c.entries.get? key).map f) :
    (c'.entries.get? key).map g = (c.entries.get? key).map g := by
  rw [h, Option.map_map]
  congr 1
  funext e
  exact hf e

/-- An entry is put in the place of one. -/
theorem of_insert {c' : AlwaysAvailable} {k : Visitor} {e e' : Entry} (he : c.entries.get? k = some e)
    (hg : g e' = g e) (h : c'.entries = c.entries.insert k e') :
    (c'.entries.get? key).map g = (c.entries.get? key).map g := by
  rw [h, Table.get?_insert]
  split
  · next hk =>
    subst hk
    rw [he, Option.map_some, Option.map_some, hg]
  · rfl

theorem refreshHandle (hg : Lasting g) (c : AlwaysAvailable) (k key : Visitor) :
    ((c.refreshHandle k).2.entries.get? key).map g = (c.entries.get? key).map g := by
  unfold AlwaysAvailable.refreshHandle
  split
  · next e he => exact of_insert he (hg.fold c.ledger e) rfl
  · rfl

theorem record (hg : Lasting g) (c : AlwaysAvailable) (p : Punishment) (key : Visitor) :
    ((c.record p).entries.get? key).map g = (c.entries.get? key).map g := by
  refine of_map (fun e => ?_) (c.get?_record p key)
  split
  · exact hg.merge c.ledger p e
  · rfl

theorem recordFor (hg : Lasting g) (c : AlwaysAvailable) (k : Visitor) (p : Punishment) (key : Visitor) :
    ((c.recordFor k p).entries.get? key).map g = (c.entries.get? key).map g := by
  refine of_map (fun e => ?_) (c.get?_recordFor k p key)
  split
  · exact hg.merge c.ledger p e
  · rfl

theorem clearWhere (hg : Lasting g) (c : AlwaysAvailable) (match? : Punishment → Bool) (key : Visitor) :
    ((c.clearWhere match?).2.entries.get? key).map g = (c.entries.get? key).map g := by
  refine of_map (f := fun e => (e.fold c.ledger).clear match?) (fun e => ?_) ?_
  · rw [hg.clear, hg.fold]
  · simp only [AlwaysAvailable.clearWhere, Table.get?_mapRows, Option.map_map]
    rfl

end Lasting

/-- A sweep leaves the entries that it does not remove as they are. -/
theorem map_get?_of_purge {α : Type} {g : Entry → α} {now : Moment} {online : Uuid → Bool} {a : α}
    (h : ((c.purge now online).2.entries.get? key).map g = some a) : (c.entries.get? key).map g = some a := by
  obtain ⟨e, he, rfl⟩ := Option.map_eq_some_iff.1 h
  simp only [purge, Table.get?_filter, Option.filter_eq_some_iff] at he
  rw [he.1, Option.map_some]

/-- The moment that an entry carries along is that of the event at which a refresh was begun for it. -/
theorem refreshedAt_step {event : Event} {t : Timestamp} (h : (c.step event).2.refreshedAt key = some t) :
    (if c.begins event key then event.steady? else c.refreshedAt key) = some t := by
  cases event with
  | get now k =>
    cases he : c.entries.get? k with
    | some e => exact refreshedAt_visit (.inl rfl) he h
    | none =>
      have hstep : (c.step (.get now k)).2 = { c with ledger := (c.ledger.start k .caller).2 } := by
        simp only [step, get, he]
        rfl
      rw [begins_of_start (by rw [hstep])]
      rw [hstep] at h
      simpa [refreshedAt] using h
  | login now k =>
    cases he : c.entries.get? k with
    | some e => exact refreshedAt_visit (.inr rfl) he h
    | none =>
      have hledger : (c.step (.login now k)).2.ledger = (c.ledger.start k .entry).2 := by
        simp only [step, login, he]
        rfl
      rw [begins_of_start hledger]
      simp only [step, login, he, Prod.map, id, refreshedAt, Table.get?_insert] at h
      by_cases hk : key = k
      · subst hk
        simpa [Event.steady?] using h
      · simpa [hk, Ne.symm hk, refreshedAt] using h
  | refreshHandle k =>
    refine refreshedAt_quiet ?_ ((lasting_refreshed.refreshHandle c k key).symm.trans h)
    simp only [step, refreshHandle]
    split <;> rfl
  | record p =>
    exact refreshedAt_quiet (congrArg Ledger.size (c.ledger_record p)) ((lasting_refreshed.record c p key).symm.trans h)
  | recordFor k p =>
    exact refreshedAt_quiet (congrArg Ledger.size (c.ledger_recordFor k p))
      ((lasting_refreshed.recordFor c k p key).symm.trans h)
  | clearWhere match? => exact refreshedAt_quiet rfl ((lasting_refreshed.clearWhere c match? key).symm.trans h)
  | purge now online => exact refreshedAt_quiet rfl (map_get?_of_purge h)
  | complete q v => exact refreshedAt_quiet Array.size_modify h
  | contains | size | resume => exact refreshedAt_quiet rfl h

/-! ## Whole courses -/

variable {config : Config} {events : List Event}

theorem refreshedAt_run {t : Timestamp} (h : ((ofConfig config).run events).refreshedAt key = some t) :
    (ofConfig config).lastBegun key events = some t := by
  induction events using List.reverseRecOn generalizing t with
  | nil => cases h
  | append_singleton events event ih =>
    rw [run_concat] at h
    have hstep := refreshedAt_step h
    rw [lastBegun_concat]
    split at hstep
    · rw [if_pos (by assumption), hstep, Option.some_or]
    · rw [if_neg (by assumption), Option.none_or]
      exact ih hstep

theorem mem_run_iff : key ∈ ((ofConfig config).run events).entries ↔ (ofConfig config).CameIn events key := by
  induction events using List.reverseRecOn with
  | nil =>
    constructor
    · intro h
      cases h
    · rintro ⟨before, now, after, hevents, -⟩
      exact absurd hevents.symm (by simp)
  | append_singleton events event ih => rw [run_concat, mem_step, cameIn_concat, ih]

/-- No event changes how long refreshes are fresh and entries are kept. -/
theorem settings_step (c : AlwaysAvailable) (event : Event) :
    (c.step event).2.expiration = c.expiration ∧ (c.step event).2.grace = c.grace := by
  cases event with
  | get now k =>
    simp only [step, get]
    split <;> exact ⟨rfl, rfl⟩
  | login now k =>
    simp only [step, login]
    split <;> exact ⟨rfl, rfl⟩
  | refreshHandle k =>
    simp only [step, refreshHandle]
    split <;> exact ⟨rfl, rfl⟩
  | record p =>
    simp only [step, record]
    split <;> exact ⟨rfl, rfl⟩
  | recordFor k p =>
    simp only [step, recordFor]
    split <;> exact ⟨rfl, rfl⟩
  | clearWhere | purge | contains | size | complete | resume => exact ⟨rfl, rfl⟩

theorem settings_run (c : AlwaysAvailable) (events : List Event) :
    (c.run events).expiration = c.expiration ∧ (c.run events).grace = c.grace := by
  induction events using List.reverseRecOn with
  | nil => exact ⟨rfl, rfl⟩
  | append_singleton events event ih =>
    obtain ⟨hexpiration, hgrace⟩ := settings_step (c.run events) event
    rw [run_concat, hexpiration, hgrace]
    exact ih

/-- The visitor is not online, and since a refresh was last begun for the visitor's entry more than the grace period
has gone by. -/
def Overdue (c : AlwaysAvailable) (events : List Event) (now : Moment) (online : Uuid → Bool) (key : Visitor) : Prop :=
  online key.user = false ∧ ∃ t ∈ c.lastBegun key events, c.grace.toNat < now.steady.since t

instance (c : AlwaysAvailable) (events : List Event) (now : Moment) (online : Uuid → Bool) (key : Visitor) :
    Decidable (c.Overdue events now online key) :=
  inferInstanceAs (Decidable (_ ∧ ∃ t ∈ c.lastBegun key events, c.grace.toNat < now.steady.since t))

/-- A sweep removes the entries that are overdue, leaves the others as they are, and counts those that it removes. -/
theorem purge_run (config : Config) (events : List Event) (now : Moment) (online : Uuid → Bool) :
    let c := (ofConfig config).run events
    (c.purge now online).1 = c.entries.keys.countP (fun key => (ofConfig config).Overdue events now online key) ∧
      ∀ key, (c.purge now online).2.entries.get? key =
        if (ofConfig config).Overdue events now online key then none else c.entries.get? key := by
  intro c
  have hgone : ∀ key e, c.entries.get? key = some e → decide ((ofConfig config).Overdue events now online key) =
      !(online key.user || !decide (c.grace.toNat < now.steady.since e.refreshed)) := by
    intro key e he
    have hlast : (ofConfig config).lastBegun key events = some e.refreshed :=
      refreshedAt_run (by rw [refreshedAt, he, Option.map_some])
    have hgrace : c.grace = (ofConfig config).grace := (settings_run _ events).2
    simp only [Overdue, hlast, hgrace]
    cases online key.user <;> simp
  constructor
  · exact Table.size_sub_size_filter hgone
  · intro key
    have hkept := Table.get?_filter_of_gone hgone key
    simp only [decide_eq_true_eq] at hkept
    exact hkept

/-- A sweep leaves those who are online their entries. -/
theorem not_removes_of_online {event : Event}
    (h : ∀ now online, event = .purge now online → online key.user = true) : ¬c.Removes event key := by
  rintro ⟨⟨now, online, rfl⟩, hmem, hgone⟩
  apply hgone
  obtain ⟨r, hr, rfl⟩ := List.mem_map.1 hmem
  exact List.mem_map_of_mem (List.mem_filter.2 ⟨hr, Bool.or_eq_true_iff.2 (.inl (h now online rfl))⟩)

/-- Whoever has come in and is online at every sweep has an entry. -/
theorem mem_run_of_online {now : Moment} {after : List Event}
    (h : ∀ sweep online, Event.purge sweep online ∈ after → online key.user = true) :
    key ∈ ((ofConfig config).run (events ++ .login now key :: after)).entries := by
  refine mem_run_iff.2 ⟨events, now, after, rfl, ?_⟩
  rintro between event rest rfl
  apply not_removes_of_online
  rintro sweep online rfl
  exact h sweep online (by simp)

/-- Over every course of a cache that was empty: there is an entry for those and only those who have come in since the
last sweep that removed their entry; nothing but coming in and sweeps changes for whom there is one; a sweep removes
the entries of those who are not online and for whom a refresh was last begun more than the grace period ago, and
counts them. So whoever has come in and is online at every sweep has an entry, and a look-up answers with what the
entry holds before the look-up. -/
theorem always_available (config : Config) (events : List Event) :
    let c := (ofConfig config).run events
    (∀ key, key ∈ c.entries ↔ (ofConfig config).CameIn events key) ∧
    (∀ event, (∀ now key, event ≠ .login now key) → (∀ now online, event ≠ .purge now online) →
      (c.step event).2.entries.keys = c.entries.keys) ∧
    (∀ now online,
      (c.purge now online).1 = c.entries.keys.countP (fun key => (ofConfig config).Overdue events now online key) ∧
      ∀ key, (c.purge now online).2.entries.get? key =
        if (ofConfig config).Overdue events now online key then none else c.entries.get? key) ∧
    ∀ before now key after, events = before ++ .login now key :: after →
      (∀ sweep online, Event.purge sweep online ∈ after → online key.user = true) →
      ∃ e ∈ c.entries.get? key, ∀ now, (c.get now key).1 = .value (unexpired now.second (e.fold c.ledger).current) := by
  intro c
  refine ⟨fun key => mem_run_iff, fun event => keys_step, purge_run config events, ?_⟩
  rintro before now key after rfl honline
  obtain ⟨e, he⟩ := Option.ne_none_iff_exists'.1 fun h => Table.get?_eq_none_iff.1 h (mem_run_of_online honline)
  exact ⟨e, he, fun now => get_of_held (by rw [held, he, Option.map_some]) now⟩

/-- Of two who have come in, a sweep after the grace period removes the one who has left. -/
theorem available_after_sweep :
    let stays : Visitor := default
    let leaves : Visitor := { user := ⟨List.replicate 16 1, rfl⟩, address := default }
    let p : Punishment := ⟨1, .mute, .player stays.user, .console, "spam", .global, 0, 0⟩
    let before : List Event := [.login ⟨1000, 1000⟩ leaves]
    let sweep : List Event := [.complete 1 (some p), .purge ⟨241001, 1000⟩ fun user => decide (user = stays.user)]
    let c := (ofConfig {}).run (before ++ .login ⟨1000, 1000⟩ stays :: sweep)
    (c.step (.get ⟨241001, 1000⟩ leaves)).2.entries.keys = c.entries.keys ∧ leaves ∉ c.entries ∧
      c.held stays = some (some p) ∧ ∃ e ∈ c.entries.get? stays, ∀ now,
        (c.get now stays).1 = .value (unexpired now.second (e.fold c.ledger).current) := by
  intro stays leaves p before sweep c
  obtain ⟨-, hkeys, -, hstays⟩ := always_available {} (before ++ .login ⟨1000, 1000⟩ stays :: sweep)
  refine ⟨hkeys (.get _ leaves) (by simp) (by simp), by decide +kernel, by decide +kernel, ?_⟩
  apply hstays before ⟨1000, 1000⟩ stays sweep rfl
  intro now online hsweep
  simp only [sweep, List.mem_cons, List.not_mem_nil, or_false, reduceCtorEq, false_or, Event.purge.injEq] at hsweep
  obtain ⟨-, rfl⟩ := hsweep
  exact decide_eq_true rfl

end Moderation.Mute.AlwaysAvailable
