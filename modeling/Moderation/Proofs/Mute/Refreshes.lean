import Mathlib.Data.List.Induction
import Moderation.Proofs.Mute.Eager
import Moderation.Proofs.Mute.Presence
/-!
# Refreshes under way

While the store has not answered, an entry waits for its refresh and nothing but a sweep takes the refresh away from
it: what is recorded meanwhile is lost, what is cleared is cleared until the answer is there, and then the answer is
held, `refresh_wins`. So one refresh at most is under way for an entry. A sweep can remove the entry all the same, and
whoever comes in after that gets a new entry with a refresh of its own: `outstanding_unique` counts from the last such
sweep.
-/

namespace Moderation.Mute

/-! ## Inquiries about a visitor -/

namespace Ledger

variable {l : Ledger} {q : InquiryId} {key : Visitor}

/-- How many inquiries about a visitor were made. -/
def asked (l : Ledger) (key : Visitor) : Nat := (l.inquiries.map Inquiry.key).count key

theorem asked_start (l : Ledger) (k : Visitor) (purpose : Purpose) (key : Visitor) :
    (l.start k purpose).2.asked key = l.asked key + if k = key then 1 else 0 := by
  simp [asked, start, Array.count_push]

theorem asked_complete (l : Ledger) (q : InquiryId) (v : Option Punishment) (key : Visitor) :
    (l.complete q v).asked key = l.asked key := by
  have hkeys : (l.complete q v).inquiries.map Inquiry.key = l.inquiries.map Inquiry.key := by
    apply Array.ext_getElem?
    intro q'
    rw [Array.getElem?_map, Array.getElem?_map, inquiries_complete]
    split
    · rw [Option.map_map]
      rfl
    · rfl
  rw [asked, hkeys, asked]

theorem Awaits.lt_size (h : l.Awaits q) : q < l.size := by
  obtain ⟨i, hi, -⟩ := h
  exact (Array.getElem?_eq_some_iff.1 hi).1

theorem Awaits.start (h : l.Awaits q) (key : Visitor) (purpose : Purpose) : (l.start key purpose).2.Awaits q := by
  obtain ⟨i, hi, hanswer⟩ := h
  refine ⟨i, ?_, hanswer⟩
  rw [getElem?_start, if_neg (Nat.ne_of_lt (Awaits.lt_size ⟨i, hi, hanswer⟩))]
  exact hi

theorem Awaits.complete (h : l.Awaits q) {q' : InquiryId} (hne : q' ≠ q) (v : Option Punishment) :
    (l.complete q' v).Awaits q := by
  obtain ⟨i, hi, hanswer⟩ := h
  refine ⟨i, ?_, hanswer⟩
  rw [inquiries_complete, if_neg hne]
  exact hi

/-- An inquiry for the visitor's entry was made and has no answer yet. -/
def Outstanding (l : Ledger) (key : Visitor) (q : InquiryId) : Prop :=
  ∃ i ∈ l.inquiries[q]?, i.key = key ∧ i.purpose = .entry ∧ i.answer = none

instance (l : Ledger) (key : Visitor) (q : InquiryId) : Decidable (l.Outstanding key q) :=
  inferInstanceAs (Decidable (∃ i ∈ l.inquiries[q]?, _))

theorem Outstanding.awaits (h : l.Outstanding key q) : l.Awaits q := by
  obtain ⟨i, hi, -, -, hanswer⟩ := h
  exact ⟨i, hi, hanswer⟩

/-- An inquiry that is outstanding when one more is made is that one or was outstanding before. -/
theorem outstanding_start {k : Visitor} {purpose : Purpose} (h : (l.start k purpose).2.Outstanding key q) :
    (q = l.size ∧ k = key ∧ purpose = .entry) ∨ l.Outstanding key q := by
  obtain ⟨i, hi, hi'⟩ := h
  rw [getElem?_start] at hi
  split at hi
  · next hq =>
    obtain rfl := Option.some.inj hi
    exact .inl ⟨hq, hi'.1, hi'.2.1⟩
  · exact .inr ⟨i, hi, hi'⟩

/-- An inquiry that is outstanding after an answer is another one and was outstanding before. -/
theorem outstanding_complete {q' : InquiryId} {v : Option Punishment} (h : (l.complete q' v).Outstanding key q) :
    q' ≠ q ∧ l.Outstanding key q := by
  obtain ⟨i, hi, hi'⟩ := h
  rw [inquiries_complete] at hi
  split at hi
  · obtain ⟨j, -, rfl⟩ := Option.map_eq_some_iff.1 hi
    cases hi'.2.2
  · next hne => exact ⟨hne, i, hi, hi'⟩

end Ledger

namespace AlwaysAvailable

variable {c : AlwaysAvailable} {key : Visitor} {e : Entry} {q : InquiryId}

/-! ## What an event does while a refresh is under way -/

/-- The event is no sweep, and is not the answer to the inquiry. -/
def Event.Spares (q : InquiryId) : Event → Prop
  | .purge _ _ => False
  | .complete q' _ => q' ≠ q
  | _ => True

instance (q : InquiryId) : (event : Event) → Decidable (event.Spares q)
  | .purge _ _ => inferInstanceAs (Decidable False)
  | .complete q' _ => inferInstanceAs (Decidable (q' ≠ q))
  | .get _ _ | .login _ _ | .refreshHandle _ | .record _ | .recordFor _ _ | .clearWhere _ | .contains _ | .size
  | .resume _ => inferInstanceAs (Decidable True)

/-- What an event leaves of the mute that is held while a refresh is under way: clearing alone takes it away. -/
def Event.leaves (held : Option Punishment) : Event → Option Punishment
  | .clearWhere match? => held.filter fun p => !match? p
  | _ => held

/-- A refresh is begun for an entry for which none is under way, or the entry is left alone. -/
theorem refreshIfDue_cases (c : AlwaysAvailable) (now : Moment) (key : Visitor) (e : Entry) :
    (e.next = none ∧ c.refreshIfDue now key e =
      ({ e with next := some c.ledger.size, refreshed := now.steady }, (c.ledger.start key .entry).2)) ∨
    c.refreshIfDue now key e = (e, c.ledger) := by
  unfold refreshIfDue
  split
  · next hdue => exact .inl ⟨hdue.1, rfl⟩
  · exact .inr rfl

/-- What an event makes of the inquiries: nothing, or an answer, or a new one about a visitor for whom no refresh
was under way; and if that one is for an entry, the entry waits for it. -/
theorem ledger_step (c : AlwaysAvailable) (event : Event) :
    (c.step event).2.ledger = c.ledger ∨
    (∃ q v, event = .complete q v ∧ (c.step event).2.ledger = c.ledger.complete q v) ∨
    ∃ k purpose, (c.step event).2.ledger = (c.ledger.start k purpose).2 ∧
      (∀ e, c.entries.get? k = some e → (e.fold c.ledger).next = none) ∧
      (purpose = .entry → ∃ e, (c.step event).2.entries.get? k = some e ∧ e.next = some c.ledger.size) := by
  cases event with
  | get now k =>
    simp only [step, get]
    cases he : c.entries.get? k with
    | none => exact .inr (.inr ⟨k, .caller, rfl, by simp [he], by simp⟩)
    | some e =>
      rcases c.refreshIfDue_cases now k (e.fold c.ledger) with ⟨hnext, hdue⟩ | hdue
      · refine .inr (.inr ⟨k, .entry, by simp [hdue], by simpa [he] using hnext, fun _ => ?_⟩)
        simp [hdue, Table.get?_insert]
      · exact .inl (by simp [hdue])
  | login now k =>
    simp only [step, login]
    cases he : c.entries.get? k with
    | none =>
      refine .inr (.inr ⟨k, .entry, rfl, by simp [he], fun _ => ?_⟩)
      simp [Table.get?_insert, Ledger.start]
    | some e =>
      rcases c.refreshIfDue_cases now k (e.fold c.ledger) with ⟨hnext, hdue⟩ | hdue
      · refine .inr (.inr ⟨k, .entry, by simp [hdue], by simpa [he] using hnext, fun _ => ?_⟩)
        simp [hdue, Table.get?_insert]
      · exact .inl (by simp [hdue])
  | refreshHandle k =>
    refine .inl ?_
    simp only [step, refreshHandle]
    split <;> rfl
  | record p => exact .inl (c.ledger_record p)
  | recordFor k p => exact .inl (c.ledger_recordFor k p)
  | complete q v => exact .inr (.inl ⟨q, v, rfl, rfl⟩)
  | clearWhere | purge | contains | size | resume => exact .inl rfl

/-- An event that looks at a visitor's entry leaves the entry of one whose refresh is under way as it is. -/
theorem get?_visit (he : c.entries.get? key = some e) (hnext : e.next = some q) (hq : c.ledger.Awaits q)
    {k : Visitor} {e' : Entry} (he' : c.entries.get? k = some e') (now : Moment) :
    (c.entries.insert k (c.refreshIfDue now k (e'.fold c.ledger)).1).get? key = some e := by
  rw [Table.get?_insert]
  split
  · next hk =>
    subst hk
    obtain rfl := Option.some.inj (he.symm.trans he')
    have hfold : e.fold c.ledger = e := Entry.fold_eq_self (by rw [hnext, Option.bind_some, hq.answer?])
    rcases c.refreshIfDue_cases now key (e.fold c.ledger) with ⟨hnone, -⟩ | hsame
    · rw [hfold, hnext] at hnone
      cases hnone
    · rw [hsame, hfold]
  · exact he

/-- An entry that waits for a refresh stays as it is at every event that spares the refresh, but for its mute, which
may be cleared. -/
theorem get?_step (he : c.entries.get? key = some e) (hnext : e.next = some q) (hq : c.ledger.Awaits q)
    {event : Event} (hspares : event.Spares q) :
    (c.step event).2.entries.get? key = some { e with current := event.leaves e.current } := by
  have hfold : e.fold c.ledger = e := Entry.fold_eq_self (by rw [hnext, Option.bind_some, hq.answer?])
  have hmerge (p : Punishment) : e.merge c.ledger p = e := by
    simp only [Entry.merge, hfold, hnext, Option.isSome_some, if_true]
  cases event with
  | get now k =>
    simp only [step, get]
    split
    · next e' he' => exact get?_visit he hnext hq he' now
    · exact he
  | login now k =>
    simp only [step, login]
    split
    · next e' he' => exact get?_visit he hnext hq he' now
    · next hnone =>
      have hk : key ≠ k := by
        rintro rfl
        rw [hnone] at he
        cases he
      simp only [Prod.map, id, Table.get?_insert, hk, if_false]
      exact he
  | refreshHandle k =>
    simp only [step, refreshHandle]
    split
    · next e' he' =>
      simp only [Prod.map, id, Table.get?_insert]
      split
      · next hk =>
        subst hk
        obtain rfl := Option.some.inj (he.symm.trans he')
        rw [hfold]
        rfl
      · exact he
    · exact he
  | record p =>
    simp only [step, c.get?_record, he, Option.map_some, hmerge, ite_self]
    rfl
  | recordFor k p =>
    simp only [step, c.get?_recordFor, he, Option.map_some, hmerge, ite_self]
    rfl
  | clearWhere match? =>
    simp only [step, clearWhere, Prod.map, id, Table.get?_mapRows, he, Option.map_some, hfold, Entry.clear_eq]
    rfl
  | purge now online => exact absurd hspares id
  | contains | size | complete | resume => exact he

theorem awaits_step (hq : c.ledger.Awaits q) {event : Event} (hspares : event.Spares q) :
    (c.step event).2.ledger.Awaits q := by
  rcases c.ledger_step event with h | ⟨q', v, rfl, h⟩ | ⟨k, purpose, h, -, -⟩
  · rwa [h]
  · rw [h]
    exact hq.complete hspares v
  · rw [h]
    exact hq.start k purpose

theorem asked_step (he : c.entries.get? key = some e) (hnext : e.next = some q) (hq : c.ledger.Awaits q)
    (event : Event) : (c.step event).2.ledger.asked key = c.ledger.asked key := by
  rcases c.ledger_step event with h | ⟨q', v, rfl, h⟩ | ⟨k, purpose, h, hnone, -⟩
  · rw [h]
  · rw [h, Ledger.asked_complete]
  · have hk : k ≠ key := by
      rintro rfl
      have hfold : e.fold c.ledger = e := Entry.fold_eq_self (by rw [hnext, Option.bind_some, hq.answer?])
      have hidle := hnone e he
      rw [hfold, hnext] at hidle
      cases hidle
    rw [h, Ledger.asked_start, if_neg hk, Nat.add_zero]

/-! ## A refresh wins -/

/-- A visitor's entry, with the refresh taken over if its answer is there. -/
def taken (c : AlwaysAvailable) (key : Visitor) : Option Entry := (c.entries.get? key).map fun e => e.fold c.ledger

/-- Whatever happens while the store has not answered, the entry waits for the same refresh, and no other inquiry about
the visitor is made. -/
theorem run_of_spared (he : c.entries.get? key = some e) (hnext : e.next = some q) (hq : c.ledger.Awaits q)
    {events : List Event} (hspares : ∀ event ∈ events, event.Spares q) :
    (c.run events).entries.get? key = some { e with current := events.foldl Event.leaves e.current } ∧
      (c.run events).ledger.Awaits q ∧ (c.run events).ledger.asked key = c.ledger.asked key := by
  induction events using List.reverseRecOn with
  | nil => exact ⟨he, hq, rfl⟩
  | append_singleton events event ih =>
    obtain ⟨hentry, hawaits, hasked⟩ := ih fun event h => hspares event (List.mem_append_left _ h)
    have hspared : event.Spares q := hspares event (by simp)
    rw [run_concat, List.foldl_concat]
    refine ⟨get?_step hentry hnext hawaits hspared, awaits_step hawaits hspared, ?_⟩
    rw [asked_step hentry hnext hawaits, hasked]

/-- An entry takes the answer over for which it waits. -/
theorem taken_complete (he : c.entries.get? key = some e) (hnext : e.next = some q) (hq : c.ledger.Awaits q)
    (v : Option Punishment) : (c.complete q v).taken key = some { e with current := v, next := none } := by
  have hanswer : e.next.bind (c.ledger.complete q v).answer? = some v := by
    rw [hnext, Option.bind_some, Ledger.answer?_complete, if_pos ⟨rfl, hq⟩]
  simp only [taken, complete, he, Option.map_some, Entry.fold, hanswer]

/-- A refresh is under way for a visitor's entry, and any events that are no sweeps happen before the store answers.
The entry goes on to wait for that refresh and no inquiry about the visitor is made; its mute stays, whatever is
recorded, unless it is cleared. When the store has answered the entry holds the answer and is otherwise what it was,
the same as after any other such events. -/
theorem refresh_wins (c : AlwaysAvailable) (key : Visitor) (e : Entry) (q : InquiryId)
    (he : c.entries.get? key = some e) (hnext : e.next = some q) (hq : c.ledger.Awaits q) (events others : List Event)
    (hevents : ∀ event ∈ events, event.Spares q) (hothers : ∀ event ∈ others, event.Spares q)
    (v : Option Punishment) :
    (c.run events).entries.get? key = some { e with current := events.foldl Event.leaves e.current } ∧
    (c.run events).ledger.asked key = c.ledger.asked key ∧
    ((c.run events).complete q v).taken key = some { e with current := v, next := none } ∧
    ((c.run events).complete q v).taken key = ((c.run others).complete q v).taken key := by
  obtain ⟨hentry, hawaits, hasked⟩ := run_of_spared he hnext hq hevents
  obtain ⟨hentry', hawaits', -⟩ := run_of_spared he hnext hq hothers
  have htaken := taken_complete hentry hnext hawaits v
  exact ⟨hentry, hasked, htaken, htaken.trans (taken_complete hentry' hnext hawaits' v).symm⟩

/-- A mute is recorded and another one cleared while a refresh is under way that the store answers with a third. -/
theorem refresh_wins_over_updates :
    let key : Visitor := default
    let p : Punishment := ⟨1, .mute, .player key.user, .console, "spam", .global, 0, 0⟩
    let c := (ofConfig {}).run [.login ⟨1000, 1000⟩ key, .complete 0 (some p), .get ⟨61001, 1000⟩ key]
    let e : Entry := ⟨0, some p, 61001, some 1⟩
    let q : Punishment := ⟨2, .mute, .player key.user, .console, "flood", .global, 0, 0⟩
    let events : List Event := [.record q, .get ⟨200000, 1000⟩ key, .recordFor key q, .clearWhere fun p => p.id = 1,
      .login ⟨300000, 1000⟩ key, .refreshHandle key]
    c.entries.get? key = some e ∧ (c.run events).entries.get? key = some { e with current := none } ∧
      ((c.run events).complete 1 (some q)).taken key = some { e with current := some q, next := none } ∧
      ((c.run events).complete 1 (some q)).taken key = (c.complete 1 (some q)).taken key := by
  intro key p c e q events
  have he : c.entries.get? key = some e := by decide +kernel
  obtain ⟨hentry, -, htaken, hsame⟩ := refresh_wins c key e 1 he rfl (by decide +kernel) events [] (by decide)
    (by simp) (some q)
  exact ⟨he, hentry, htaken, hsame⟩

/-! ## How many refreshes are under way -/

/-- The event is a sweep that removes the visitor's entry while a refresh of it is under way. -/
def Abandons (c : AlwaysAvailable) (event : Event) (key : Visitor) : Prop := c.Removes event key ∧ c.Refreshing key

/-- Of the inquiries made from the `n`-th on, one that is outstanding for the visitor's entry is the refresh for which
the entry waits. -/
def Tracks (c : AlwaysAvailable) (key : Visitor) (n : Nat) : Prop :=
  ∀ q, n ≤ q → c.ledger.Outstanding key q → ∃ e, c.entries.get? key = some e ∧ e.next = some q

/-- An entry waits for its refresh until the answer is there, unless a sweep removes it. -/
theorem waits_step (he : c.entries.get? key = some e) (hnext : e.next = some q) (hq : c.ledger.Awaits q)
    {event : Event} (hq' : (c.step event).2.ledger.Awaits q) (hkept : ¬c.Abandons event key) :
    ∃ e', (c.step event).2.entries.get? key = some e' ∧ e'.next = some q := by
  by_cases hspares : event.Spares q
  · exact ⟨_, get?_step he hnext hq hspares, hnext⟩
  cases event with
  | complete q' v =>
    obtain rfl : q' = q := not_not.1 hspares
    have hanswer : (c.ledger.complete q' v).answer? q' = some v := by
      rw [Ledger.answer?_complete, if_pos ⟨rfl, hq⟩]
    have hnone : (c.ledger.complete q' v).answer? q' = none := hq'.answer?
    rw [hanswer] at hnone
    cases hnone
  | purge now online =>
    have hfold : e.fold c.ledger = e := Entry.fold_eq_self (by rw [hnext, Option.bind_some, hq.answer?])
    have hrefreshing : c.Refreshing key := ⟨e, he, by rw [hfold, hnext]; rfl⟩
    have hmem : key ∈ (c.step (.purge now online)).2.entries := by
      by_contra hgone
      exact hkept ⟨⟨⟨now, online, rfl⟩, Table.mem_of_get?_eq_some he, hgone⟩, hrefreshing⟩
    obtain ⟨e', he'⟩ := Option.ne_none_iff_exists'.1 fun h => Table.get?_eq_none_iff.1 h hmem
    refine ⟨e', he', ?_⟩
    -- A sweep keeps an entry as it is.
    have hsame := he'
    simp only [step, purge, Prod.map, id, Table.get?_filter, Option.filter_eq_some_iff, he, Option.some.injEq] at hsame
    rw [← hsame.1, hnext]
  | get | login | refreshHandle | record | recordFor | clearWhere | contains | size | resume =>
    exact absurd trivial hspares

theorem Tracks.step {n : Nat} (h : c.Tracks key n) {event : Event} (hkept : ¬c.Abandons event key) :
    (c.step event).2.Tracks key n := by
  intro q hn hq
  have hwaits (hbefore : c.ledger.Outstanding key q) :
      ∃ e, (c.step event).2.entries.get? key = some e ∧ e.next = some q := by
    obtain ⟨e, he, hnext⟩ := h q hn hbefore
    exact waits_step he hnext hbefore.awaits hq.awaits hkept
  rcases c.ledger_step event with hl | ⟨q', v, rfl, hl⟩ | ⟨k, purpose, hl, -, hentry⟩
  · exact hwaits (hl ▸ hq)
  · exact hwaits (Ledger.outstanding_complete (hl ▸ hq)).2
  · rcases Ledger.outstanding_start (hl ▸ hq) with ⟨rfl, rfl, rfl⟩ | hbefore
    · exact hentry rfl
    · exact hwaits hbefore

theorem Tracks.run {n : Nat} (h : c.Tracks key n) {events : List Event}
    (hkept : ∀ between event rest, events = between ++ event :: rest → ¬(c.run between).Abandons event key) :
    (c.run events).Tracks key n := by
  induction events using List.reverseRecOn with
  | nil => exact h
  | append_singleton events event ih =>
    rw [run_concat]
    refine (ih ?_).step (hkept events event [] rfl)
    rintro between first rest rfl
    exact hkept between first (rest ++ [event]) (by simp)

theorem tracks_size (c : AlwaysAvailable) (key : Visitor) : c.Tracks key c.ledger.size :=
  fun _ hn hq => absurd hq.awaits.lt_size (Nat.not_lt.2 hn)

/-- Of the inquiries for a visitor's entry that were made since a sweep last removed the entry while a refresh of it was
under way, one at most is outstanding; and one at most of all, if no sweep did so. -/
theorem outstanding_unique (config : Config) (before after : List Event) (key : Visitor)
    (hkept : ∀ between event rest, after = between ++ event :: rest →
      ¬((ofConfig config).run (before ++ between)).Abandons event key) :
    let c := (ofConfig config).run (before ++ after)
    ∀ q₁ q₂, c.ledger.Outstanding key q₁ → c.ledger.Outstanding key q₂ →
      ((ofConfig config).run before).ledger.size ≤ q₁ → ((ofConfig config).run before).ledger.size ≤ q₂ → q₁ = q₂ := by
  intro c q₁ q₂ h₁ h₂ hn₁ hn₂
  have hrun (events : List Event) :
      ((ofConfig config).run before).run events = (ofConfig config).run (before ++ events) := List.foldl_append.symm
  have htracks : c.Tracks key ((ofConfig config).run before).ledger.size := by
    change ((ofConfig config).run (before ++ after)).Tracks key _
    rw [← hrun]
    refine (tracks_size _ key).run fun between event rest hafter => ?_
    rw [hrun]
    exact hkept between event rest hafter
  obtain ⟨e, he, hnext₁⟩ := htracks q₁ hn₁ h₁
  obtain ⟨e', he', hnext₂⟩ := htracks q₂ hn₂ h₂
  obtain rfl := Option.some.inj (he.symm.trans he')
  exact Option.some.inj (hnext₁.symm.trans hnext₂)

/-- A visitor comes in again after a sweep that abandoned a refresh, stays online, and looks up late. -/
theorem outstanding_unique_after_sweep :
    let key : Visitor := default
    let before : List Event := [.login ⟨1000, 1000⟩ key, .purge ⟨241001, 1000⟩ fun _ => false]
    let after : List Event := [.login ⟨241001, 1000⟩ key, .purge ⟨600000, 1000⟩ fun _ => true, .get ⟨600000, 1000⟩ key]
    let c := (ofConfig {}).run (before ++ after)
    c.ledger.Outstanding key 0 ∧ c.ledger.Outstanding key 1 ∧ ∀ q, c.ledger.Outstanding key q → 1 ≤ q → q = 1 := by
  intro key before after c
  have hone : c.ledger.Outstanding key 1 := by decide +kernel
  refine ⟨by decide +kernel, hone, fun q hq hle => ?_⟩
  refine outstanding_unique {} before after key ?_ q 1 hq hone hle (by decide +kernel)
  rintro between event rest hafter ⟨hremoves, -⟩
  refine not_removes_of_online (fun now online hpurge => ?_) hremoves
  have hmem : Event.purge now online ∈ after := by simp [hafter, hpurge]
  simp only [after, List.mem_cons, List.not_mem_nil, or_false, reduceCtorEq, false_or, Event.purge.injEq] at hmem
  rw [hmem.2]

/-- A sweep removes the entry of a visitor who has left while the first refresh is still under way, and when the visitor
comes in again a second one is begun beside it. -/
theorem abandoned_refresh_goes_on :
    let key : Visitor := default
    let c := (ofConfig {}).run [.login ⟨1000, 1000⟩ key, .purge ⟨241001, 1000⟩ (fun _ => false),
      .login ⟨241001, 1000⟩ key]
    Config.validate {} = .ok () ∧ c.ledger.Outstanding key 0 ∧ c.ledger.Outstanding key 1 :=
  ⟨rfl, by decide +kernel, by decide +kernel⟩

end AlwaysAvailable

end Moderation.Mute
