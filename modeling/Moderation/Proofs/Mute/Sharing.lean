import Moderation.Proofs.Mute.ReadingRoom
/-!
# Readers share one inquiry

As long as no entry expires while its value is awaited, the entry of a visitor about whom the store has been asked
stays where it is until the answer is there: what is recorded and cleared meanwhile does not touch it, nor does a
login, and readers note in it only that it was wanted. So all who come meanwhile wait for one inquiry and get its
answer: `one_inquiry_shared`.
-/

namespace Moderation.Mute

namespace Ledger

variable {l : Ledger} {q : InquiryId} {key : Visitor}

theorem answer?_of_pending (h : (q, key) ∈ l.pending) : l.answer? q = none := by
  obtain ⟨i, hi, hanswer, -⟩ := mem_pending.1 h
  rw [answer?_of_getElem? hi, hanswer]

/-- What is pending when one more inquiry is made is that one or was pending before. -/
theorem pending_start {k : Visitor} {purpose : Purpose} (h : (q, key) ∈ (l.start k purpose).2.pending) :
    (q = l.size ∧ key = k) ∨ (q, key) ∈ l.pending := by
  obtain ⟨i, hi, hanswer, rfl⟩ := mem_pending.1 h
  rw [getElem?_start] at hi
  split at hi
  · next hq =>
    obtain rfl := Option.some.inj hi
    exact .inl ⟨hq, rfl⟩
  · exact .inr (mem_pending.2 ⟨i, hi, hanswer, rfl⟩)

theorem pending_complete {q' : InquiryId} {v : Option Punishment} (h : (q, key) ∈ (l.complete q' v).pending) :
    (q, key) ∈ l.pending := by
  obtain ⟨i, hi, hanswer, rfl⟩ := mem_pending.1 h
  rw [inquiries_complete] at hi
  split at hi
  · obtain ⟨j, -, rfl⟩ := Option.map_eq_some_iff.1 hi
    cases hanswer
  · exact mem_pending.2 ⟨i, hi, hanswer, rfl⟩

end Ledger

namespace OnDemand

/-! ## What happens to an entry whose value is awaited -/

section Awaited

variable {c : OnDemand} {now : Timestamp} {key : Visitor} {e : Entry} (he : c.entries.get? key = some e)
  (hv : e.value? c.ledger = none)

include he hv

theorem get?_login_of_awaited (k : Visitor) : (c.login k).entries.get? key = some e := by
  simp only [login, Table.get?_filter, he, hv, Option.isSome_none, Bool.false_eq_true, and_false, decide_false,
    Bool.not_false, Option.filter_some, if_true]

theorem get?_record_of_awaited (p : Punishment) : (c.record now p).entries.get? key = some e := by
  obtain ⟨id, h⟩ := c.exists_get?_record now p key
  simp only [h, he, Option.map_some, Entry.merge, hv, ite_self]

theorem get?_recordFor_of_awaited (k : Visitor) (p : Punishment) :
    (c.recordFor now k p).entries.get? key = some e := by
  obtain ⟨id, h⟩ := c.exists_get?_recordFor now k p key
  simp only [h, he, Option.map_some, Entry.merge, hv, ite_self]

theorem get?_clearWhere_of_awaited (match? : Punishment → Bool) :
    (c.clearWhere now match?).2.entries.get? key = some e := by
  obtain ⟨id, h⟩ := c.exists_get?_clearWhere now match? key
  simp only [h, he, Option.map_some, Entry.clear, Entry.holds, hv, Option.any_none, Bool.false_eq_true, if_false]

omit hv in
/-- A reader notes in the entry that it was wanted. -/
theorem same_load (hexp : ¬c.Expired now e) (k : Visitor) :
    ∃ e', (c.load now k).2.entries.get? key = some e' ∧ e'.Same e := by
  by_cases hk : key = k
  · subst hk
    refine ⟨{ e with accessed := now }, ?_, rfl, rfl, rfl⟩
    simp [load, he, hexp, Table.get?_insert]
  · refine ⟨e, ?_, .refl e⟩
    unfold load
    split
    · split <;> exact (Table.get?_insert _ _ _ _).trans ((if_neg hk).trans he)
    · exact (Table.get?_insert _ _ _ _).trans ((if_neg hk).trans he)

/-- A reader removes no entry whose value is awaited. -/
theorem same_turn {r : Reader} (hr : r.Knows c) (hexp : ¬c.Expired now e) :
    ∃ e', (r.turn now c).2.entries.get? key = some e' ∧ e'.Same e := by
  obtain ⟨k, second, stage⟩ := r
  cases stage with
  | done => exact ⟨e, he, .refl e⟩
  | loading left =>
    cases left with
    | zero => exact ⟨e, he, .refl e⟩
    | succ left => exact same_load he hexp k
  | awaiting id source left =>
    refine ⟨e, ?_, .refl e⟩
    simp only [Reader.turn]
    split <;> exact he
  | evicting id left =>
    refine ⟨e, ?_, .refl e⟩
    have hother : ¬(key = k ∧ e.id = id) := by
      rintro ⟨rfl, hid⟩
      have hthere := hr.2 e he hid
      rw [hv] at hthere
      cases hthere
    simp only [Reader.turn, dropEntry, Table.get?_filter, he, hother, decide_false, Bool.not_false, Option.filter_some,
      if_true]

end Awaited

/-- A reader loads an entry that is there, or the store is asked. -/
theorem load_cases (c : OnDemand) (now : Timestamp) (key : Visitor) :
    (c.load now key).2.ledger = c.ledger ∨ c.load now key = c.ask now key := by
  unfold load
  split
  · split
    · exact .inr rfl
    · exact .inl rfl
  · exact .inr rfl

/-- What becomes of the inquiries: nothing, or one is answered, or one is made for a visitor's entry. -/
theorem ledger_change {c c' : OnDemand} (h : Change c c') :
    c'.ledger = c.ledger ∨ (∃ q v, c'.ledger = c.ledger.complete q v) ∨
      ∃ key e, c'.ledger = (c.ledger.start key .entry).2 ∧ c'.entries.get? key = some e ∧
        e.source = .asked c.ledger.size := by
  cases h with
  | turn r now =>
    unfold Reader.turn
    split
    · exact .inl rfl
    · rcases c.load_cases now r.key with hsame | hask
      · exact .inl hsame
      · rw [hask]
        exact .inr (.inr ⟨r.key, (c.ask now r.key).1, rfl, (Table.get?_insert _ _ _ _).trans (if_pos rfl), rfl⟩)
    · split <;> exact .inl rfl
    · exact .inl rfl
    · exact .inl rfl
  | answered q v => exact .inr (.inl ⟨q, v, rfl⟩)
  | removed | rewritten | same => exact .inl rfl

end OnDemand

namespace ReadingRoom

open OnDemand (Entry Source Stage Reader)

variable {room : ReadingRoom} {event : Event} {events : List Event} {key : Visitor} {e : Entry} {q : InquiryId}

/-! ## In time -/

/-- The steady clock's reading, at those events that read it. -/
def Event.steady? : Event → Option Timestamp
  | .arrive now _ => some now.steady
  | .turn now _ | .record now _ | .recordFor now _ _ | .clearWhere now _ | .evict now => some now
  | .login _ | .complete _ _ => none

/-- No entry whose value is awaited has expired at the event. -/
def Timely (room : ReadingRoom) (event : Event) : Prop :=
  ∀ now ∈ event.steady?, ∀ e ∈ room.cache.entries.values, e.value? room.cache.ledger = none →
    ¬room.cache.Expired now e

-- Named, lest all timestamps be tried: there are finitely many.
instance (room : ReadingRoom) (event : Event) : Decidable (room.Timely event) :=
  event.steady?.decidableForallMem

/-- No entry expires while its value is awaited. -/
def TimelyRun (room : ReadingRoom) : List Event → Prop
  | [] => True
  | event :: events => room.Timely event ∧ (room.step event).TimelyRun events

instance decidableTimelyRun (room : ReadingRoom) : ∀ events : List Event, Decidable (room.TimelyRun events)
  | [] => inferInstanceAs (Decidable True)
  | event :: events =>
    haveI := decidableTimelyRun (room.step event) events
    inferInstanceAs (Decidable (_ ∧ (room.step event).TimelyRun events))

/-- A mute is recorded or mutes are cleared, or a visitor comes in. -/
def Event.Edits : Event → Prop
  | .login _ | .record _ _ | .recordFor _ _ _ | .clearWhere _ _ => True
  | .arrive _ _ | .turn _ _ | .evict _ | .complete _ _ => False

/-! ## An inquiry that is pending -/

theorem Timely.not_expired (h : room.Timely event) {now : Timestamp} (hnow : event.steady? = some now)
    (he : room.cache.entries.get? key = some e) (hv : e.value? room.cache.ledger = none) :
    ¬room.cache.Expired now e :=
  h now hnow e (List.mem_map.2 ⟨(key, e), Table.get?_eq_some_iff.1 he, rfl⟩) hv

/-- What is recorded and cleared leaves an entry alone whose value is awaited, and so do those who come in. -/
theorem get?_step_of_awaited (he : room.cache.entries.get? key = some e) (hv : e.value? room.cache.ledger = none)
    (hedits : event.Edits) : (room.step event).cache.entries.get? key = some e := by
  cases event with
  | login k => exact OnDemand.get?_login_of_awaited he hv k
  | record now p => exact OnDemand.get?_record_of_awaited he hv p
  | recordFor now k p => exact OnDemand.get?_recordFor_of_awaited he hv k p
  | clearWhere now match? => exact OnDemand.get?_clearWhere_of_awaited he hv match?
  | arrive | turn | evict | complete => exact hedits.elim

/-- At every event in time an entry stays whose value is awaited. -/
theorem same_step_of_awaited (h : room.Orderly) (htimely : room.Timely event)
    (he : room.cache.entries.get? key = some e) (hv : e.value? room.cache.ledger = none) :
    ∃ e', (room.step event).cache.entries.get? key = some e' ∧ e'.Same e := by
  have hexp {now : Timestamp} (hnow : event.steady? = some now) := htimely.not_expired hnow he hv
  cases event with
  | arrive now k => exact OnDemand.same_turn (r := ⟨k, now.second, .loading 2⟩) he hv trivial (hexp rfl)
  | turn now i =>
    simp only [step]
    split
    · next r hi => exact OnDemand.same_turn he hv (h.readers r (List.mem_of_getElem? hi)) (hexp rfl)
    · exact ⟨e, he, .refl e⟩
  | evict now =>
    refine ⟨e, ?_, .refl e⟩
    simp only [step, OnDemand.evict, Table.get?_filter, he, hexp rfl, decide_false, Bool.not_false, Option.filter_some,
      if_true]
  | complete q v => exact ⟨e, he, .refl e⟩
  | login | record | recordFor | clearWhere => exact ⟨e, get?_step_of_awaited he hv trivial, .refl e⟩

/-- Every inquiry that is pending is awaited by the entry of the visitor. -/
def Tracks (room : ReadingRoom) : Prop :=
  ∀ q key, (q, key) ∈ room.cache.ledger.pending →
    ∃ e, room.cache.entries.get? key = some e ∧ e.source = .asked q

theorem value?_of_pending (hq : (q, key) ∈ room.cache.ledger.pending) (hsource : e.source = .asked q) :
    e.value? room.cache.ledger = none := by
  rw [Entry.value?, hsource]
  exact Ledger.answer?_of_pending hq

theorem Tracks.step (h : room.Tracks) (horderly : room.Orderly) (htimely : room.Timely event) :
    (room.step event).Tracks := by
  intro q key hq
  have hkept (hbefore : (q, key) ∈ room.cache.ledger.pending) :
      ∃ e, (room.step event).cache.entries.get? key = some e ∧ e.source = .asked q := by
    obtain ⟨e, he, hsource⟩ := h q key hbefore
    obtain ⟨e', he', hsame⟩ := same_step_of_awaited horderly htimely he (value?_of_pending hbefore hsource)
    exact ⟨e', he', hsame.2.1.trans hsource⟩
  rcases OnDemand.ledger_change (room.change_step event) with hl | ⟨q', v, hl⟩ | ⟨k, e, hl, he, hsource⟩
  · exact hkept (hl ▸ hq)
  · exact hkept (Ledger.pending_complete (hl ▸ hq))
  · rcases Ledger.pending_start (hl ▸ hq) with ⟨rfl, rfl⟩ | hbefore
    · exact ⟨e, he, hsource⟩
    · exact hkept hbefore

theorem Tracks.run (h : room.Tracks) (horderly : room.Orderly) (htimely : room.TimelyRun events) :
    (room.run events).Tracks := by
  induction events generalizing room with
  | nil => exact h
  | cons event events ih => exact ih (h.step horderly htimely.1) (horderly.step event) htimely.2

/-! ## Those who wait -/

/-- Who waits for an answer that is not over goes on waiting or has it. -/
theorem reader_run {i id left : Nat} {second : Seconds}
    (hi : room.readers[i]? = some ⟨key, second, .awaiting id (.asked q) left⟩)
    (hlive : ∀ v, (room.run events).cache.ledger.answer? q = some v → ∀ p ∈ v, ¬p.ExpiredAt second) :
    (room.run events).readers[i]? = some ⟨key, second, .awaiting id (.asked q) left⟩ ∨
      ∃ v, (room.run events).cache.ledger.answer? q = some v ∧
        (room.run events).readers[i]? = some ⟨key, second, .done v⟩ := by
  induction events using List.reverseRecOn with
  | nil => exact .inl hi
  | append_singleton events event ih =>
    rw [run_concat] at hlive ⊢
    have hanswers := ((room.run events).succeeds_step event).answers q
    rcases ih fun v hv => hlive v (hanswers v hv) with hwaits | ⟨v, hv, hdone⟩
    · rcases getElem?_step hwaits event with hsame | ⟨now, rfl, hturn⟩
      · exact .inl hsame
      · rw [hturn]
        cases hv : (room.run events).cache.ledger.answer? q with
        | none => exact .inl (by simp only [Reader.turn, Source.value?, hv])
        | some v =>
          have hvalue : (Source.asked q).value? (room.run events).cache.ledger = some v := hv
          exact .inr ⟨v, hanswers v hv, by rw [Reader.turn_of_value hvalue (hlive v (hanswers v hv))]⟩
    · rcases getElem?_step hdone event with hsame | ⟨now, rfl, hturn⟩
      · exact .inr ⟨v, hanswers v hv, hsame⟩
      · exact .inr ⟨v, hanswers v hv, hturn⟩

/-- Who comes while an answer is awaited waits for it too. -/
theorem arrive_of_awaited {now : Moment} (he : room.cache.entries.get? key = some e)
    (hexp : ¬room.cache.Expired now.steady e) : (room.step (.arrive now key)).readers[room.readers.length]? =
      some ⟨key, now.second, .awaiting e.id e.source 1⟩ := by
  simp [step, Reader.turn, OnDemand.load, he, hexp]

/-- While no entry expires before its value is there: of the inquiries about a visitor one at most is pending, and the
visitor's entry awaits it. What is recorded and cleared leaves that entry as it is, and so do those who come in;
whatever else happens, it is the same entry. Who comes to read meanwhile gets the answer to this inquiry, once it is
there and unless it is over at the second at which they came, whatever happens in between. Look-ups at one go are such
readers, who take their turns in a row. -/
theorem one_inquiry_shared (config : Config) (events : List Event) (htimely : (ofConfig config).TimelyRun events) :
    let room := (ofConfig config).run events
    room.TakesTurns ∧ ∀ q key, (q, key) ∈ room.cache.ledger.pending →
      (∀ q', (q', key) ∈ room.cache.ledger.pending → q' = q) ∧
      ∃ e, room.cache.entries.get? key = some e ∧ e.source = .asked q ∧
        (∀ event, event.Edits → (room.step event).cache.entries.get? key = some e) ∧
        (∀ event, room.Timely event → ∃ e', (room.step event).cache.entries.get? key = some e' ∧ e'.Same e) ∧
        ∀ now later, room.Timely (.arrive now key) →
          let room' := (room.step (.arrive now key)).run later
          ∀ v, room'.cache.ledger.answer? q = some v → (∀ p ∈ v, ¬p.ExpiredAt now.second) → ∀ t,
            (room'.step (.turn t room.readers.length)).readers[room.readers.length]? =
              some ⟨key, now.second, .done v⟩ := by
  intro room
  refine ⟨room.takesTurns, fun q key hq => ?_⟩
  have horderly : room.Orderly := (orderly_ofConfig config).run events
  have htracks : room.Tracks := by
    refine Tracks.run (fun q key hq => ?_) (orderly_ofConfig config) htimely
    cases hq
  obtain ⟨e, he, hsource⟩ := htracks q key hq
  have hv : e.value? room.cache.ledger = none := value?_of_pending hq hsource
  refine ⟨fun q' hq' => ?_, e, he, hsource, fun event => get?_step_of_awaited he hv,
    fun event htimely => same_step_of_awaited horderly htimely he hv, ?_⟩
  · obtain ⟨e', he', hsource'⟩ := htracks q' key hq'
    obtain rfl := Option.some.inj (he.symm.trans he')
    exact Source.asked.inj (hsource'.symm.trans hsource)
  · intro now later htimely room' v hanswer hlive t
    have hwaits := arrive_of_awaited he (htimely.not_expired rfl he hv)
    rw [hsource] at hwaits
    have hlive' : ∀ u, room'.cache.ledger.answer? q = some u → ∀ p ∈ u, ¬p.ExpiredAt now.second := by
      intro u hu
      obtain rfl := Option.some.inj (hanswer.symm.trans hu)
      exact hlive
    rcases reader_run hwaits hlive' with hstill | ⟨u, hu, hdone⟩
    · have hvalue : (Source.asked q).value? room'.cache.ledger = some v := hanswer
      rw [getElem?_turn hstill, Reader.turn_of_value hvalue hlive]
    · obtain rfl := Option.some.inj (hanswer.symm.trans hu)
      exact getElem?_turn hdone t

/-- Two more come while the first is waiting, and a mute is recorded and cleared and a login made in between. -/
theorem one_inquiry_shared_by_three :
    let key : Visitor := default
    let p : Punishment := ⟨1, .mute, .player key.user, .console, "spam", .global, 0, 0⟩
    let q : Punishment := ⟨2, .mute, .player key.user, .console, "flood", .global, 0, 0⟩
    let events : List Event := [.arrive ⟨1000, 1000⟩ key, .record 2000 q, .arrive ⟨3000, 3000⟩ key,
      .clearWhere 3000 fun r => r.id = 2, .login key, .recordFor 4000 key q]
    let now : Moment := ⟨60999, 5000⟩
    let room := (ofConfig { variant := .onDemand }).run events
    let room' := (room.step (.arrive now key)).run [.complete 0 (some p), .turn 90000 1, .record 90000 q, .turn 90000 0]
    room.TakesTurns ∧ (∀ q', (q', key) ∈ room.cache.ledger.pending → q' = 0) ∧
      (room'.step (.turn 90000 2)).readers = [⟨key, 1, .done (some p)⟩, ⟨key, 3, .done (some p)⟩,
        ⟨key, 5, .done (some p)⟩] ∧
      (room'.step (.turn 90000 2)).readers[2]? = some ⟨key, now.second, .done (some p)⟩ := by
  intro key p q events now room room'
  obtain ⟨hturns, hshared⟩ := one_inquiry_shared { variant := .onDemand } events (by decide +kernel)
  obtain ⟨hone, e, -, -, -, -, hgets⟩ := hshared 0 key (by decide +kernel)
  refine ⟨hturns, hone, by decide +kernel, ?_⟩
  exact hgets now _ (by decide +kernel) (some p) (by decide +kernel) (by decide) 90000

end ReadingRoom

end Moderation.Mute
