import Moderation.Proofs.Mute.Covering
import Moderation.Proofs.Mute.Refreshes
/-!
# What comes of a call

Whoever calls is told a value at once, or is told what to wait for and finds the value there later. The login of a
visitor who has an entry never comes to a mute that is over at the second at which it was made, but the login of one who
has none hands out the store's answer as it is: `login_ended_iff` says exactly when that is a mute that is over.
-/

namespace Moderation.Mute

/-- A call answers with no mute that is over at `second`, or waits for an answer and will not want such a mute. -/
inductive Reply.Wary (second : Seconds) : Reply → Prop
  | value {v : Option Punishment} : (∀ p ∈ v, ¬p.ExpiredAt second) → Wary second (.value v)
  | handle {q : InquiryId} : Wary second (.later (.handle q (some second)))

namespace AlwaysAvailable

variable {c : AlwaysAvailable} {key : Visitor} {e : Entry} {told : Reply} {v : Option Punishment}

/-! ## Waiting for a value -/

/-- What has come of a call, from what it was told. -/
def outcome? (c : AlwaysAvailable) : Reply → Option (Option Punishment)
  | .value v => some v
  | .later w =>
    match c.resume w with
    | .value v => some v
    | .later _ => none

theorem outcome?_handle (c : AlwaysAvailable) (q : InquiryId) (second : Option Seconds) :
    c.outcome? (.later (.handle q second)) =
      (c.ledger.answer? q).map fun v => match second with
        | some s => unexpired s v
        | none => v := by
  simp only [outcome?, resume]
  cases c.ledger.answer? q <;> rfl

theorem live_of_wary {second : Seconds} (h : told.Wary second) (hv : c.outcome? told = some v) :
    ∀ p ∈ v, ¬p.ExpiredAt second := by
  cases h with
  | value hlive =>
    cases hv
    exact hlive
  | handle =>
    rw [outcome?_handle, Option.map_eq_some_iff] at hv
    obtain ⟨answer, -, rfl⟩ := hv
    exact fun p hp => (mem_unexpired.1 hp).2

/-! ## Logins -/

/-- An entry for which no refresh is under way even now holds no mute that is over: one would have been begun. -/
theorem not_ended_of_refreshIfDue {now : Moment} (h : (c.refreshIfDue now key e).1.next = none) :
    ¬Ended now (c.refreshIfDue now key e).1 := by
  unfold refreshIfDue at h ⊢
  split at h
  · cases h
  · next hdue =>
    rw [if_neg hdue]
    exact fun hended => hdue ⟨h, .inr hended⟩

theorem wary_login (now : Moment) (he : c.entries.get? key = some e) : (c.login now key).1.Wary now.second := by
  simp only [login, he]
  cases hnext : (c.refreshIfDue now key (e.fold c.ledger)).1.next with
  | some q => exact .handle
  | none => exact .value fun p hp hover => not_ended_of_refreshIfDue hnext ⟨p, hp, hover⟩

/-- A visitor without an entry waits for an inquiry of their own, and wants its answer whatever it is. -/
theorem login_newcomer (now : Moment) (he : c.entries.get? key = none) :
    (c.login now key).1 = .later (.handle c.ledger.size none) ∧
      (c.login now key).2.ledger.Outstanding key c.ledger.size := by
  unfold login
  rw [he]
  exact ⟨rfl, _, c.ledger.inquiries_start key .entry, rfl, rfl, rfl⟩

/-- A login comes to something as soon as there is an answer to what it waits for. What it comes to is a mute that was
over at the second of the login just if the visitor had no entry, so that an inquiry was made for them, and that
inquiry is answered with such a mute. -/
theorem login_ended_iff (c : AlwaysAvailable) (now : Moment) (key : Visitor) (later : List Event) :
    let told := (c.login now key).1
    let c' := (c.login now key).2.run later
    ((∀ w, told = .later w → (c'.ledger.answer? w.inquiry).isSome) → (c'.outcome? told).isSome) ∧
    ∀ v, c'.outcome? told = some v →
      ((∃ p ∈ v, p.ExpiredAt now.second) ↔
        c.entries.get? key = none ∧ (c.login now key).2.ledger.Outstanding key c.ledger.size ∧
          ∃ p, c'.ledger.answer? c.ledger.size = some (some p) ∧ p.ExpiredAt now.second) := by
  intro told c'
  cases he : c.entries.get? key with
  | some e =>
    have hwary : told.Wary now.second := wary_login now he
    refine ⟨fun hanswered => ?_, fun v hv => ?_⟩
    · cases htold : told with
      | value v => rfl
      | later w =>
        rw [htold] at hwary
        cases hwary
        rw [outcome?_handle, Option.isSome_map]
        exact hanswered _ htold
    · have hlive := live_of_wary hwary hv
      exact iff_of_false (fun ⟨p, hp, hover⟩ => hlive p hp hover) (fun h => Option.some_ne_none e h.1)
  | none =>
    obtain ⟨htold, houtstanding⟩ := login_newcomer now he
    have houtcome : c'.outcome? told = c'.ledger.answer? c.ledger.size :=
      (congrArg c'.outcome? htold).trans ((c'.outcome?_handle _ _).trans Option.map_id')
    rw [houtcome]
    refine ⟨fun hanswered => hanswered _ htold, fun v hv => ?_⟩
    rw [hv]
    constructor
    · rintro ⟨p, rfl, hover⟩
      exact ⟨rfl, houtstanding, p, rfl, hover⟩
    · rintro ⟨-, -, p, hp, hover⟩
      exact ⟨p, Option.some.inj hp, hover⟩

/-- A visitor whose mute is over comes in once more: their entry is refreshed, and the mute is not reported again. -/
theorem login_ended_iff_of_second_login :
    let key : Visitor := default
    let now : Moment := ⟨1000, 1000000⟩
    let p : Punishment := ⟨1, .mute, .player key.user, .console, "spam", .global, 0, 500⟩
    let c := (ofConfig {}).run [.login now key, .complete 0 (some p)]
    let c' := (c.login now key).2.run [.complete 1 (some p)]
    c'.outcome? (c.login now key).1 = some none ∧ p.ExpiredAt now.second ∧
      ¬(c.entries.get? key = none ∧ (c.login now key).2.ledger.Outstanding key c.ledger.size ∧
        ∃ r, c'.ledger.answer? c.ledger.size = some (some r) ∧ r.ExpiredAt now.second) := by
  intro key now p c c'
  have houtcome : c'.outcome? (c.login now key).1 = some none := by decide +kernel
  refine ⟨houtcome, by decide, fun h => ?_⟩
  obtain ⟨r, hr, -⟩ := ((login_ended_iff c now key [.complete 1 (some p)]).2 none houtcome).2 h
  cases hr

/-- The first time the visitor is told of that mute all the same. A look-up at that moment comes to nothing. -/
theorem newcomer_told_of_ended_mute :
    let key : Visitor := default
    let now : Moment := ⟨1000, 1000000⟩
    let p : Punishment := ⟨1, .mute, .player key.user, .console, "spam", .global, 0, 500⟩
    let c := ofConfig {}
    Config.validate {} = .ok () ∧ p.ExpiredAt now.second ∧
      ((c.login now key).2.run [.complete 0 (some p)]).outcome? (c.login now key).1 = some (some p) ∧
      ((c.get now key).2.run [.complete 0 (some p)]).outcome? (c.get now key).1 = some none :=
  ⟨rfl, by decide, by decide +kernel, by decide +kernel⟩

end AlwaysAvailable

end Moderation.Mute
