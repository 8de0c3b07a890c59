import Moderation.Proofs.Mute.Clearing
import Moderation.Proofs.Mute.Eager
import Moderation.Proofs.Mute.ReadingRoom
import Moderation.Proofs.Store.Applicable
/-!
# Clears are exact

A mute that a cache holds has been recorded, or the store has answered with it (`AlwaysAvailable.origin`,
`ReadingRoom.origin`). So a cache whose store answers with mutes alone holds mutes alone, however far it has come.
What a clear does to a cache, and what it leaves as it was, is said by `Cache.clear_exact`.
-/

namespace Moderation

theorem Punishment.eq_of_later {held : Option Punishment} {new p : Punishment} (h : later held new = p) :
    held = some p ∨ new = p := by
  rcases (later_spec held new).1 with hnew | hold
  · exact .inr (hnew.symm.trans h)
  · exact .inl (h ▸ hold)

namespace Mute

/-! ## Where mutes come from -/

/-- A mute is recorded, or the store answers with it. -/
def AlwaysAvailable.Event.Brings (p : Punishment) : AlwaysAvailable.Event → Prop
  | .record q | .recordFor _ q => q = p ∧ q.kind = .mute
  | .complete _ v => v = some p
  | _ => False

namespace Eager

open AlwaysAvailable (Entry Event)

variable {c : Eager} {key : Visitor} {e' : Entry} {p : Punishment}

theorem mem_merged {e : Entry} {q : Punishment} (h : p ∈ (merged q e).current) : p ∈ e.current ∨ q = p := by
  unfold merged at h
  split at h
  · exact .inl h
  · exact Punishment.eq_of_later (Option.some.inj h)

theorem mem_visit {now : Moment} {k : Visitor} {e : Entry} (he : c.entries.get? k = some e)
    (he' : (c.visit now k e).2.entries.get? key = some e') (hp : p ∈ e'.current) :
    ∃ e ∈ c.entries.get? key, p ∈ e.current := by
  unfold visit at he'
  split at he'
  · simp only [Table.get?_insert] at he'
    split at he'
    · next hk =>
      obtain rfl := Option.some.inj he'
      exact ⟨e, hk ▸ he, hp⟩
    · exact ⟨e', he', hp⟩
  · exact ⟨e', he', hp⟩

/-- A mute that is held was held before, or is brought by the event. -/
theorem origin_step (event : Event) (he' : (c.step event).2.entries.get? key = some e') (hp : p ∈ e'.current) :
    (∃ e ∈ c.entries.get? key, p ∈ e.current) ∨ event.Brings p := by
  cases event with
  | get now k =>
    simp only [step, get, Prod.map_snd, id] at he'
    split at he'
    · next e he => exact .inl (mem_visit he he' hp)
    · exact .inl ⟨e', he', hp⟩
  | login now k =>
    simp only [step, login, Prod.map_snd, id] at he'
    split at he'
    · next e he => exact .inl (mem_visit he he' hp)
    · simp only [Table.get?_insert] at he'
      split at he'
      · obtain rfl := Option.some.inj he'
        cases hp
      · exact .inl ⟨e', he', hp⟩
  | record q =>
    simp only [step, record] at he'
    split at he'
    · next hkind =>
      rw [Table.get?_mapRows] at he'
      obtain ⟨e, he, rfl⟩ := Option.map_eq_some_iff.1 he'
      split at hp
      · exact (mem_merged hp).imp (fun h => ⟨e, he, h⟩) fun h => ⟨h, hkind⟩
      · exact .inl ⟨e, he, hp⟩
    · exact .inl ⟨e', he', hp⟩
  | recordFor k q =>
    simp only [step, recordFor] at he'
    split at he'
    · next hkind =>
      rw [Table.get?_modify] at he'
      split at he'
      · obtain ⟨e, he, rfl⟩ := Option.map_eq_some_iff.1 he'
        exact (mem_merged hp).imp (fun h => ⟨e, he, h⟩) fun h => ⟨h, hkind⟩
      · exact .inl ⟨e', he', hp⟩
    · exact .inl ⟨e', he', hp⟩
  | clearWhere match? =>
    simp only [step, clearWhere, Prod.map_snd, id, Table.get?_mapRows] at he'
    obtain ⟨e, he, rfl⟩ := Option.map_eq_some_iff.1 he'
    exact .inl ⟨e, he, (Option.filter_eq_some_iff.1 hp).1⟩
  | purge now online =>
    simp only [step, purge, Prod.map_snd, id, Table.get?_filter, Option.filter_eq_some_iff] at he'
    exact .inl ⟨e', he'.1, hp⟩
  | complete q v =>
    simp only [step, complete] at he'
    split at he'
    · rw [Table.get?_mapRows] at he'
      obtain ⟨e, he, rfl⟩ := Option.map_eq_some_iff.1 he'
      unfold takeOver at hp
      split at hp
      · exact .inr hp
      · exact .inl ⟨e, he, hp⟩
    · exact .inl ⟨e', he', hp⟩
  | refreshHandle | contains | size | resume => exact .inl ⟨e', he', hp⟩

end Eager

namespace AlwaysAvailable

variable {c : AlwaysAvailable} {key : Visitor} {p : Punishment}

theorem held_eq_some_iff : c.held key = some (some p) ↔ ∃ e ∈ c.eager.entries.get? key, p ∈ e.current := by
  rw [get?_eager, held]
  cases c.entries.get? key with
  | none => simp
  | some e => simp

/-- A mute that is held has been recorded, or the store has answered with it. -/
theorem origin (config : Config) (events : List Event) (h : ((ofConfig config).run events).held key = some (some p)) :
    ∃ event ∈ events, event.Brings p := by
  induction events using List.reverseRecOn with
  | nil => cases h
  | append_singleton events event ih =>
    have hstep : (((ofConfig config).run events).step event).2.eager =
        (((ofConfig config).run events).eager.step event).2 := (congrArg Prod.snd (step_eager _ event)).symm
    rw [run_concat, held_eq_some_iff, hstep] at h
    obtain ⟨e', he', hp⟩ := h
    rcases Eager.origin_step event he' hp with hold | hbrings
    · obtain ⟨event', hmem, hbrings⟩ := ih (held_eq_some_iff.2 hold)
      exact ⟨event', List.mem_append_left _ hmem, hbrings⟩
    · exact ⟨event, by simp, hbrings⟩

end AlwaysAvailable

/-- A mute is recorded, or the store answers with it. -/
def ReadingRoom.Event.Brings (p : Punishment) : ReadingRoom.Event → Prop
  | .record _ q | .recordFor _ _ q => q = p ∧ q.kind = .mute
  | .complete _ v => v = some p
  | _ => False

namespace OnDemand

variable {c : OnDemand} {key : Visitor} {v : Option Punishment} {p : Punishment}

theorem held_of_filter {keep : Visitor → Entry → Bool}
    (h : ({ c with entries := c.entries.filter keep } : OnDemand).held key = some v) : c.held key = some v := by
  simp only [held, Table.get?_filter] at h ⊢
  obtain ⟨e, he, hv⟩ := Option.bind_eq_some_iff.1 h
  rw [(Option.filter_eq_some_iff.1 he).1]
  exact hv

theorem held_of_ask {now : Timestamp} {k : Visitor} (h : (c.ask now k).2.held key = some v) :
    c.held key = some v := by
  simp only [held, ask, Table.get?_insert] at h ⊢
  split at h
  -- The store has not answered the new inquiry.
  · simp only [Option.bind_some, Entry.ofSource, Entry.value?, Source.value?, Ledger.answer?_start] at h
    exact absurd (h.symm.trans c.ledger.answer?_size) (by simp)
  · obtain ⟨e, he, hv⟩ := Option.bind_eq_some_iff.1 h
    rw [he, Option.bind_some]
    unfold Entry.value? at hv ⊢
    cases hsource : e.source with
    | known => rwa [hsource] at hv
    | asked q =>
      rw [hsource] at hv
      exact (c.ledger.answer?_start k .entry q).symm.trans hv

theorem held_of_load {now : Timestamp} {k : Visitor} (h : (c.load now k).2.held key = some v) :
    c.held key = some v := by
  unfold load at h
  split at h
  · next e he =>
    split at h
    · exact held_of_ask h
    · simp only [held, Table.get?_insert] at h ⊢
      split at h
      · next hk =>
        subst hk
        rw [he]
        exact h
      · exact h
  · exact held_of_ask h

theorem held_of_turn {now : Timestamp} {r : Reader} (h : (r.turn now c).2.held key = some v) :
    c.held key = some v := by
  unfold Reader.turn at h
  split at h
  · exact h
  · exact held_of_load h
  · split at h <;> exact h
  · exact held_of_filter h
  · exact h

theorem held_of_complete {q : InquiryId} {u : Option Punishment} (h : (c.complete q u).held key = some v) :
    c.held key = some v ∨ u = v := by
  obtain ⟨e, he, hv⟩ := Option.bind_eq_some_iff.1 h
  change c.entries.get? key = some e at he
  simp only [held, he, Option.bind_some]
  unfold Entry.value? at hv ⊢
  cases hsource : e.source with
  | known => exact .inl (by rwa [hsource] at hv)
  | asked q' =>
    rw [hsource] at hv
    have hv' : (c.ledger.complete q u).answer? q' = some v := hv
    rw [Ledger.answer?_complete] at hv'
    split at hv'
    · exact .inr (Option.some.inj hv')
    · exact .inl hv'

theorem held_of_later {q : Punishment} (h : ((c.held key).map fun v => some (Punishment.later v q)) = some (some p)) :
    c.held key = some (some p) ∨ q = p := by
  obtain ⟨v, hv, hlater⟩ := Option.map_eq_some_iff.1 h
  rcases Punishment.eq_of_later (Option.some.inj hlater) with rfl | hnew
  · exact .inl hv
  · exact .inr hnew

end OnDemand

namespace ReadingRoom

variable {room : ReadingRoom} {key : Visitor} {p : Punishment}

/-- A mute that is held was held before, or is brought by the event. -/
theorem origin_step (event : Event) (h : (room.step event).cache.held key = some (some p)) :
    room.cache.held key = some (some p) ∨ event.Brings p := by
  cases event with
  | arrive now k => exact .inl (OnDemand.held_of_turn (r := ⟨k, now.second, .loading 2⟩) h)
  | turn now i =>
    simp only [step] at h
    split at h
    · exact .inl (OnDemand.held_of_turn h)
    · exact .inl h
  | login k => exact .inl (OnDemand.held_of_filter h)
  | evict now => exact .inl (OnDemand.held_of_filter h)
  | record now q =>
    simp only [step, OnDemand.held_record] at h
    split at h
    · next hrecorded => exact (OnDemand.held_of_later h).imp_right fun hq => ⟨hq, hrecorded.1⟩
    · exact .inl h
  | recordFor now k q =>
    simp only [step, OnDemand.held_recordFor] at h
    split at h
    · next hrecorded => exact (OnDemand.held_of_later h).imp_right fun hq => ⟨hq, hrecorded.1⟩
    · exact .inl h
  | clearWhere now match? =>
    simp only [step, OnDemand.held_clearWhere] at h
    obtain ⟨v, hv, hp⟩ := Option.map_eq_some_iff.1 h
    exact .inl ((Option.filter_eq_some_iff.1 hp).1 ▸ hv)
  | complete q v => exact OnDemand.held_of_complete h

/-- A mute that is held has been recorded, or the store has answered with it. -/
theorem origin (config : Config) (events : List Event)
    (h : ((ofConfig config).run events).cache.held key = some (some p)) : ∃ event ∈ events, event.Brings p := by
  induction events using List.reverseRecOn with
  | nil => cases h
  | append_singleton events event ih =>
    rw [run_concat] at h
    rcases origin_step event h with hold | hbrings
    · obtain ⟨event', hmem, hbrings⟩ := ih hold
      exact ⟨event', List.mem_append_left _ hmem, hbrings⟩
    · exact ⟨event, by simp, hbrings⟩

end ReadingRoom

/-! ## What is under way -/

/-- The inquiry for the visitor's entry that the store has not answered. -/
def AlwaysAvailable.awaited (c : AlwaysAvailable) (key : Visitor) : Option InquiryId :=
  (c.entries.get? key).bind fun e => (e.fold c.ledger).next

theorem AlwaysAvailable.awaited_clearWhere (c : AlwaysAvailable) (match? : Punishment → Bool) (key : Visitor) :
    (c.clearWhere match?).2.awaited key = c.awaited key := by
  simp only [awaited, clearWhere, Table.get?_mapRows, Option.map_map, Option.bind_map]
  congr 1
  funext e
  simp only [Function.comp, Entry.fold_clear_fold, Entry.next_clear]

namespace OnDemand

def Entry.awaited (l : Ledger) (e : Entry) : Option InquiryId :=
  match e.source with
  | .asked q => if (l.answer? q).isNone then some q else none
  | .known _ => none

/-- The inquiry for the visitor's entry that the store has not answered. -/
def awaited (c : OnDemand) (key : Visitor) : Option InquiryId :=
  (c.entries.get? key).bind fun e => e.awaited c.ledger

theorem Entry.awaited_of_value? {l : Ledger} {e : Entry} {v : Option Punishment} (hv : e.value? l = some v) :
    e.awaited l = none := by
  unfold Entry.awaited
  unfold Entry.value? at hv
  cases hsource : e.source with
  | known => rfl
  | asked q =>
    rw [hsource] at hv
    have hanswer : l.answer? q = some v := hv
    simp [hanswer]

theorem awaited_clearWhere (c : OnDemand) (now : Timestamp) (match? : Punishment → Bool) (key : Visitor) :
    (c.clearWhere now match?).2.awaited key = c.awaited key := by
  obtain ⟨id, hid⟩ := c.exists_get?_clearWhere now match? key
  have hledger : (c.clearWhere now match?).2.ledger = c.ledger := rfl
  rw [awaited, awaited, hid, hledger]
  cases c.entries.get? key with
  | none => rfl
  | some e =>
    simp only [Option.map_some, Option.bind_some]
    cases hv : e.value? c.ledger with
    | none => rw [Entry.clear, Entry.holds, hv]; rfl
    | some v =>
      -- What is cleared is there, so neither the old entry nor the new one waits for the store.
      have hv' := e.value?_clear c.ledger now match? id
      rw [hv] at hv'
      rw [Entry.awaited_of_value? hv', Entry.awaited_of_value? hv]

end OnDemand

/-! ## Clears -/

namespace Cache

def keys : Cache → List Visitor
  | alwaysAvailable c => c.entries.keys
  | onDemand c => c.entries.keys

/-- The inquiry for the visitor's entry that the store has not answered. -/
def awaited (c : Cache) (key : Visitor) : Option InquiryId :=
  match c with
  | alwaysAvailable c => c.awaited key
  | onDemand c => c.awaited key

/-- A mute of that name is held for the visitor. -/
def Holds (c : Cache) (ref : PunishmentRef) (key : Visitor) : Prop :=
  ∃ v ∈ c.held key, ∃ q ∈ v, q.id = ref.id ∧ q.kind = ref.kind

instance (c : Cache) (ref : PunishmentRef) (key : Visitor) : Decidable (c.Holds ref key) :=
  inferInstanceAs (Decidable (∃ v ∈ c.held key, ∃ q ∈ v, _))

/-- What becomes of a new cache in the course of events at which the store answers with no other punishments than
those that satisfy `P`. -/
inductive Arises (P : Punishment → Prop) : Cache → Prop
  | alwaysAvailable (config : Config) (events : List AlwaysAvailable.Event)
      (h : ∀ q v, .complete q v ∈ events → ∀ p ∈ v, P p) :
      Arises P (alwaysAvailable ((AlwaysAvailable.ofConfig config).run events))
  | onDemand (config : Config) (events : List ReadingRoom.Event)
      (h : ∀ q v, .complete q v ∈ events → ∀ p ∈ v, P p) :
      Arises P (onDemand ((ReadingRoom.ofConfig config).run events).cache)

variable {c : Cache} {key : Visitor} {p : Punishment}

/-- Whose store answers with mutes alone holds mutes alone. -/
theorem Arises.mutes (h : c.Arises fun p => p.kind = .mute) (hp : c.held key = some (some p)) : p.kind = .mute := by
  cases h with
  | alwaysAvailable config events h =>
    obtain ⟨event, hmem, hbrings⟩ := AlwaysAvailable.origin config events hp
    cases event with
    | record | recordFor => exact hbrings.1 ▸ hbrings.2
    | complete q v => exact h q v hmem p hbrings
    | get | login | refreshHandle | clearWhere | purge | contains | size | resume => exact hbrings.elim
  | onDemand config events h =>
    obtain ⟨event, hmem, hbrings⟩ := ReadingRoom.origin config events hp
    cases event with
    | record | recordFor => exact hbrings.1 ▸ hbrings.2
    | complete q v => exact h q v hmem p hbrings
    | arrive | turn | login | clearWhere | evict => exact hbrings.elim

theorem holds_iff (c : Cache) (ref : PunishmentRef) (key : Visitor) :
    c.Holds ref key ↔ (c.held key).any fun v => v.any fun q => decide (q.ref = ref) := by
  obtain ⟨id, kind⟩ := ref
  unfold Holds
  rcases c.held key with _ | _ | p <;> simp [Punishment.ref]

theorem held_clear (c : Cache) (now : Moment) (ref : PunishmentRef) (key : Visitor) :
    (c.clear now ref).2.held key = if c.Holds ref key then some none else c.held key := by
  rw [clear, held_clearWhere]
  simp only [holds_iff]
  rcases c.held key with _ | _ | p
  · simp
  · simp
  · by_cases hp : p.ref = ref <;> simp [hp, Option.filter_some]

theorem clear_count (c : Cache) (now : Moment) (ref : PunishmentRef) :
    (c.clear now ref).1 = {key | c.Holds ref key}.ncard := by
  simp only [holds_iff]
  exact c.clearWhere_count now _

theorem keys_clearWhere (c : Cache) (now : Moment) (match? : Punishment → Bool) :
    (c.clearWhere now match?).2.keys = c.keys := by
  cases c with
  | alwaysAvailable c => exact (Table.keys_mapRows _ _).trans (Table.keys_mapRows _ _)
  | onDemand c => exact Table.keys_scan _ _ _

/-- A clear changes to none exactly what is held and has that number and kind, whatever refreshes and look-ups are
under way, and counts the visitors. The visitors who have entries stay the same, what is held for others stays, and so
does every inquiry that is under way; the same clear again finds nothing. If the store never answers with other
punishments than mutes, it is all the same whether a mute is cleared by its name or by its number. -/
theorem clear_exact (c : Cache) (now : Moment) (p : Punishment) :
    (∀ key, (c.clear now p.ref).2.held key = if c.Holds p.ref key then some none else c.held key) ∧
    (c.clear now p.ref).1 = {key | c.Holds p.ref key}.ncard ∧
    (c.clear now p.ref).2.keys = c.keys ∧ (c.clear now p.ref).2.ledger = c.ledger ∧
    (∀ key, (c.clear now p.ref).2.awaited key = c.awaited key) ∧
    (∀ later, ((c.clear now p.ref).2.clear later p.ref).1 = 0) ∧
    (c.Arises (fun q => q.kind = .mute) → p.kind = .mute → c.clear now p.ref = c.clearId now p.id) := by
  refine ⟨c.held_clear now p.ref, c.clear_count now p.ref, c.keys_clearWhere now _, ?_, fun key => ?_, fun later => ?_,
    fun harises hmute => ?_⟩
  · cases c <;> rfl
  · cases c with
    | alwaysAvailable c => exact c.awaited_clearWhere _ key
    | onDemand c => exact c.awaited_clearWhere now.steady _ key
  · have hnone : {key | (c.clear now p.ref).2.Holds p.ref key} = ∅ := by
      refine Set.eq_empty_iff_forall_notMem.2 fun key hholds => ?_
      have hkept := c.held_clear now p.ref key
      obtain ⟨v, hv, q, hq, hsame⟩ := hholds
      rw [Option.mem_def.1 hv] at hkept
      split at hkept
      · obtain rfl := Option.some.inj hkept
        cases hq
      · next hother => exact hother ⟨v, hkept.symm, q, hq, hsame⟩
    rw [clear_count, hnone, Set.ncard_empty]
  · exact clear_eq_clearId (fun key q => harises.mutes) hmute now

/-- One visitor has a mute, in one of the caches not taken over yet; the store is still asked about the other. -/
theorem clear_exact_of_one_in_flight :
    let key : Visitor := default
    let other : Visitor := { user := ⟨List.replicate 16 1, rfl⟩, address := default }
    let p : Punishment := ⟨1, .mute, .player key.user, .console, "spam", .global, 0, 0⟩
    let now : Moment := ⟨1000, 1000⟩
    let a := Cache.alwaysAvailable ((AlwaysAvailable.ofConfig {}).run
      [.login now key, .login now other, .complete 0 (some p)])
    let o := Cache.onDemand ((ReadingRoom.ofConfig {}).run
      [.arrive now key, .arrive now other, .complete 0 (some p)]).cache
    a.clear now p.ref = a.clearId now p.id ∧ o.clear now p.ref = o.clearId now p.id ∧
      ((a.clear now p.ref).1, a.awaited other) = (1, some 1) ∧
      ((o.clear now p.ref).1, o.awaited other) = (1, some 1) := by
  intro key other p now a o
  have hkind : ∀ r ∈ some p, r.kind = .mute := by decide
  have ha : a.Arises fun q => q.kind = .mute := by
    refine .alwaysAvailable {} _ fun q v hmem => ?_
    obtain ⟨-, rfl⟩ : q = 0 ∧ v = some p := by simpa using hmem
    exact hkind
  have ho : o.Arises fun q => q.kind = .mute := by
    refine .onDemand {} _ fun q v hmem => ?_
    obtain ⟨-, rfl⟩ : q = 0 ∧ v = some p := by simpa using hmem
    exact hkind
  obtain ⟨-, -, -, -, -, -, hsame⟩ := clear_exact a now p
  obtain ⟨-, -, -, -, -, -, hsame'⟩ := clear_exact o now p
  exact ⟨hsame ha rfl, hsame' ho rfl, by decide +kernel, by decide +kernel⟩

end Cache

end Mute

end Moderation
