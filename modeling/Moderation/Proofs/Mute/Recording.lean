import Mathlib.Logic.Relation
import Moderation.Proofs.Mute.Held
/-!
# Recording and clearing mutes

What is held for a visitor after a mute is recorded is said by `Cache.held_record`: the one that ends later,
unless a refresh is under way for the visitor, which wins over all that is recorded meanwhile.
`Cache.Serves` is what a look-up at one moment answers with; what is recorded and cleared at that moment
changes it in the same way.
-/

namespace Moderation.Mute

/-- An answer that can be used after some time can be used at once. -/
theorem ExpirationPolicy.not_expired_new {policy : ExpirationPolicy} {written accessed now : Timestamp}
    (h : ¬policy.Expired written accessed now) : ¬policy.Expired now now now := by
  have hnow : now.since now = 0 := Nat.sub_self _
  cases policy with
  | write ms | access ms =>
    simp only [Expired, hnow] at h ⊢
    omega

/-! ## Caches that always have an answer -/

namespace AlwaysAvailable

/-- A refresh is under way for the visitor. -/
def Refreshing (c : AlwaysAvailable) (key : Visitor) : Prop :=
  ∃ e ∈ c.entries.get? key, (e.fold c.ledger).next.isSome

instance (c : AlwaysAvailable) (key : Visitor) : Decidable (c.Refreshing key) :=
  inferInstanceAs (Decidable (∃ e ∈ c.entries.get? key, _))

namespace Entry

@[simp] theorem next_merge (l : Ledger) (p : Punishment) (e : Entry) :
    (e.merge l p).next = (e.fold l).next := by
  unfold merge
  dsimp only
  split <;> rfl

theorem current_merge (l : Ledger) (p : Punishment) (e : Entry) : (e.merge l p).current =
    if (e.fold l).next.isSome then (e.fold l).current else some (Punishment.later (e.fold l).current p) := by
  unfold merge
  dsimp only
  split <;> rfl

@[simp] theorem fold_merge (l : Ledger) (p : Punishment) (e : Entry) : (e.merge l p).fold l = e.merge l p :=
  fold_eq_self (by rw [next_merge, next_fold])

@[simp] theorem fold_clear_fold (l : Ledger) (match? : Punishment → Bool) (e : Entry) :
    ((e.fold l).clear match?).fold l = (e.fold l).clear match? :=
  fold_eq_self (by rw [next_clear, next_fold])

end Entry

theorem get?_record (c : AlwaysAvailable) (p : Punishment) (key : Visitor) :
    (c.record p).entries.get? key = (c.entries.get? key).map fun e =>
      if p.kind = .mute ∧ p.victim.Covers key then e.merge c.ledger p else e := by
  unfold record
  by_cases hkind : p.kind = .mute
  · simp only [hkind, if_true, true_and, Table.get?_mapRows]
  · simp only [hkind, if_false, false_and, Option.map_id']

@[simp] theorem ledger_record (c : AlwaysAvailable) (p : Punishment) : (c.record p).ledger = c.ledger := by
  unfold record
  split <;> rfl

theorem get?_recordFor (c : AlwaysAvailable) (key : Visitor) (p : Punishment) (k : Visitor) :
    (c.recordFor key p).entries.get? k = (c.entries.get? k).map fun e =>
      if p.kind = .mute ∧ k = key then e.merge c.ledger p else e := by
  unfold recordFor
  by_cases hkind : p.kind = .mute
  · simp only [hkind, if_true, true_and, Table.modify, Table.get?_mapRows]
  · simp only [hkind, if_false, false_and, Option.map_id']

@[simp] theorem ledger_recordFor (c : AlwaysAvailable) (key : Visitor) (p : Punishment) :
    (c.recordFor key p).ledger = c.ledger := by
  unfold recordFor
  split <;> rfl

/-- What is held for a visitor when a mute has been merged into the entry, if that was to be done. -/
theorem held_of_merge {c c' : AlwaysAvailable} {key : Visitor} {p : Punishment} {P : Prop} [Decidable P]
    (hledger : c'.ledger = c.ledger)
    (h : c'.entries.get? key = (c.entries.get? key).map fun e => if P then e.merge c.ledger p else e) :
    c'.held key = if P ∧ ¬c.Refreshing key then (c.held key).map fun v => some (Punishment.later v p)
      else c.held key := by
  rw [held, held, h, hledger]
  cases he : c.entries.get? key with
  | none => simp
  | some e =>
    by_cases hp : P
    · cases hnext : (e.fold c.ledger).next <;> simp [Refreshing, he, hp, hnext, Entry.current_merge]
    · simp [hp]

theorem refreshing_of_merge {c c' : AlwaysAvailable} {key : Visitor} {p : Punishment} {P : Prop} [Decidable P]
    (hledger : c'.ledger = c.ledger)
    (h : c'.entries.get? key = (c.entries.get? key).map fun e => if P then e.merge c.ledger p else e) :
    c'.Refreshing key ↔ c.Refreshing key := by
  unfold Refreshing
  rw [h, hledger]
  cases c.entries.get? key with
  | none => simp
  | some e => by_cases hp : P <;> simp [hp]

theorem held_record (c : AlwaysAvailable) (p : Punishment) (key : Visitor) : (c.record p).held key =
    if p.kind = .mute ∧ p.victim.Covers key ∧ ¬c.Refreshing key then
      (c.held key).map fun v => some (Punishment.later v p)
    else c.held key := by
  simp only [held_of_merge (c.ledger_record p) (c.get?_record p key), and_assoc]

theorem held_recordFor (c : AlwaysAvailable) (key : Visitor) (p : Punishment) (k : Visitor) :
    (c.recordFor key p).held k = if p.kind = .mute ∧ k = key ∧ ¬c.Refreshing k then
      (c.held k).map fun v => some (Punishment.later v p)
    else c.held k := by
  simp only [held_of_merge (c.ledger_recordFor key p) (c.get?_recordFor key p k), and_assoc]

theorem refreshing_clearWhere (c : AlwaysAvailable) (match? : Punishment → Bool) (key : Visitor) :
    (c.clearWhere match?).2.Refreshing key ↔ c.Refreshing key := by
  simp only [Refreshing, clearWhere, Table.get?_mapRows]
  cases c.entries.get? key <;> simp

theorem refreshing_record (c : AlwaysAvailable) (p : Punishment) (key : Visitor) :
    (c.record p).Refreshing key ↔ c.Refreshing key :=
  refreshing_of_merge (c.ledger_record p) (c.get?_record p key)

theorem refreshing_recordFor (c : AlwaysAvailable) (key : Visitor) (p : Punishment) (k : Visitor) :
    (c.recordFor key p).Refreshing k ↔ c.Refreshing k :=
  refreshing_of_merge (c.ledger_recordFor key p) (c.get?_recordFor key p k)

/-- Clearing counts the visitors for whom a mute is cleared. -/
theorem clearWhere_pos {c : AlwaysAvailable} {key : Visitor} {p : Punishment} (h : c.held key = some (some p))
    {match? : Punishment → Bool} (hp : match? p) : 0 < (c.clearWhere match?).1 := by
  obtain ⟨e, he, hcurrent⟩ := Option.map_eq_some_iff.1 h
  have hmem : e.fold c.ledger ∈ (c.entries.mapRows fun _ e => e.fold c.ledger).values := by
    refine List.mem_map.2 ⟨(key, e.fold c.ledger), ?_, rfl⟩
    rw [← Table.get?_eq_some_iff, Table.get?_mapRows, he, Option.map_some]
  exact List.countP_pos_iff.2 ⟨_, hmem, by simp [Entry.holds, hcurrent, hp]⟩

end AlwaysAvailable

/-! ## Caches that ask on demand -/

namespace OnDemand

variable {c : OnDemand} {key : Visitor} {v : Option Punishment}

namespace Entry

variable {l : Ledger} {e : Entry}

theorem value?_merge (l : Ledger) (now : Timestamp) (p : Punishment) (e : Entry) (nextId : Nat) :
    (e.merge l now p nextId).1.value? l = (e.value? l).map fun v => some (Punishment.later v p) := by
  cases hv : e.value? l with
  | none => simp only [merge, hv, Option.map_none]
  | some v =>
    simp only [merge, hv, Option.map_some]
    split
    · next hsame => rw [hv, ← hsame]
    · rfl

/-- An entry into which a mute is merged stays, or is a new one that bears the next number. -/
theorem merge_cases (l : Ledger) (now : Timestamp) (p : Punishment) (e : Entry) (nextId : Nat) :
    e.merge l now p nextId = (e, nextId) ∨
      ∃ v, e.merge l now p nextId = (ofSource nextId (.known v) now, nextId + 1) := by
  unfold merge
  split
  · exact .inl rfl
  · dsimp only
    split
    · exact .inl rfl
    · exact .inr ⟨_, rfl⟩

/-- An entry that is cleared stays, or is a new one that bears the next number. -/
theorem clear_cases (l : Ledger) (now : Timestamp) (match? : Punishment → Bool) (e : Entry) (nextId : Nat) :
    e.clear l now match? nextId = (e, nextId) ∨
      e.clear l now match? nextId = (ofSource nextId (.known none) now, nextId + 1) := by
  unfold clear
  split
  · exact .inr rfl
  · exact .inl rfl

end Entry

/-- Each entry has the mute merged into it, with some number for a new one. -/
theorem exists_get?_record (c : OnDemand) (now : Timestamp) (p : Punishment) (key : Visitor) :
    ∃ id, (c.record now p).entries.get? key = (c.entries.get? key).map fun e =>
      if p.kind = .mute ∧ p.victim.Covers key then (e.merge c.ledger now p id).1 else e := by
  unfold record
  by_cases hkind : p.kind = .mute
  · obtain ⟨id, h⟩ := Table.exists_get?_scan (fun (key : Visitor) e nextId =>
      if p.victim.Covers key then Entry.merge c.ledger now p e nextId else (e, nextId)) c.entries c.nextId key
    refine ⟨id, ?_⟩
    simp only [hkind, if_true, true_and, h]
    congr 1
    funext e
    split <;> rfl
  · exact ⟨0, by simp only [hkind, if_false, false_and, Option.map_id']⟩

@[simp] theorem ledger_record (c : OnDemand) (now : Timestamp) (p : Punishment) :
    (c.record now p).ledger = c.ledger := by
  unfold record
  split <;> rfl

@[simp] theorem policy_record (c : OnDemand) (now : Timestamp) (p : Punishment) :
    (c.record now p).policy = c.policy := by
  unfold record
  split <;> rfl

theorem exists_get?_recordFor (c : OnDemand) (now : Timestamp) (key : Visitor) (p : Punishment) (k : Visitor) :
    ∃ id, (c.recordFor now key p).entries.get? k = (c.entries.get? k).map fun e =>
      if p.kind = .mute ∧ k = key then (e.merge c.ledger now p id).1 else e := by
  unfold recordFor
  by_cases hkind : p.kind = .mute
  · obtain ⟨id, h⟩ := Table.exists_get?_scan (fun (k : Visitor) e nextId =>
      if k = key then Entry.merge c.ledger now p e nextId else (e, nextId)) c.entries c.nextId k
    refine ⟨id, ?_⟩
    simp only [hkind, if_true, true_and, h]
    congr 1
    funext e
    split <;> rfl
  · exact ⟨0, by simp only [hkind, if_false, false_and, Option.map_id']⟩

@[simp] theorem ledger_recordFor (c : OnDemand) (now : Timestamp) (key : Visitor) (p : Punishment) :
    (c.recordFor now key p).ledger = c.ledger := by
  unfold recordFor
  split <;> rfl

/-- What is held for a visitor when a mute has been merged into the entry, if that was to be done. -/
theorem held_of_merge {c c' : OnDemand} {key : Visitor} {now : Timestamp} {p : Punishment} {P : Prop} [Decidable P]
    (hledger : c'.ledger = c.ledger) (h : ∃ id, c'.entries.get? key = (c.entries.get? key).map fun e =>
      if P then (e.merge c.ledger now p id).1 else e) :
    c'.held key = if P then (c.held key).map fun v => some (Punishment.later v p) else c.held key := by
  obtain ⟨id, h⟩ := h
  rw [held, held, h, hledger]
  cases c.entries.get? key with
  | none => simp
  | some e => by_cases hp : P <;> simp [hp, Entry.value?_merge]

theorem held_record (c : OnDemand) (now : Timestamp) (p : Punishment) (key : Visitor) :
    (c.record now p).held key = if p.kind = .mute ∧ p.victim.Covers key then
      (c.held key).map fun v => some (Punishment.later v p) else c.held key :=
  held_of_merge (c.ledger_record now p) (c.exists_get?_record now p key)

theorem held_recordFor (c : OnDemand) (now : Timestamp) (key : Visitor) (p : Punishment) (k : Visitor) :
    (c.recordFor now key p).held k = if p.kind = .mute ∧ k = key then
      (c.held k).map fun v => some (Punishment.later v p) else c.held k :=
  held_of_merge (c.ledger_recordFor now key p) (c.exists_get?_recordFor now key p k)

/-- Clearing counts the visitors for whom a mute is cleared. -/
theorem clearWhere_pos {p : Punishment} (h : c.held key = some (some p)) {match? : Punishment → Bool}
    (hp : match? p) (now : Timestamp) : 0 < (c.clearWhere now match?).1 := by
  obtain ⟨e, he, hv⟩ := Option.bind_eq_some_iff.1 h
  have hmem : e ∈ c.entries.values := List.mem_map.2 ⟨(key, e), Table.get?_eq_some_iff.1 he, rfl⟩
  exact List.countP_pos_iff.2 ⟨e, hmem, by simp [Entry.holds, hv, hp]⟩

/-- The entry for a visitor has a value and has not expired. -/
def Serves (c : OnDemand) (now : Timestamp) (key : Visitor) (v : Option Punishment) : Prop :=
  ∃ e ∈ c.entries.get? key, ¬c.Expired now e ∧ e.value? c.ledger = some v

instance (c : OnDemand) (now : Timestamp) (key : Visitor) (v : Option Punishment) :
    Decidable (c.Serves now key v) :=
  inferInstanceAs (Decidable (∃ e ∈ c.entries.get? key, _))

theorem Serves.held {now : Timestamp} (h : c.Serves now key v) : c.held key = some v := by
  obtain ⟨e, he, -, hv⟩ := h
  rw [OnDemand.held, he]
  exact hv

theorem serves_clearWhere {now : Timestamp} (h : c.Serves now key v) (match? : Punishment → Bool) :
    (c.clearWhere now match?).2.Serves now key (v.filter fun p => !match? p) := by
  obtain ⟨e, he, hexp, hv⟩ := h
  obtain ⟨id, hid⟩ := c.exists_get?_clearWhere now match? key
  rw [he, Option.map_some] at hid
  refine ⟨_, hid, ?_, ?_⟩
  · rcases e.clear_cases c.ledger now match? id with hsame | hnew
    · rw [hsame]
      exact hexp
    · rw [hnew]
      exact ExpirationPolicy.not_expired_new hexp
  · refine (e.value?_clear c.ledger now match? id).trans ?_
    rw [hv, Option.map_some]

theorem serves_record {now : Timestamp} (h : c.Serves now key v) (p : Punishment) :
    (c.record now p).Serves now key
      (if p.kind = .mute ∧ p.victim.Covers key then some (Punishment.later v p) else v) := by
  obtain ⟨e, he, hexp, hv⟩ := h
  obtain ⟨id, hid⟩ := c.exists_get?_record now p key
  rw [he, Option.map_some] at hid
  refine ⟨_, hid, ?_, ?_⟩
  · unfold Expired
    rw [policy_record]
    split
    · rcases e.merge_cases c.ledger now p id with hsame | ⟨v', hnew⟩
      · rw [hsame]
        exact hexp
      · rw [hnew]
        exact ExpirationPolicy.not_expired_new hexp
    · exact hexp
  · rw [ledger_record]
    split
    · rw [Entry.value?_merge, hv, Option.map_some]
    · exact hv

end OnDemand

/-! ## Both kinds of cache -/

namespace Cache

variable {c : Cache} {now : Moment} {key : Visitor} {v : Option Punishment}

/-- A refresh is under way for the visitor, and the cache answers with what it held before. -/
def Refreshing (c : Cache) (key : Visitor) : Prop :=
  match c with
  | alwaysAvailable c => c.Refreshing key
  | onDemand _ => False

instance : ∀ (c : Cache) (key : Visitor), Decidable (c.Refreshing key)
  | alwaysAvailable c, key => inferInstanceAs (Decidable (c.Refreshing key))
  | onDemand _, _ => inferInstanceAs (Decidable False)

theorem refreshing_clearWhere (c : Cache) (now : Moment) (match? : Punishment → Bool) (key : Visitor) :
    (c.clearWhere now match?).2.Refreshing key ↔ c.Refreshing key := by
  cases c with
  | alwaysAvailable c => exact c.refreshing_clearWhere match? key
  | onDemand c => exact Iff.rfl

theorem refreshing_record (c : Cache) (now : Moment) (p : Punishment) (key : Visitor) :
    (c.record now p).Refreshing key ↔ c.Refreshing key := by
  cases c with
  | alwaysAvailable c => exact c.refreshing_record p key
  | onDemand c => exact Iff.rfl

/-- A mute of the visitor that is recorded is held if it ends later than the one that was, unless a refresh
is under way. -/
theorem held_record (c : Cache) (now : Moment) (p : Punishment) (key : Visitor) :
    (c.record now p).held key = if p.kind = .mute ∧ p.victim.Covers key ∧ ¬c.Refreshing key then
      (c.held key).map fun v => some (Punishment.later v p) else c.held key := by
  cases c with
  | alwaysAvailable c => exact c.held_record p key
  | onDemand c =>
    refine (c.held_record now.steady p key).trans ?_
    simp only [Refreshing, not_false_eq_true, and_true]
    rfl

theorem refreshing_recordFor (c : Cache) (now : Moment) (key : Visitor) (p : Punishment) (k : Visitor) :
    (c.recordFor now key p).Refreshing k ↔ c.Refreshing k := by
  cases c with
  | alwaysAvailable c => exact c.refreshing_recordFor key p k
  | onDemand c => exact Iff.rfl

theorem held_recordFor (c : Cache) (now : Moment) (key : Visitor) (p : Punishment) (k : Visitor) :
    (c.recordFor now key p).held k = if p.kind = .mute ∧ k = key ∧ ¬c.Refreshing k then
      (c.held k).map fun v => some (Punishment.later v p) else c.held k := by
  cases c with
  | alwaysAvailable c => exact c.held_recordFor key p k
  | onDemand c =>
    refine (c.held_recordFor now.steady key p k).trans ?_
    simp only [Refreshing, not_false_eq_true, and_true]
    rfl

theorem ledger_recordFor (c : Cache) (now : Moment) (key : Visitor) (p : Punishment) :
    (c.recordFor now key p).ledger = c.ledger := by
  cases c with
  | alwaysAvailable c => exact c.ledger_recordFor key p
  | onDemand c => exact c.ledger_recordFor now.steady key p

theorem clearWhere_pos {p : Punishment} (h : c.held key = some (some p)) {match? : Punishment → Bool}
    (hp : match? p) (now : Moment) : 0 < (c.clearWhere now match?).1 := by
  cases c with
  | alwaysAvailable c => exact AlwaysAvailable.clearWhere_pos h hp
  | onDemand c => exact OnDemand.clearWhere_pos h hp now.steady

/-- The cache holds `v` for the visitor and does not ask the store before it answers with that. -/
def Serves (c : Cache) (now : Moment) (key : Visitor) (v : Option Punishment) : Prop :=
  match c with
  | alwaysAvailable c => c.held key = some v
  | onDemand c => c.Serves now.steady key v

instance : ∀ (c : Cache) (now : Moment) (key : Visitor) (v : Option Punishment), Decidable (c.Serves now key v)
  | alwaysAvailable c, _, key, v => inferInstanceAs (Decidable (c.held key = some v))
  | onDemand c, now, key, v => inferInstanceAs (Decidable (c.Serves now.steady key v))

theorem Serves.held (h : c.Serves now key v) : c.held key = some v := by
  cases c with
  | alwaysAvailable c => exact h
  | onDemand c => exact OnDemand.Serves.held h

theorem Serves.get (h : c.Serves now key v) (hlive : ∀ p ∈ v, ¬p.ExpiredAt now.second) :
    (c.get now key).1 = .value v := by
  cases c with
  | alwaysAvailable c =>
    exact (AlwaysAvailable.get_of_held h now).trans (by rw [unexpired_eq_self hlive])
  | onDemand c =>
    obtain ⟨e, he, hexp, hv⟩ := h
    exact OnDemand.read_of_held he hexp hv hlive 1

theorem Serves.clearWhere (h : c.Serves now key v) (match? : Punishment → Bool) :
    (c.clearWhere now match?).2.Serves now key (v.filter fun p => !match? p) := by
  cases c with
  | alwaysAvailable c =>
    refine (c.held_clearWhere match? key).trans ?_
    rw [show c.held key = some v from h, Option.map_some]
  | onDemand c => exact OnDemand.serves_clearWhere h match?

theorem Serves.record (h : c.Serves now key v) (p : Punishment) : (c.record now p).Serves now key
    (if p.kind = .mute ∧ p.victim.Covers key ∧ ¬c.Refreshing key then some (Punishment.later v p) else v) := by
  cases c with
  | alwaysAvailable c =>
    refine (c.held_record p key).trans ?_
    rw [show c.held key = some v from h, Option.map_some]
    exact (apply_ite some _ _ _).symm
  | onDemand c =>
    simp only [Refreshing, not_false_eq_true, and_true]
    exact OnDemand.serves_record h p

/-! ## Edits -/

/-- A mute is recorded, or mutes are cleared. -/
inductive Edit : Cache → Cache → Prop
  | record (now : Moment) (p : Punishment) (c : Cache) : Edit c (c.record now p)
  | clearWhere (now : Moment) (match? : Punishment → Bool) (c : Cache) : Edit c (c.clearWhere now match?).2

/-- Mutes are recorded and cleared, any number of times. -/
abbrev Edited : Cache → Cache → Prop := Relation.ReflTransGen Edit

theorem ledger_edit {c' : Cache} (h : Edit c c') : c'.ledger = c.ledger := by
  cases h with
  | record now p =>
    cases c with
    | alwaysAvailable c => exact c.ledger_record p
    | onDemand c => exact c.ledger_record now.steady p
  | clearWhere => cases c <;> rfl

theorem ledger_edited {c' : Cache} (h : c.Edited c') : c'.ledger = c.ledger := by
  induction h with
  | refl => rfl
  | tail _ hedit ih => exact (ledger_edit hedit).trans ih

end Cache

end Moderation.Mute
