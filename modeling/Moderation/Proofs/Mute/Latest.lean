import Moderation.Proofs.Mute.Recording
import Moderation.Proofs.Store.Scan
/-!
# Mutes recorded one after the other

A mute that is recorded takes the place of the one that is held if it ends later. So what is held in the end, of what
was held and of all that was recorded, is the first that none of them outlasts (`latest_eq_find?`), and the order in
which mutes are recorded makes no difference to when that one ends. What has been recorded once is absorbed: to record
it again, whatever has been recorded in between, leaves the whole cache as it is. `recorded_latest` says all of this of
both kinds of cache.
-/

namespace Moderation

namespace Punishment

variable {ps ps' : List Punishment} {held : Option Punishment} {p q r : Punishment}

/-! ## The latest of several -/

/-- The latest is over when all of them are. -/
theorem latest_expired_iff (ps : List Punishment) (second : Seconds) :
    (∀ p ∈ latest ps, p.ExpiredAt second) ↔ ∀ p ∈ ps, p.ExpiredAt second := by
  constructor
  · intro hover p hp
    obtain ⟨r, hr⟩ := Option.isSome_iff_exists.1 (latest_isSome.2 (List.ne_nil_of_mem hp))
    by_contra hlive
    exact not_expired_of_not_outlasts ((mem_of_latest hr).2 p hp) hlive (hover r hr)
  · intro hover p hp
    exact hover p (mem_of_latest hp).1

/-- Merging `p` into the value makes no difference. -/
def Outdone (p : Punishment) (v : Option Punishment) : Prop := some (later v p) = v

theorem outdone_iff {v : Option Punishment} : p.Outdone v ↔ ∃ r ∈ v, ¬p.Outlasts r := by
  cases v with
  | none => simp [Outdone, later]
  | some r =>
    simp only [Outdone, later, Option.some.injEq, Option.mem_def, exists_eq_left']
    split
    · next h => exact iff_of_false (fun hp => Outlasts.irrefl r (hp ▸ h)) (not_not.2 h)
    · next h => exact iff_of_true rfl h

theorem outdone_later (v : Option Punishment) (p : Punishment) : p.Outdone (some (later v p)) :=
  outdone_iff.2 ⟨_, rfl, (later_spec v p).2.1⟩

theorem Outdone.later {v : Option Punishment} (h : p.Outdone v) (q : Punishment) :
    p.Outdone (some (Punishment.later v q)) := by
  obtain ⟨r, hr, hlast⟩ := outdone_iff.1 h
  exact outdone_iff.2 ⟨_, rfl, not_outlasts_trans ((later_spec v q).2.2 r hr) hlast⟩

end Punishment

namespace Mute

open Punishment

/-! ## Recordings -/

/-- A punishment is recorded, for the visitors whom it covers or for one. -/
inductive Recording where
  | covered (p : Punishment)
  | only (key : Visitor) (p : Punishment)

/-- The mute that is recorded for a visitor. -/
def Recording.mute? (key : Visitor) : Recording → Option Punishment
  | covered p => if p.kind = .mute ∧ p.victim.Covers key then some p else none
  | only k p => if p.kind = .mute ∧ key = k then some p else none

namespace AlwaysAvailable

variable {c : AlwaysAvailable}

def put (c : AlwaysAvailable) : Recording → AlwaysAvailable
  | .covered p => c.record p
  | .only key p => c.recordFor key p

/-- The mute that is recorded for a visitor is merged into their entry. -/
theorem put_eq_mapRows (c : AlwaysAvailable) (r : Recording) : c.put r = { c with
    entries := c.entries.mapRows fun key e => (r.mute? key).elim e fun p => e.merge c.ledger p } := by
  have hsame : c.entries.mapRows (fun _ e => e) = c.entries := Table.mapRows_eq_self fun _ _ _ => rfl
  cases r with
  | covered p | only k p =>
    by_cases hkind : p.kind = .mute
    · have hmerge (P : Prop) [Decidable P] (e : Entry) :
          (if P then e.merge c.ledger p else e) =
            (if P then some p else none).elim e fun p => e.merge c.ledger p := by
        split <;> rfl
      simp only [put, record, recordFor, Table.modify, Recording.mute?, hkind, if_true, true_and, hmerge]
    · simp only [put, record, recordFor, Recording.mute?, hkind, if_false, false_and, Option.elim_none, hsame]

@[simp] theorem ledger_put (c : AlwaysAvailable) (r : Recording) : (c.put r).ledger = c.ledger := by
  rw [put_eq_mapRows]

theorem get?_put (c : AlwaysAvailable) (r : Recording) (key : Visitor) :
    (c.put r).entries.get? key = (c.entries.get? key).map fun e =>
      (r.mute? key).elim e fun p => e.merge c.ledger p := by
  rw [put_eq_mapRows, Table.get?_mapRows]

namespace Entry

variable {l : Ledger} {e : Entry} {p : Punishment}

/-- Merging changes nothing if there is no refresh to take over, and either one is under way or the mute that is held
does not end earlier. -/
theorem merge_eq_self_iff :
    e.merge l p = e ↔ e.fold l = e ∧ (e.next.isSome ∨ p.Outdone e.current) := by
  constructor
  · intro h
    have hfold : e.fold l = e := h ▸ fold_merge l p e
    have hcurrent := current_merge l p e
    rw [h, hfold] at hcurrent
    refine ⟨hfold, or_iff_not_imp_left.2 fun hnext => ?_⟩
    rw [if_neg hnext] at hcurrent
    exact hcurrent.symm
  · rintro ⟨hfold, hdone⟩
    unfold merge
    rw [hfold]
    rcases hdone with hnext | hdone
    · exact if_pos hnext
    · simp only [show some (Punishment.later e.current p) = e.current from hdone, ite_self]

theorem merge_merge_self (l : Ledger) (p : Punishment) (e : Entry) : (e.merge l p).merge l p = e.merge l p := by
  refine merge_eq_self_iff.2 ⟨fold_merge l p e, or_iff_not_imp_left.2 fun hnext => ?_⟩
  rw [next_merge] at hnext
  rw [current_merge, if_neg hnext]
  exact outdone_later _ p

/-- What is absorbed stays so when another mute is merged. -/
theorem merge_merge_of_eq (h : e.merge l p = e) (q : Punishment) : (e.merge l q).merge l p = e.merge l q := by
  obtain ⟨hfold, hdone⟩ := merge_eq_self_iff.1 h
  refine merge_eq_self_iff.2 ⟨fold_merge l q e, or_iff_not_imp_left.2 fun hnext => ?_⟩
  rw [next_merge, hfold] at hnext
  rw [current_merge, hfold, if_neg hnext]
  exact (hdone.resolve_left hnext).later q

end Entry

/-- To record once more what `r` records does not change any entry. -/
def Absorbs (c : AlwaysAvailable) (r : Recording) : Prop :=
  ∀ key, ∀ e ∈ c.entries.get? key, ∀ p ∈ r.mute? key, e.merge c.ledger p = e

theorem absorbs_put (c : AlwaysAvailable) (r : Recording) : (c.put r).Absorbs r := by
  intro key e he p hp
  rw [get?_put, Option.mem_def.1 hp] at he
  obtain ⟨e₀, -, rfl⟩ := Option.map_eq_some_iff.1 he
  rw [ledger_put]
  exact e₀.merge_merge_self c.ledger p

theorem Absorbs.put {r : Recording} (h : c.Absorbs r) (r' : Recording) : (c.put r').Absorbs r := by
  intro key e he p hp
  rw [get?_put] at he
  obtain ⟨e₀, he₀, rfl⟩ := Option.map_eq_some_iff.1 he
  rw [ledger_put]
  cases r'.mute? key with
  | none => exact h key e₀ he₀ p hp
  | some q => exact Entry.merge_merge_of_eq (h key e₀ he₀ p hp) q

theorem Absorbs.put_eq {r : Recording} (h : c.Absorbs r) : c.put r = c := by
  rw [put_eq_mapRows, Table.mapRows_eq_self]
  intro key e he
  cases hmute : r.mute? key with
  | none => rfl
  | some p => exact h key e he p hmute

end AlwaysAvailable

namespace OnDemand

variable {c : OnDemand}

def put (c : OnDemand) (now : Timestamp) : Recording → OnDemand
  | .covered p => c.record now p
  | .only key p => c.recordFor now key p

/-- The entries with what is recorded for each visitor merged into theirs, and the number of the next entry. -/
def merged (c : OnDemand) (now : Timestamp) (r : Recording) : Table Visitor Entry × Nat :=
  c.entries.scan (fun key e nextId =>
    (r.mute? key).elim (e, nextId) fun p => e.merge c.ledger now p nextId) c.nextId

theorem put_eq_merged (c : OnDemand) (now : Timestamp) (r : Recording) :
    c.put now r = { c with entries := (c.merged now r).1, nextId := (c.merged now r).2 } := by
  have hsame : c.entries.scan (fun _ e nextId => (e, nextId)) c.nextId = (c.entries, c.nextId) :=
    Table.scan_eq_self (fun _ _ _ _ => rfl) c.nextId
  cases r with
  | covered p | only k p =>
    by_cases hkind : p.kind = .mute
    · have hmerge (P : Prop) [Decidable P] (e : Entry) (nextId : Nat) :
          (if P then e.merge c.ledger now p nextId else (e, nextId)) =
            (if P then some p else none).elim (e, nextId) fun p => e.merge c.ledger now p nextId := by
        split <;> rfl
      simp only [put, record, recordFor, merged, Recording.mute?, hkind, if_true, true_and, hmerge]
    · simp only [put, record, recordFor, merged, Recording.mute?, hkind, if_false, false_and, Option.elim_none, hsame]

@[simp] theorem ledger_put (c : OnDemand) (now : Timestamp) (r : Recording) : (c.put now r).ledger = c.ledger := by
  rw [put_eq_merged]

theorem exists_get?_put (c : OnDemand) (now : Timestamp) (r : Recording) (key : Visitor) :
    ∃ id, (c.put now r).entries.get? key = (c.entries.get? key).map fun e =>
      (r.mute? key).elim e fun p => (e.merge c.ledger now p id).1 := by
  obtain ⟨id, h⟩ := Table.exists_get?_scan (fun key e nextId =>
    (r.mute? key).elim (e, nextId) fun p => Entry.merge c.ledger now p e nextId) c.entries c.nextId key
  refine ⟨id, ?_⟩
  rw [put_eq_merged]
  refine h.trans ?_
  cases r.mute? key <;> rfl

namespace Entry

/-- An entry stays as it is when the value that is there, if any is, does not end earlier. -/
theorem merge_eq_self {l : Ledger} {e : Entry} {p : Punishment} (h : ∀ v ∈ e.value? l, p.Outdone v) (now : Timestamp)
    (nextId : Nat) : e.merge l now p nextId = (e, nextId) := by
  unfold merge
  split
  · rfl
  · next v hv => exact if_pos (h v hv).symm

end Entry

/-- To record once more what `r` records does not change any value. -/
def Absorbs (c : OnDemand) (r : Recording) : Prop :=
  ∀ key, ∀ e ∈ c.entries.get? key, ∀ p ∈ r.mute? key, ∀ v ∈ e.value? c.ledger, p.Outdone v

theorem absorbs_put (c : OnDemand) (now : Timestamp) (r : Recording) : (c.put now r).Absorbs r := by
  intro key e he p hp v hv
  obtain ⟨id, hid⟩ := c.exists_get?_put now r key
  rw [hid, Option.mem_def.1 hp] at he
  obtain ⟨e₀, -, rfl⟩ := Option.map_eq_some_iff.1 he
  rw [ledger_put] at hv
  obtain ⟨v₀, -, rfl⟩ := Option.map_eq_some_iff.1 ((e₀.value?_merge c.ledger now p id).symm.trans hv)
  exact outdone_later v₀ p

theorem Absorbs.put {r : Recording} (h : c.Absorbs r) (now : Timestamp) (r' : Recording) :
    (c.put now r').Absorbs r := by
  intro key e he p hp v hv
  obtain ⟨id, hid⟩ := c.exists_get?_put now r' key
  rw [hid] at he
  obtain ⟨e₀, he₀, rfl⟩ := Option.map_eq_some_iff.1 he
  rw [ledger_put] at hv
  cases hmute : r'.mute? key with
  | none =>
    rw [hmute] at hv
    exact h key e₀ he₀ p hp v hv
  | some q =>
    rw [hmute] at hv
    obtain ⟨v₀, hv₀, rfl⟩ := Option.map_eq_some_iff.1 ((e₀.value?_merge c.ledger now q id).symm.trans hv)
    exact (h key e₀ he₀ p hp v₀ hv₀).later q

theorem Absorbs.put_eq {r : Recording} (h : c.Absorbs r) (now : Timestamp) : c.put now r = c := by
  rw [put_eq_merged, merged, Table.scan_eq_self]
  intro key e he nextId
  cases hmute : r.mute? key with
  | none => rfl
  | some p => exact Entry.merge_eq_self (h key e he p hmute) now nextId

end OnDemand

/-! ## Both kinds of cache -/

namespace Cache

variable {c : Cache} {now : Moment} {key : Visitor} {r : Recording} {rs rs' : List (Moment × Recording)}

def put (c : Cache) (now : Moment) : Recording → Cache
  | .covered p => c.record now p
  | .only key p => c.recordFor now key p

theorem put_alwaysAvailable (c : AlwaysAvailable) (now : Moment) (r : Recording) :
    (alwaysAvailable c).put now r = alwaysAvailable (c.put r) := by
  cases r <;> rfl

theorem put_onDemand (c : OnDemand) (now : Moment) (r : Recording) :
    (onDemand c).put now r = onDemand (c.put now.steady r) := by
  cases r <;> rfl

/-- Records each punishment at its moment. -/
def recordAll (c : Cache) (rs : List (Moment × Recording)) : Cache := rs.foldl (fun c r => c.put r.1 r.2) c

/-- The mutes that are recorded for a visitor, the first one first. -/
def recorded (key : Visitor) (rs : List (Moment × Recording)) : List Punishment := rs.filterMap fun r => r.2.mute? key

theorem refreshing_put (c : Cache) (now : Moment) (r : Recording) (key : Visitor) :
    (c.put now r).Refreshing key ↔ c.Refreshing key := by
  cases r with
  | covered p => exact c.refreshing_record now p key
  | only k p => exact c.refreshing_recordFor now k p key

/-- The mute that is held stays the latest of those that were. -/
theorem held_put {ps : List Punishment} (h : c.held key = some (latest ps)) (hsettled : ¬c.Refreshing key)
    (now : Moment) (r : Recording) : (c.put now r).held key = some (latest (ps ++ (r.mute? key).toList)) := by
  have hmerged (P : Prop) [Decidable P] (p : Punishment) :
      (if P then (c.held key).map fun v => some (later v p) else c.held key) =
        some (latest (ps ++ (if P then some p else none).toList)) := by
    rw [h]
    split
    · rw [Option.toList_some, latest_concat]
      rfl
    · rw [Option.toList_none, List.append_nil]
  cases r with
  | covered p =>
    refine (c.held_record now p key).trans ?_
    simp only [hsettled, not_false_eq_true, and_true]
    exact hmerged _ p
  | only k p =>
    refine (c.held_recordFor now k p key).trans ?_
    simp only [hsettled, not_false_eq_true, and_true]
    exact hmerged _ p

theorem held_recordAll {ps : List Punishment} (h : c.held key = some (latest ps)) (hsettled : ¬c.Refreshing key)
    (rs : List (Moment × Recording)) : (c.recordAll rs).held key = some (latest (ps ++ recorded key rs)) := by
  induction rs generalizing c ps with
  | nil => rw [recorded, List.filterMap_nil, List.append_nil, recordAll, List.foldl_nil, h]
  | cons r rs ih =>
    have hput := held_put h hsettled r.1 r.2
    refine (ih hput fun h => hsettled ((c.refreshing_put r.1 r.2 key).1 h)).trans ?_
    rw [List.append_assoc]
    cases hmute : r.2.mute? key <;> simp [recorded, hmute]

/-- To record once more what `r` records does not change the cache. -/
def Absorbs (c : Cache) (r : Recording) : Prop :=
  match c with
  | alwaysAvailable c => c.Absorbs r
  | onDemand c => c.Absorbs r

theorem absorbs_put (c : Cache) (now : Moment) (r : Recording) : (c.put now r).Absorbs r := by
  cases c with
  | alwaysAvailable c =>
    rw [put_alwaysAvailable]
    exact c.absorbs_put r
  | onDemand c =>
    rw [put_onDemand]
    exact c.absorbs_put now.steady r

theorem Absorbs.put (h : c.Absorbs r) (now : Moment) (r' : Recording) : (c.put now r').Absorbs r := by
  cases c with
  | alwaysAvailable c =>
    rw [put_alwaysAvailable]
    exact AlwaysAvailable.Absorbs.put h r'
  | onDemand c =>
    rw [put_onDemand]
    exact OnDemand.Absorbs.put h now.steady r'

theorem Absorbs.put_eq (h : c.Absorbs r) (now : Moment) : c.put now r = c := by
  cases c with
  | alwaysAvailable c => rw [put_alwaysAvailable, AlwaysAvailable.Absorbs.put_eq h]
  | onDemand c => rw [put_onDemand, OnDemand.Absorbs.put_eq h now.steady]

theorem Absorbs.recordAll (h : c.Absorbs r) (rs : List (Moment × Recording)) : (c.recordAll rs).Absorbs r := by
  induction rs generalizing c with
  | nil => exact h
  | cons r' rs ih => exact ih (h.put r'.1 r'.2)

/-- All that has been recorded is absorbed. -/
theorem absorbs_recordAll (c : Cache) (hr : r ∈ rs.map Prod.snd) : (c.recordAll rs).Absorbs r := by
  induction rs generalizing c with
  | nil => cases hr
  | cons r' rs ih =>
    rcases List.mem_cons.1 hr with rfl | hr
    · exact (c.absorbs_put r'.1 r'.2).recordAll rs
    · exact ih (c.put r'.1 r'.2) hr

theorem recordAll_eq_self (h : ∀ r ∈ rs.map Prod.snd, c.Absorbs r) : c.recordAll rs = c := by
  induction rs with
  | nil => rfl
  | cons r rs ih =>
    have hfirst : c.put r.1 r.2 = c := (h r.2 List.mem_cons_self).put_eq r.1
    refine (congrArg (Cache.recordAll · rs) hfirst).trans (ih fun r' hr' => h r' (List.mem_cons_of_mem _ hr'))

/-- Punishments are recorded for a visitor for whom a cache holds `v` and no refresh is under way. Held in the end is,
of `v` and the mutes recorded for the visitor, the first that none of them outlasts. It ends when it would if they had
been recorded in another order, it is over when all of them are, and to record any of them again, at whatever moments,
leaves the cache as it is. -/
theorem recorded_latest (c : Cache) (key : Visitor) (v : Option Punishment) (rs : List (Moment × Recording))
    (hheld : c.held key = some v) (hsettled : ¬c.Refreshing key) :
    ∃ w, (c.recordAll rs).held key = some w ∧
      (w = (v.toList ++ recorded key rs).find? fun p => ∀ q ∈ v.toList ++ recorded key rs, ¬q.Outlasts p) ∧
      (w = none ↔ v = none ∧ recorded key rs = []) ∧
      (∀ rs', (rs'.map Prod.snd).Perm (rs.map Prod.snd) →
        ∃ w', (c.recordAll rs').held key = some w' ∧ w'.map ends = w.map ends) ∧
      (∀ rs', (∀ r ∈ rs'.map Prod.snd, r ∈ rs.map Prod.snd) → (c.recordAll rs).recordAll rs' = c.recordAll rs) ∧
      ∀ second, (∀ p ∈ w, p.ExpiredAt second) ↔
        (∀ p ∈ v, p.ExpiredAt second) ∧ ∀ p ∈ recorded key rs, p.ExpiredAt second := by
  have hstart : c.held key = some (latest v.toList) := by cases v <;> exact hheld
  refine ⟨_, held_recordAll hstart hsettled rs, latest_eq_find? _, ?_, fun rs' hperm => ?_, fun rs' hagain => ?_,
    fun second => ?_⟩
  · rw [latest_eq_none, List.append_eq_nil_iff, Option.toList_eq_nil_iff]
  · refine ⟨_, held_recordAll hstart hsettled rs', ends_latest_congr fun p => ?_⟩
    have hrecorded (rs : List (Moment × Recording)) :
        recorded key rs = (rs.map Prod.snd).filterMap (Recording.mute? key) := by
      rw [List.filterMap_map]
      rfl
    rw [hrecorded, hrecorded]
    exact ((hperm.filterMap _).append_left _).mem_iff
  · exact recordAll_eq_self fun r hr => c.absorbs_recordAll (hagain r hr)
  · rw [latest_expired_iff]
    simp only [List.mem_append, or_imp, forall_and, Option.mem_toList, Option.mem_def]

/-- A mute that is long over, a ban, and two mutes without an end are recorded for a visitor who is muted for a while:
in a cache of either kind the first of those two is held. -/
theorem recorded_latest_of_four :
    let key : Visitor := default
    let now : Moment := ⟨1000, 1000000⟩
    let p : Punishment := ⟨1, .mute, .player key.user, .console, "spam", .global, 0, 2000⟩
    let late : Punishment := { p with id := 4, ends := 0 }
    let rs : List (Moment × Recording) := [(now, .covered { p with id := 2, ends := -5 }),
      (now, .covered { p with id := 3, kind := .ban, ends := 0 }), (now, .only key late),
      (now, .covered { late with id := 5 })]
    let c := ((ofConfig {}).welcome now (fun _ => some p) key).2
    let d := ((ofConfig { variant := .onDemand }).consult now (fun _ => some p) key).2
    c.held key = some (some p) ∧ d.held key = some (some p) ∧
      (c.recordAll rs).held key = some (some late) ∧ (d.recordAll rs).held key = some (some late) ∧
      (∃ w, (d.recordAll rs.reverse).held key = some w ∧ w.map ends = some 0) ∧
      (c.recordAll rs).recordAll rs = c.recordAll rs := by
  intro key now p late rs c d
  have hc : c.held key = some (some p) := by decide +kernel
  have hd : d.held key = some (some p) := by decide +kernel
  have hlate : (((some p).toList ++ recorded key rs).find? fun r =>
      ∀ q ∈ (some p).toList ++ recorded key rs, ¬q.Outlasts r) = some late := by decide +kernel
  obtain ⟨w, hw, hfirst, -, -, hagain, -⟩ := recorded_latest c key (some p) rs hc (by decide +kernel)
  obtain ⟨w', hw', hfirst', -, horder, -⟩ := recorded_latest d key (some p) rs hd (by decide)
  obtain rfl : w = some late := hfirst.trans hlate
  obtain rfl : w' = some late := hfirst'.trans hlate
  exact ⟨hc, hd, hw, hw', horder rs.reverse (by simp), hagain rs fun _ => id⟩

end Cache

end Mute

end Moderation
