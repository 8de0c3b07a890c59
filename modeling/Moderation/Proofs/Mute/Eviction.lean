import Mathlib.Data.List.Nodup
import Moderation.Proofs.Mute.ReadingRoom
/-!
# What readers remove

A reader finds out that a value is over only some time after it has loaded the entry, and by then another may be in
that place. What it removes is the entry that it loaded and no other: whatever was written since stays
(`removes_only_what_it_loaded`). That rests on the numbers, which are given out in order and never twice
(`ids_written`). And no reader goes on for ever: it loads twice at most, and each turn brings it nearer to its end.
-/

namespace Moderation.Mute

namespace OnDemand

variable {c c' : OnDemand}

/-! ## Numbers are given out in order -/

/-- The entries of `c'` that were not there in `c`. -/
def written (c c' : OnDemand) : List (Visitor × Entry) :=
  c'.entries.rows.filter fun r => !decide (∃ e ∈ c.entries.get? r.1, r.2.Same e)

/-- The entries that were not there are those that bear new numbers. -/
theorem written_eq (h : c.Succeeds c') (hc : c.Numbered) :
    written c c' = c'.entries.rows.filter fun r => c.nextId ≤ r.2.id := by
  apply List.filter_congr
  intro r hr
  have hthere : c'.entries.get? r.1 = some r.2 := Table.get?_eq_some_iff.2 hr
  rw [← decide_not]
  apply decide_eq_decide.2
  rcases h.entries r.1 r.2 hthere with ⟨e, he, hsame⟩ | hnew
  · have hold : r.2.id < c.nextId := hsame.1 ▸ hc r.1 e he
    exact iff_of_false (fun hnone => hnone ⟨e, he, hsame⟩) (Nat.not_le.2 hold)
  · refine iff_of_true ?_ hnew.1
    rintro ⟨e, he, hsame⟩
    have hold : r.2.id < c.nextId := hsame.1 ▸ hc r.1 e he
    omega

/-- The entries that were not there bear the next numbers, in order. -/
def Counts (c c' : OnDemand) : Prop :=
  ((written c c').map fun r => r.2.id) = List.range' c.nextId (c'.nextId - c.nextId)

theorem counts_of_nextId (h : c.Succeeds c') (hc : c.Numbered) (hnext : c'.nextId = c.nextId) : Counts c c' := by
  have hnone : written c c' = [] := by
    rw [written_eq h hc, List.filter_eq_nil_iff]
    intro r hr
    have hold := h.numbered hc r.1 r.2 (Table.get?_eq_some_iff.2 hr)
    simp only [decide_eq_true_eq]
    omega
  rw [Counts, hnone, hnext, Nat.sub_self]
  rfl

theorem counts_scan (hc : c.Numbered) {f : Visitor → Entry → Nat → Entry × Nat} (hf : Table.Numbers Entry.id f) :
    Counts c { c with entries := (c.entries.scan f c.nextId).1, nextId := (c.entries.scan f c.nextId).2 } := by
  rw [Counts, written_eq (.scan c hf) hc]
  exact hf.map_scanRows (fun r hr => hc r.1 r.2 (Table.get?_eq_some_iff.2 hr)) (Nat.le_refl _)

theorem counts_ask (hc : c.Numbered) (now : Timestamp) (key : Visitor) : Counts c (c.ask now key).2 := by
  have hget (k : Visitor) : (c.ask now key).2.entries.get? k =
      if k = key then some (c.ask now key).1 else c.entries.get? k := Table.get?_insert _ _ _ k
  have hone : written c (c.ask now key).2 = [(key, (c.ask now key).1)] := by
    rw [written_eq (.ask c now key) hc, ← List.perm_singleton]
    refine (List.perm_ext_iff_of_nodup ?_ (List.nodup_singleton _)).2 fun r => ?_
    · exact (List.Nodup.of_map _ (c.ask now key).2.entries.distinct).filter _
    · rw [List.mem_filter, List.mem_singleton, ← Table.get?_eq_some_iff, hget, decide_eq_true_eq]
      split
      · next hk =>
        constructor
        · rintro ⟨he, -⟩
          exact Prod.ext hk (Option.some.inj he).symm
        · rintro rfl
          exact ⟨rfl, Nat.le_refl _⟩
      · next hk =>
        refine iff_of_false ?_ fun he => hk (congrArg Prod.fst he)
        rintro ⟨he, hnew⟩
        exact absurd (hc r.1 r.2 he) (Nat.not_lt.2 hnew)
  have hnext : (c.ask now key).2.nextId - c.nextId = 1 := Nat.add_sub_cancel_left ..
  rw [Counts, hone, hnext]
  rfl

theorem counts_load (hc : c.Numbered) (now : Timestamp) (key : Visitor) : Counts c (c.load now key).2 := by
  have hload := Succeeds.load c now key
  unfold load at hload ⊢
  split at hload
  · split at hload
    · next hexp => simpa only [hexp, if_true] using counts_ask hc now key
    · next hexp => simpa only [hexp, if_false] using counts_of_nextId hload hc rfl
  · exact counts_ask hc now key

theorem counts_turn (hc : c.Numbered) (now : Timestamp) (r : Reader) : Counts c (r.turn now c).2 := by
  have hturn := Succeeds.turn r now c
  unfold Reader.turn at hturn ⊢
  split at hturn
  · exact counts_of_nextId hturn hc rfl
  · exact counts_load hc now r.key
  · split at hturn <;> exact counts_of_nextId hturn hc rfl
  · exact counts_of_nextId hturn hc rfl
  · exact counts_of_nextId hturn hc rfl

theorem counts_of_change (h : Change c c') (hc : c.Numbered) : Counts c c' := by
  have hnext := Succeeds.of_change h
  cases h with
  | turn r now => exact counts_turn hc now r
  | rewritten now hf => exact counts_scan hc hf.numbers
  | removed | answered | same => exact counts_of_nextId hnext hc rfl

/-! ## What a turn does -/

namespace Stage

/-- The number of the entry that the reader waits for or is to remove. -/
def entry? : Stage → Option Nat
  | awaiting id _ _ | evicting id _ => some id
  | loading _ | done _ => none

/-- On its turn the reader loads an entry. -/
def loads : Stage → Bool
  | loading left => left ≠ 0
  | awaiting _ _ _ | evicting _ _ | done _ => false

/-- What the reader waits for is there, if it waits. -/
def ready (l : Ledger) : Stage → Bool
  | awaiting _ source _ => (source.value? l).isSome
  | loading _ | evicting _ _ | done _ => true

/-- How often the reader may still load. -/
def loadsLeft : Stage → Nat
  | loading left | awaiting _ _ left | evicting _ left => left
  | done _ => 0

/-- How many turns the reader is from its end, at most. -/
def rank : Stage → Nat
  | loading left => 3 * left + 1
  | evicting _ left => 3 * left + 2
  | awaiting _ _ left => 3 * left + 3
  | done _ => 0

/-- All that can come of a turn. -/
inductive Goes (c : OnDemand) (now : Timestamp) (key : Visitor) (second : Seconds) : Stage → Stage → OnDemand → Prop
  | gaveUp : Goes c now key second (loading 0) (done none) c
  | loaded {left : Nat} : Goes c now key second (loading (left + 1))
      (awaiting (c.load now key).1.id (c.load now key).1.source left) (c.load now key).2
  | waits {id left : Nat} {source : Source} : source.value? c.ledger = none →
      Goes c now key second (awaiting id source left) (awaiting id source left) c
  | ended {id left : Nat} {source : Source} {p : Punishment} : source.value? c.ledger = some (some p) →
      p.ExpiredAt second → Goes c now key second (awaiting id source left) (evicting id left) c
  | told {id left : Nat} {source : Source} {v : Option Punishment} : source.value? c.ledger = some v →
      (∀ p ∈ v, ¬p.ExpiredAt second) → Goes c now key second (awaiting id source left) (done v) c
  | removed {id left : Nat} : Goes c now key second (evicting id left) (loading left) (c.dropEntry key id)
  | stays {v : Option Punishment} : Goes c now key second (done v) (done v) c

end Stage

namespace Reader

theorem goes_turn (r : Reader) (now : Timestamp) (c : OnDemand) : ∃ stage c',
    r.turn now c = ({ r with stage }, c') ∧ Stage.Goes c now r.key r.second r.stage stage c' := by
  obtain ⟨key, second, stage⟩ := r
  cases stage with
  | done v => exact ⟨_, _, rfl, .stays⟩
  | evicting id left => exact ⟨_, _, rfl, .removed⟩
  | loading left =>
    cases left with
    | zero => exact ⟨_, _, rfl, .gaveUp⟩
    | succ left => exact ⟨_, _, rfl, .loaded⟩
  | awaiting id source left =>
    simp only [turn]
    cases hv : source.value? c.ledger with
    | none => exact ⟨_, _, rfl, .waits hv⟩
    | some v =>
      by_cases hover : ∃ p ∈ v, p.ExpiredAt second
      · obtain ⟨p, hp, hover'⟩ := hover
        obtain rfl := Option.mem_def.1 hp
        exact ⟨_, _, by simp only [if_pos (⟨p, rfl, hover'⟩ : ∃ p' ∈ some p, p'.ExpiredAt second)], .ended hv hover'⟩
      · exact ⟨_, _, by simp only [if_neg hover], .told hv fun p hp hover' => hover ⟨p, hp, hover'⟩⟩

/-- The reader waits for the value of `e`, or that is over and `e` is to be removed. -/
def GoesBy (r : Reader) (e : Entry) (l : Ledger) : Prop :=
  match r.stage with
  | .awaiting id source _ => id = e.id ∧ source = e.source
  | .evicting id _ => id = e.id ∧ ∃ p, e.value? l = some (some p) ∧ p.ExpiredAt r.second
  | .loading _ | .done _ => False

variable {r : Reader} {e : Entry}

theorem GoesBy.mono (h : r.GoesBy e c.ledger) (hc : c.Succeeds c') : r.GoesBy e c'.ledger := by
  obtain ⟨key, second, stage⟩ := r
  cases stage with
  | loading | awaiting | done => exact h
  | evicting id left =>
    obtain ⟨hid, p, hv, hover⟩ := h
    exact ⟨hid, p, Entry.value?_mono hc.answers hv, hover⟩

/-- Who goes by an entry after a turn on which nothing was loaded has gone by it before. -/
theorem GoesBy.turn {now : Timestamp} (hloads : r.stage.loads = false)
    (hentry : (r.turn now c).1.stage.entry?.isSome) : r.stage.entry?.isSome ∧
      ∀ e, r.GoesBy e c.ledger → (r.turn now c).1.GoesBy e (r.turn now c).2.ledger := by
  obtain ⟨key, second, stage⟩ := r
  obtain ⟨stage', c', hturn, hgoes⟩ := goes_turn ⟨key, second, stage⟩ now c
  rw [hturn] at hentry ⊢
  cases hgoes with
  | gaveUp | told | removed | stays => cases hentry
  | loaded => cases hloads
  | waits => exact ⟨rfl, fun e h => h⟩
  | ended hv hover => exact ⟨rfl, fun e h => ⟨h.1, _, by rw [Entry.value?, ← h.2, hv], hover⟩⟩

theorem turn_of_loads (h : r.stage.loads) (now : Timestamp) (c : OnDemand) : ∃ left, r.turn now c =
    ({ r with stage := .awaiting (c.load now r.key).1.id (c.load now r.key).1.source left }, (c.load now r.key).2) := by
  obtain ⟨key, second, stage⟩ := r
  obtain ⟨stage', c', hturn, hgoes⟩ := goes_turn ⟨key, second, stage⟩ now c
  cases hgoes with
  | loaded => exact ⟨_, hturn⟩
  | gaveUp | waits | ended | told | removed | stays => cases h

/-- Each load is one of those that the reader may make. -/
theorem loadsLeft_turn (r : Reader) (now : Timestamp) (c : OnDemand) :
    (r.turn now c).1.stage.loadsLeft + r.stage.loads.toNat ≤ r.stage.loadsLeft := by
  obtain ⟨key, second, stage⟩ := r
  obtain ⟨stage', c', hturn, hgoes⟩ := goes_turn ⟨key, second, stage⟩ now c
  rw [hturn]
  cases hgoes <;> simp [Stage.loadsLeft, Stage.loads]

/-- A turn brings the reader nearer to its end, unless it is held up. -/
theorem rank_turn (r : Reader) (now : Timestamp) (c : OnDemand) :
    (r.turn now c).1.stage.rank ≤ r.stage.rank - (r.stage.ready c.ledger).toNat := by
  obtain ⟨key, second, stage⟩ := r
  obtain ⟨stage', c', hturn, hgoes⟩ := goes_turn ⟨key, second, stage⟩ now c
  rw [hturn]
  cases hgoes with
  | waits hv | ended hv | told hv => simp [Stage.rank, Stage.ready, hv]
  | loaded =>
    simp only [Stage.rank, Stage.ready, Bool.toNat_true]
    omega
  | gaveUp | removed | stays => simp [Stage.rank, Stage.ready]

/-- A reader is told no mute that was over when it came. -/
def Sound (r : Reader) : Prop := ∀ v, r.stage = .done v → ∀ p ∈ v, ¬p.ExpiredAt r.second

theorem Sound.turn (h : r.Sound) (now : Timestamp) (c : OnDemand) : (r.turn now c).1.Sound := by
  obtain ⟨key, second, stage⟩ := r
  obtain ⟨stage', c', hturn, hgoes⟩ := goes_turn ⟨key, second, stage⟩ now c
  rw [hturn]
  rintro v hv p hp
  cases hgoes with
  | gaveUp =>
    cases hv
    cases hp
  | told _ hlive =>
    cases hv
    exact hlive p hp
  | stays => exact h v hv p hp
  | loaded | waits | ended | removed => cases hv

end Reader

end OnDemand

namespace ReadingRoom

open OnDemand (Entry Source Stage Reader)

/-! ## What is written, and by whom entries are loaded -/

/-- The entries that are written at the events. -/
def written : ReadingRoom → List Event → List (Visitor × Entry)
  | _, [] => []
  | room, event :: events =>
    OnDemand.written room.cache (room.step event).cache ++ (room.step event).written events

/-- The `i`-th reader loads an entry at the event. -/
def loads (i : Nat) (room : ReadingRoom) : Event → Bool
  | .arrive _ _ => decide (i = room.readers.length)
  | .turn _ j => decide (j = i) && room.readers[i]?.any fun r => r.stage.loads
  | _ => false

/-- It is the turn of the `i`-th reader, and what it waits for is there. -/
def proceeds (i : Nat) (room : ReadingRoom) : Event → Bool
  | .turn _ j => decide (j = i) && room.readers[i]?.any fun r => r.stage.ready room.cache.ledger
  | _ => false

/-- At how many of the events something holds. -/
def tally (what : ReadingRoom → Event → Bool) : ReadingRoom → List Event → Nat
  | _, [] => 0
  | room, event :: events => (what room event).toNat + tally what (room.step event) events

/-- The `i`-th reader, who wants `key`, has loaded `e` and nothing since; the room was `loaded` then. -/
structure LastLoad (start : ReadingRoom) (events : List Event) (i : Nat) (key : Visitor) (loaded : ReadingRoom)
    (e : Entry) (since : List Event) : Prop where
  split : ∃ before event, events = before ++ event :: since ∧ loads i (start.run before) event ∧
    loaded = (start.run before).step event
  entry : loaded.cache.entries.get? key = some e
  last : tally (loads i) loaded since = 0

variable {room start loaded : ReadingRoom} {event : Event} {events since : List Event} {key : Visitor} {e : Entry}
  {i : Nat}

theorem tally_concat (what : ReadingRoom → Event → Bool) (room : ReadingRoom) (events : List Event) (event : Event) :
    tally what room (events ++ [event]) = tally what room events + (what (room.run events) event).toNat := by
  induction events generalizing room with
  | nil => simp [tally]
  | cons first events ih => simp [tally, ih, Nat.add_assoc]

/-! ## Numbers -/

/-- The entries bear consecutive numbers, in the order in which they are written. -/
theorem ids_written (h : room.cache.Numbered) (events : List Event) : ((room.written events).map fun w => w.2.id) =
    List.range' room.cache.nextId ((room.run events).cache.nextId - room.cache.nextId) := by
  induction events generalizing room with
  | nil => simp [written]
  | cons event events ih =>
    have hfirst := OnDemand.counts_of_change (room.change_step event) h
    have hstep := room.succeeds_step event
    have hrest := (room.step event).succeeds_run events
    have hlater := ih (hstep.numbered h)
    have hle := hstep.nextId
    have hle' := hrest.nextId
    rw [OnDemand.Counts] at hfirst
    rw [written, List.map_append, hfirst, hlater, run_cons]
    conv_lhs =>
      rw [← Nat.add_sub_cancel' hle]
      simp only [Nat.add_sub_cancel_left]
    rw [List.range'_append_1]
    congr 1
    omega

/-- Numbers that fit stay distinct as words. -/
theorem nodup_map_ofNat {n : Nat} (h : n ≤ UInt64.size) : ((List.range n).map UInt64.ofNat).Nodup := by
  refine List.Nodup.map_on (fun i hi j hj heq => ?_) List.nodup_range
  have hfits {k : Nat} (hk : k ∈ List.range n) : k < UInt64.size := Nat.lt_of_lt_of_le (List.mem_range.1 hk) h
  have hvalue := congrArg UInt64.toNat heq
  rwa [UInt64.toNat_ofNat_of_lt' (hfits hi), UInt64.toNat_ofNat_of_lt' (hfits hj)] at hvalue

/-- An entry is one that was there, or has been written since. -/
theorem same_or_written (room : ReadingRoom) (events : List Event) {e' : Entry}
    (he' : (room.run events).cache.entries.get? key = some e') :
    (∃ e ∈ room.cache.entries.get? key, e'.Same e) ∨ ∃ w ∈ room.written events, w.1 = key ∧ e'.Same w.2 := by
  induction events generalizing room with
  | nil => exact .inl ⟨e', he', .refl e'⟩
  | cons event events ih =>
    rcases ih (room.step event) he' with ⟨e₁, he₁, hsame⟩ | ⟨w, hw, hkey, hsame⟩
    · by_cases hold : ∃ e ∈ room.cache.entries.get? key, e₁.Same e
      · obtain ⟨e, he, hsame'⟩ := hold
        exact .inl ⟨e, he, hsame.trans hsame'⟩
      · refine .inr ⟨(key, e₁), List.mem_append_left _ (List.mem_filter.2 ⟨?_, ?_⟩), rfl, hsame⟩
        · exact Table.get?_eq_some_iff.1 he₁
        · simpa using hold
    · exact .inr ⟨w, List.mem_append_right _ hw, hkey, hsame⟩

/-! ## What becomes of one reader -/

/-- An event is the arrival of a reader, or its turn, or no matter to it. -/
theorem part_cases (room : ReadingRoom) (event : Event) (i : Nat) :
    (∃ now key, event = .arrive now key ∧ i = room.readers.length) ∨
    (∃ now r, event = .turn now i ∧ room.readers[i]? = some r) ∨
    (room.step event).readers[i]? = room.readers[i]? ∧ loads i room event = false ∧ proceeds i room event = false := by
  cases event with
  | arrive now key =>
    by_cases hi : i = room.readers.length
    · exact .inl ⟨now, key, rfl, hi⟩
    · refine .inr (.inr ⟨?_, decide_eq_false hi, rfl⟩)
      rcases Nat.lt_or_gt_of_ne hi with hlt | hgt
      · exact List.getElem?_append_left hlt
      · have hlength : (room.step (.arrive now key)).readers.length = room.readers.length + 1 := List.length_append
        rw [List.getElem?_eq_none (by omega), List.getElem?_eq_none (by omega)]
  | turn now j =>
    by_cases hj : j = i
    · subst hj
      cases hr : room.readers[j]? with
      | some r => exact .inr (.inl ⟨now, r, rfl, rfl⟩)
      | none => exact .inr (.inr ⟨by simp only [step, hr], by simp [loads, hr], by simp [proceeds, hr]⟩)
    · refine .inr (.inr ⟨?_, by simp [loads, hj], by simp [proceeds, hj]⟩)
      simp only [step]
      split
      · exact List.getElem?_set_ne hj
      · rfl
  | login | record | recordFor | clearWhere | evict | complete => exact .inr (.inr ⟨rfl, rfl, rfl⟩)

theorem getElem?_arrive (room : ReadingRoom) (now : Moment) (key : Visitor) :
    (room.step (.arrive now key)).readers[room.readers.length]? =
      some (Reader.turn now.steady ⟨key, now.second, .loading 2⟩ room.cache).1 := by
  simp only [step, List.getElem?_concat_length]

theorem loads_turn {r : Reader} (hi : room.readers[i]? = some r) (now : Timestamp) :
    loads i room (.turn now i) = r.stage.loads := by simp [loads, hi]

theorem proceeds_turn {r : Reader} (hi : room.readers[i]? = some r) (now : Timestamp) :
    proceeds i room (.turn now i) = r.stage.ready room.cache.ledger := by simp [proceeds, hi]

/-! ## The entry that a reader goes by -/

theorem LastLoad.run (h : LastLoad start events i key loaded e since) : start.run events = loaded.run since := by
  obtain ⟨before, first, rfl, -, rfl⟩ := h.split
  rw [run_append, run_cons]

theorem LastLoad.concat (h : LastLoad start events i key loaded e since)
    (hloads : loads i (start.run events) event = false) :
    LastLoad start (events ++ [event]) i key loaded e (since ++ [event]) where
  split := by
    obtain ⟨before, first, rfl, hfirst, hloaded⟩ := h.split
    exact ⟨before, first, by simp, hfirst, hloaded⟩
  entry := h.entry
  last := by rw [tally_concat, h.last, ← h.run, hloads]; rfl

/-- Who waits for a value, or is to remove an entry, goes by the entry that it has loaded last. -/
theorem exists_lastLoad (hstart : start.readers = []) {r : Reader} (hi : (start.run events).readers[i]? = some r)
    (hr : r.stage.entry?.isSome) : ∃ loaded e since, LastLoad start events i r.key loaded e since ∧
      r.GoesBy e (start.run events).cache.ledger := by
  induction events using List.reverseRecOn generalizing r with
  | nil =>
    rw [run_nil, hstart] at hi
    cases hi
  | append_singleton events event ih =>
    rw [run_concat] at hi ⊢
    have hhere {e : Entry} (hloads : loads i (start.run events) event)
        (he : ((start.run events).step event).cache.entries.get? r.key = some e) :
        LastLoad start (events ++ [event]) i r.key ((start.run events).step event) e [] :=
      ⟨⟨events, event, rfl, hloads, rfl⟩, he, rfl⟩
    rcases (start.run events).part_cases event i with ⟨now, key, rfl, rfl⟩ | ⟨now, r₀, rfl, hi₀⟩ | ⟨hsame, hloads, -⟩
    · rw [getElem?_arrive] at hi
      obtain rfl := Option.some.inj hi
      exact ⟨_, _, [], hhere (decide_eq_true rfl) ((start.run events).cache.get?_load now.steady key), rfl, rfl⟩
    · rw [getElem?_turn hi₀] at hi
      obtain rfl := Option.some.inj hi
      have hcache := cache_turn hi₀ now
      cases hloads : r₀.stage.loads with
      | true =>
        obtain ⟨left, hturn⟩ := Reader.turn_of_loads hloads now (start.run events).cache
        simp only [hturn] at hhere hcache ⊢
        refine ⟨_, _, [], hhere ((loads_turn hi₀ now).trans hloads) ?_, rfl, rfl⟩
        rw [hcache]
        exact OnDemand.get?_load _ now r₀.key
      | false =>
        obtain ⟨hr₀, hgoes⟩ := Reader.GoesBy.turn hloads hr
        obtain ⟨loaded, e, since, hlast, hby⟩ := ih hi₀ hr₀
        have hkey : (r₀.turn now (start.run events).cache).1.key = r₀.key := by
          obtain ⟨stage, c', hturn, -⟩ := r₀.goes_turn now (start.run events).cache
          rw [hturn]
        refine ⟨loaded, e, since ++ [.turn now i], ?_, hcache ▸ hgoes e hby⟩
        exact hkey ▸ hlast.concat ((loads_turn hi₀ now).trans hloads)
    · obtain ⟨loaded, e, since, hlast, hby⟩ := ih (hsame ▸ hi) hr
      exact ⟨loaded, e, since ++ [event], hlast.concat hloads, hby.mono ((start.run events).succeeds_step event)⟩

/-! ## The end of a reader -/

/-- How often the `i`-th reader may still load, who may yet have to come. -/
def loadsLeft (room : ReadingRoom) (i : Nat) : Nat := room.readers[i]?.elim 2 fun r => r.stage.loadsLeft

/-- How many turns the `i`-th reader is from its end at most, once it has come. -/
def rank (room : ReadingRoom) (i : Nat) : Nat := room.readers[i]?.elim 6 fun r => r.stage.rank

theorem loadsLeft_step (room : ReadingRoom) (event : Event) (i : Nat) :
    (room.step event).loadsLeft i + (loads i room event).toNat ≤ room.loadsLeft i := by
  rcases room.part_cases event i with ⟨now, key, rfl, rfl⟩ | ⟨now, r, rfl, hi⟩ | ⟨hsame, hloads, -⟩
  · have hloads : loads room.readers.length room (.arrive now key) = true := decide_eq_true rfl
    rw [loadsLeft, loadsLeft, getElem?_arrive, List.getElem?_eq_none (Nat.le_refl _), hloads]
    exact Reader.loadsLeft_turn ⟨key, now.second, .loading 2⟩ now.steady room.cache
  · rw [loadsLeft, loadsLeft, getElem?_turn hi, hi, loads_turn hi]
    exact r.loadsLeft_turn now room.cache
  · rw [loadsLeft, hsame, hloads]
    exact Nat.le_refl _

theorem rank_step (room : ReadingRoom) (event : Event) (i : Nat) :
    (room.step event).rank i ≤ room.rank i - (proceeds i room event).toNat := by
  rcases room.part_cases event i with ⟨now, key, rfl, rfl⟩ | ⟨now, r, rfl, hi⟩ | ⟨hsame, -, hproceeds⟩
  · rw [rank, rank, getElem?_arrive, List.getElem?_eq_none (Nat.le_refl _)]
    exact Nat.le_refl 6
  · rw [rank, rank, getElem?_turn hi, hi, proceeds_turn hi]
    exact r.rank_turn now room.cache
  · rw [rank, hsame, hproceeds]
    exact Nat.le_refl _

theorem loadsLeft_run (room : ReadingRoom) (events : List Event) (i : Nat) :
    (room.run events).loadsLeft i + tally (loads i) room events ≤ room.loadsLeft i := by
  induction events generalizing room with
  | nil => exact Nat.le_refl _
  | cons event events ih =>
    have hfirst := room.loadsLeft_step event i
    have hrest := ih (room.step event)
    simp only [tally, run_cons]
    omega

theorem rank_run (room : ReadingRoom) (events : List Event) (i : Nat) :
    (room.run events).rank i ≤ room.rank i - tally (proceeds i) room events := by
  induction events generalizing room with
  | nil => exact Nat.le_refl _
  | cons event events ih =>
    have hfirst := room.rank_step event i
    have hrest := ih (room.step event)
    simp only [tally, run_cons]
    omega

/-- Who has taken as many turns as there can be is at its end. -/
theorem done_of_rank (h : room.rank i = 0) : ∃ r ∈ room.readers[i]?, ∃ v, r.stage = .done v := by
  unfold rank at h
  cases hi : room.readers[i]? with
  | none =>
    rw [hi] at h
    cases h
  | some r =>
    rw [hi] at h
    refine ⟨r, rfl, ?_⟩
    cases hstage : r.stage with
    | done v => exact ⟨v, rfl⟩
    | loading | awaiting | evicting =>
      rw [Option.elim_some, hstage] at h
      cases h

theorem sound_run (hstart : start.readers = []) (events : List Event) {r : Reader}
    (hi : (start.run events).readers[i]? = some r) : r.Sound := by
  induction events using List.reverseRecOn generalizing r with
  | nil =>
    rw [run_nil, hstart] at hi
    cases hi
  | append_singleton events event ih =>
    rw [run_concat] at hi
    rcases (start.run events).part_cases event i with ⟨now, key, rfl, rfl⟩ | ⟨now, r₀, rfl, hi₀⟩ | ⟨hsame, -, -⟩
    · rw [getElem?_arrive] at hi
      obtain rfl := Option.some.inj hi
      exact Reader.Sound.turn (r := ⟨key, now.second, .loading 2⟩) (by rintro v ⟨⟩) now.steady _
    · rw [getElem?_turn hi₀] at hi
      obtain rfl := Option.some.inj hi
      exact (ih hi₀).turn _ _
    · exact ih (hsame ▸ hi)

/-! ## What is removed -/

/-- The entry that was loaded last is told from what was written since by its number. -/
theorem LastLoad.not_same_iff (h : LastLoad start events i key loaded e since) (hnumbered : loaded.cache.Numbered)
    {e' : Entry} (he' : (start.run events).cache.entries.get? key = some e') :
    ¬e'.Same e ↔ ∃ w ∈ loaded.written since, w.1 = key ∧ e'.Same w.2 := by
  rw [h.run] at he'
  constructor
  · intro hother
    refine (loaded.same_or_written since he').resolve_left ?_
    rintro ⟨e₀, he₀, hsame⟩
    obtain rfl := Option.some.inj (h.entry.symm.trans he₀)
    exact hother hsame
  · rintro ⟨w, hw, -, hsame⟩ hsame'
    have hid : w.2.id ∈ (loaded.written since).map fun w => w.2.id := List.mem_map_of_mem hw
    rw [ids_written hnumbered, List.mem_range'_1] at hid
    have hold := hnumbered key e h.entry
    have hnew := hsame.1.symm.trans hsame'.1
    omega

/-- Who removes the entry with that number removes the entry that was loaded last, or none. -/
theorem LastLoad.get?_dropEntry (h : LastLoad start events i key loaded e since) (hnumbered : loaded.cache.Numbered)
    (k : Visitor) : ((start.run events).cache.dropEntry key e.id).entries.get? k =
      ((start.run events).cache.entries.get? k).filter fun e' => !decide (k = key ∧ e'.Same e) := by
  rw [OnDemand.dropEntry, Table.get?_filter]
  cases he' : (start.run events).cache.entries.get? k with
  | none => rfl
  | some e' =>
    have hsame : (k = key ∧ e'.id = e.id) ↔ (k = key ∧ e'.Same e) := by
      refine and_congr_right fun hk => ⟨fun hid => ?_, fun hsame => hsame.1⟩
      subst hk
      rw [h.run] at he'
      obtain ⟨e₀, he₀, hsame⟩ := (loaded.succeeds_run since).same he' (hid ▸ hnumbered k e h.entry)
      obtain rfl := Option.some.inj (h.entry.symm.trans he₀)
      exact hsame
    simp only [Option.filter_some, hsame]

/-- A reader that is about to remove an entry has found the value of the entry that it loaded last to be over. That
entry is all that it removes: what was written since under this key stays, and so does whatever other visitors have.
Entries are written with consecutive numbers, all distinct as long as they fit. And every reader loads at most twice,
has in the end no mute that was over when it came, and is at its end after six turns on which it was not held up.
Look-ups at one go are such readers, who take their turns in a row. -/
theorem removes_only_what_it_loaded (config : Config) (events : List Event) :
    let start := ofConfig config
    let room := start.run events
    room.TakesTurns ∧
    (∀ i key second id left, room.readers[i]? = some ⟨key, second, .evicting id left⟩ →
      ∃ loaded e since, LastLoad start events i key loaded e since ∧
        (∃ p, e.value? room.cache.ledger = some (some p) ∧ p.ExpiredAt second) ∧
        (∀ now k, (room.step (.turn now i)).cache.entries.get? k =
          (room.cache.entries.get? k).filter fun e' => !decide (k = key ∧ e'.Same e)) ∧
        ∀ e' ∈ room.cache.entries.get? key, ¬e'.Same e ↔ ∃ w ∈ loaded.written since, w.1 = key ∧ e'.Same w.2) ∧
    ((start.written events).map fun w => w.2.id) = List.range room.cache.nextId ∧
    ((start.written events).length ≤ UInt64.size → ((start.written events).map fun w => UInt64.ofNat w.2.id).Nodup) ∧
    ∀ i, tally (loads i) start events ≤ 2 ∧
      (∀ r ∈ room.readers[i]?, ∀ v, r.stage = .done v → ∀ p ∈ v, ¬p.ExpiredAt r.second) ∧
      (6 ≤ tally (proceeds i) start events → ∃ r ∈ room.readers[i]?, ∃ v, r.stage = .done v) := by
  intro start room
  have horderly : start.Orderly := orderly_ofConfig config
  have hids : ((start.written events).map fun w => w.2.id) = List.range room.cache.nextId := by
    rw [ids_written horderly.numbered, List.range_eq_range']
    rfl
  refine ⟨room.takesTurns, ?_, hids, ?_, fun i => ⟨?_, fun r hr => sound_run rfl events hr, ?_⟩⟩
  · intro i key second id left hi
    obtain ⟨loaded, e, since, hlast, rfl, hover⟩ := exists_lastLoad rfl hi rfl
    have hnumbered : loaded.cache.Numbered := by
      obtain ⟨before, first, -, -, rfl⟩ := hlast.split
      exact ((horderly.run before).step first).numbered
    refine ⟨loaded, e, since, hlast, hover, fun now k => ?_, fun e' he' => hlast.not_same_iff hnumbered he'⟩
    rw [cache_turn hi]
    exact hlast.get?_dropEntry hnumbered k
  · intro hlength
    have hcount : room.cache.nextId = (start.written events).length := by
      rw [← List.length_range (n := room.cache.nextId), ← hids, List.length_map]
    have hdistinct := nodup_map_ofNat (hcount ▸ hlength : room.cache.nextId ≤ UInt64.size)
    rw [← hids, List.map_map] at hdistinct
    exact hdistinct
  · have hrun := start.loadsLeft_run events i
    have hfirst : start.loadsLeft i = 2 := rfl
    omega
  · intro hturns
    have hrun : room.rank i ≤ start.rank i - tally (proceeds i) start events := start.rank_run events i
    have hfirst : start.rank i = 6 := rfl
    exact done_of_rank (by omega)

/-- A mute is recorded while a reader is about to remove another that is over. It stays, and the reader is told it. -/
theorem removes_only_what_it_loaded_not_recorded :
    let key : Visitor := default
    let ended : Punishment := ⟨1, .mute, .player key.user, .console, "spam", .global, 0, 5⟩
    let p : Punishment := ⟨2, .mute, .player key.user, .console, "flood", .global, 0, 0⟩
    let start := ofConfig { variant := .onDemand }
    let events : List Event := [.arrive ⟨1000, 10000⟩ key, .complete 0 (some ended), .turn 1000 0, .record 1500 p]
    let later := List.replicate 5 (Event.turn 2000 0)
    let room := start.run events
    room.TakesTurns ∧ room.readers[0]? = some ⟨key, 10, .evicting 0 1⟩ ∧
      (room.step (.turn 2000 0)).cache.entries.get? key = some ⟨1, .known (some p), 1500, 1500⟩ ∧
      ((start.written events).map fun w => UInt64.ofNat w.2.id).Nodup ∧
      (∃ r ∈ (start.run (events ++ later)).readers[0]?, ∃ v, r.stage = .done v) ∧
      (start.run (events ++ later)).readers[0]? = some ⟨key, 10, .done (some p)⟩ := by
  intro key ended p start events later room
  have hreader : room.readers[0]? = some ⟨key, 10, .evicting 0 1⟩ := by decide +kernel
  have hentry : room.cache.entries.get? key = some ⟨1, .known (some p), 1500, 1500⟩ := by decide +kernel
  obtain ⟨hturns, hremoves, -, hdistinct, -⟩ := removes_only_what_it_loaded { variant := .onDemand } events
  obtain ⟨-, -, -, -, hends⟩ := removes_only_what_it_loaded { variant := .onDemand } (events ++ later)
  obtain ⟨loaded, e, since, -, ⟨q, hq, hover⟩, hturn, -⟩ := hremoves 0 key 10 0 1 hreader
  refine ⟨hturns, hreader, ?_, hdistinct (by decide +kernel), (hends 0).2.2 (by decide +kernel), by decide +kernel⟩
  -- What was loaded is over, and what is there now is not.
  have hother : ¬Entry.Same ⟨1, .known (some p), 1500, 1500⟩ e := by
    intro hsame
    obtain rfl : p = q := Option.some.inj (Option.some.inj ((hsame.value? room.cache.ledger).trans hq))
    exact absurd hover (by decide)
  have hafter : (room.step (.turn 2000 0)).cache.entries.get? key =
      (room.cache.entries.get? key).filter fun e' => !decide (key = key ∧ e'.Same e) := hturn 2000 key
  simp [hafter, hentry, Option.filter_some, hother]

end ReadingRoom

end Moderation.Mute
