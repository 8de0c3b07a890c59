import Mathlib.Data.List.Induction
import Moderation.Proofs.Mute.Readers
/-!
# Reading rooms

A reading room is a cache that asks on demand with all its readers. They come and take their turns in any order, and
between any two turns mutes are recorded and cleared, visitors come in, the cache is swept and the store answers.

An entry is known by its number. Whatever happens, an entry either is the one that was there before or bears a number
that was not in use (`succeeds_run`), so a number that is gone does not come back. All that a reader knows of the
entry that it has loaded stays true of whatever bears that number (`Orderly.run`).
-/

namespace Moderation.Mute

namespace OnDemand

/-! ## Entries and their numbers -/

namespace Entry

/-- It is the same entry, whenever it was last wanted. -/
def Same (e e' : Entry) : Prop := e.id = e'.id ∧ e.source = e'.source ∧ e.written = e'.written

instance (e e' : Entry) : Decidable (e.Same e') := inferInstanceAs (Decidable (_ ∧ _ ∧ _))

variable {e e' e'' : Entry}

theorem Same.refl (e : Entry) : e.Same e := ⟨rfl, rfl, rfl⟩

theorem Same.trans (h : e.Same e') (h' : e'.Same e'') : e.Same e'' :=
  ⟨h.1.trans h'.1, h.2.1.trans h'.2.1, h.2.2.trans h'.2.2⟩

theorem Same.value? (h : e.Same e') (l : Ledger) : e.value? l = e'.value? l := congrArg (Source.value? l) h.2.1

theorem value?_mono {l l' : Ledger} (hl : ∀ q v, l.answer? q = some v → l'.answer? q = some v)
    {v : Option Punishment} (h : e.value? l = some v) : e.value? l' = some v := by
  unfold Entry.value? at h ⊢
  cases hsource : e.source with
  | asked q => exact hl q v (by rwa [hsource] at h)
  | known u => rwa [hsource] at h

end Entry

/-! ## What can become of a cache -/

/-- Puts entries that are not asked for in the place of others, and numbers them in order. -/
def Rewrites (now : Timestamp) (f : Visitor → Entry → Nat → Entry × Nat) : Prop :=
  ∀ key e n, f key e n = (e, n) ∨ ∃ v, f key e n = (.ofSource n (.known v) now, n + 1)

theorem Rewrites.numbers {now : Timestamp} {f : Visitor → Entry → Nat → Entry × Nat} (hf : Rewrites now f) :
    Table.Numbers Entry.id f := by
  intro key e n
  rcases hf key e n with hsame | ⟨v, hnew⟩
  · exact .inl hsame
  · exact .inr (by rw [hnew]; exact ⟨rfl, rfl⟩)

/-- All that one event can make of a cache. -/
inductive Change (c : OnDemand) : OnDemand → Prop
  | turn (r : Reader) (now : Timestamp) : Change c (r.turn now c).2
  | removed (keep : Visitor → Entry → Bool) : Change c { c with entries := c.entries.filter keep }
  | rewritten (now : Timestamp) {f : Visitor → Entry → Nat → Entry × Nat} : Rewrites now f → Change c
      { c with entries := (c.entries.scan f c.nextId).1, nextId := (c.entries.scan f c.nextId).2 }
  | answered (q : InquiryId) (v : Option Punishment) : Change c (c.complete q v)
  | same : Change c c

theorem change_record (c : OnDemand) (now : Timestamp) (p : Punishment) : Change c (c.record now p) := by
  unfold record
  split
  · refine .rewritten now fun key e n => ?_
    split
    · exact e.merge_cases c.ledger now p n
    · exact .inl rfl
  · exact .same

theorem change_recordFor (c : OnDemand) (now : Timestamp) (key : Visitor) (p : Punishment) :
    Change c (c.recordFor now key p) := by
  unfold recordFor
  split
  · refine .rewritten now fun key e n => ?_
    split
    · exact e.merge_cases c.ledger now p n
    · exact .inl rfl
  · exact .same

theorem change_clearWhere (c : OnDemand) (now : Timestamp) (match? : Punishment → Bool) :
    Change c (c.clearWhere now match?).2 :=
  .rewritten now fun _ e n => (e.clear_cases c.ledger now match? n).imp_right fun hnew => ⟨none, hnew⟩

/-! ## Entries that stay and entries that are new -/

/-- `c'` is what has become of `c`: answers that were there are there, and an entry is one that was there, or bears a
number that was not in use. -/
structure Succeeds (c c' : OnDemand) : Prop where
  policy : c'.policy = c.policy
  nextId : c.nextId ≤ c'.nextId
  answers : ∀ q v, c.ledger.answer? q = some v → c'.ledger.answer? q = some v
  entries : ∀ key, ∀ e' ∈ c'.entries.get? key,
    (∃ e ∈ c.entries.get? key, e'.Same e) ∨ c.nextId ≤ e'.id ∧ e'.id < c'.nextId

/-- Every entry bears a number that has been given out. -/
def Numbered (c : OnDemand) : Prop := ∀ key, ∀ e ∈ c.entries.get? key, e.id < c.nextId

variable {c c' c'' : OnDemand} {now : Timestamp} {key : Visitor}

namespace Succeeds

theorem refl (c : OnDemand) : c.Succeeds c where
  policy := rfl
  nextId := Nat.le_refl _
  answers _ _ h := h
  entries _ e he := .inl ⟨e, he, .refl e⟩

theorem trans (h : c.Succeeds c') (h' : c'.Succeeds c'') : c.Succeeds c'' where
  policy := h'.policy.trans h.policy
  nextId := Nat.le_trans h.nextId h'.nextId
  answers q v hv := h'.answers q v (h.answers q v hv)
  entries key e'' he'' := by
    have hlow := h.nextId
    have hhigh := h'.nextId
    rcases h'.entries key e'' he'' with ⟨e', he', hsame'⟩ | hnew
    · rcases h.entries key e' he' with ⟨e, he, hsame⟩ | hnew
      · exact .inl ⟨e, he, hsame'.trans hsame⟩
      · rw [← hsame'.1] at hnew
        exact .inr (by omega)
    · exact .inr (by omega)

theorem filter (c : OnDemand) (keep : Visitor → Entry → Bool) :
    c.Succeeds { c with entries := c.entries.filter keep } where
  policy := rfl
  nextId := Nat.le_refl _
  answers _ _ h := h
  entries key e he := by
    rw [Option.mem_def, Table.get?_filter, Option.filter_eq_some_iff] at he
    exact .inl ⟨e, he.1, .refl e⟩

theorem scan (c : OnDemand) {f : Visitor → Entry → Nat → Entry × Nat} (hf : Table.Numbers Entry.id f) :
    c.Succeeds { c with entries := (c.entries.scan f c.nextId).1, nextId := (c.entries.scan f c.nextId).2 } where
  policy := rfl
  nextId := hf.le_scanRows _ _
  answers _ _ h := h
  entries key e he := by
    rcases hf.mem_scanRows (Table.get?_eq_some_iff.1 he) with hold | hnew
    · exact .inl ⟨e, Table.get?_eq_some_iff.2 hold, .refl e⟩
    · exact .inr hnew

theorem ask (c : OnDemand) (now : Timestamp) (key : Visitor) : c.Succeeds (c.ask now key).2 where
  policy := rfl
  nextId := Nat.le_succ _
  answers q v h := (c.ledger.answer?_start key .entry q).trans h
  entries k e he := by
    simp only [OnDemand.ask, Option.mem_def, Table.get?_insert] at he
    split at he
    · obtain rfl := Option.some.inj he
      exact .inr ⟨Nat.le_refl _, Nat.lt_succ_self _⟩
    · exact .inl ⟨e, he, .refl e⟩

theorem load (c : OnDemand) (now : Timestamp) (key : Visitor) : c.Succeeds (c.load now key).2 := by
  unfold OnDemand.load
  split
  · next e he =>
    split
    · exact ask c now key
    · refine ⟨rfl, Nat.le_refl _, fun _ _ h => h, fun k e' he' => ?_⟩
      rw [Option.mem_def, Table.get?_insert] at he'
      split at he'
      · next hk =>
        obtain rfl := Option.some.inj he'
        exact .inl ⟨e, hk ▸ he, rfl, rfl, rfl⟩
      · exact .inl ⟨e', he', .refl e'⟩
  · exact ask c now key

theorem complete (c : OnDemand) (q : InquiryId) (v : Option Punishment) : c.Succeeds (c.complete q v) where
  policy := rfl
  nextId := Nat.le_refl _
  answers q' v' h := by
    refine (c.ledger.answer?_complete q v q').trans ((if_neg ?_).trans h)
    rintro ⟨rfl, hawaits⟩
    rw [hawaits.answer?] at h
    cases h
  entries _ e he := .inl ⟨e, he, .refl e⟩

theorem turn (r : Reader) (now : Timestamp) (c : OnDemand) : c.Succeeds (r.turn now c).2 := by
  unfold Reader.turn
  split
  · exact refl c
  · exact load c now r.key
  · split <;> exact refl c
  · exact filter c _
  · exact refl c

theorem of_change (h : Change c c') : c.Succeeds c' := by
  cases h with
  | turn r now => exact turn r now c
  | removed keep => exact filter c keep
  | rewritten now hf => exact scan c hf.numbers
  | answered q v => exact complete c q v
  | same => exact refl c

/-- An entry that bears a number that had been given out is one that was there. -/
theorem same (h : c.Succeeds c') {e' : Entry} (he' : c'.entries.get? key = some e') (hid : e'.id < c.nextId) :
    ∃ e, c.entries.get? key = some e ∧ e'.Same e := by
  rcases h.entries key e' he' with ⟨e, he, hsame⟩ | ⟨hnew, -⟩
  · exact ⟨e, he, hsame⟩
  · exact absurd hid (Nat.not_lt.2 hnew)

theorem numbered (h : c.Succeeds c') (hc : c.Numbered) : c'.Numbered := by
  intro key e' he'
  rcases h.entries key e' he' with ⟨e, he, hsame⟩ | hnew
  · exact hsame.1 ▸ Nat.lt_of_lt_of_le (hc key e he) h.nextId
  · exact hnew.2

end Succeeds

/-- What a reader loads is what the visitor's entry is then. -/
theorem get?_load (c : OnDemand) (now : Timestamp) (key : Visitor) :
    (c.load now key).2.entries.get? key = some (c.load now key).1 := by
  unfold load
  split
  · split
    · exact (Table.get?_insert _ _ _ _).trans (if_pos rfl)
    · exact (Table.get?_insert _ _ _ _).trans (if_pos rfl)
  · exact (Table.get?_insert _ _ _ _).trans (if_pos rfl)

/-! ## What readers know -/

namespace Reader

/-- What the reader knows of the entry that bears the number that it goes by. -/
def Knows (r : Reader) (c : OnDemand) : Prop :=
  match r.stage with
  | .awaiting id source _ => id < c.nextId ∧ ∀ e ∈ c.entries.get? r.key, e.id = id → e.source = source
  | .evicting id _ => id < c.nextId ∧ ∀ e ∈ c.entries.get? r.key, e.id = id → (e.value? c.ledger).isSome
  | .loading _ | .done _ => True

theorem Knows.mono {r : Reader} (h : r.Knows c) (hc : c.Succeeds c') : r.Knows c' := by
  obtain ⟨key, second, stage⟩ := r
  cases stage with
  | loading | done => trivial
  | awaiting id source left =>
    refine ⟨Nat.lt_of_lt_of_le h.1 hc.nextId, fun e' he' hid => ?_⟩
    obtain ⟨e, he, hsame⟩ := hc.same he' (hid ▸ h.1)
    exact hsame.2.1.trans (h.2 e he (hsame.1.symm.trans hid))
  | evicting id left =>
    refine ⟨Nat.lt_of_lt_of_le h.1 hc.nextId, fun e' he' hid => ?_⟩
    obtain ⟨e, he, hsame⟩ := hc.same he' (hid ▸ h.1)
    obtain ⟨v, hv⟩ := Option.isSome_iff_exists.1 (h.2 e he (hsame.1.symm.trans hid))
    rw [hsame.value?, Entry.value?_mono hc.answers hv]
    rfl

theorem Knows.turn {r : Reader} (h : r.Knows c) (hc : c.Numbered) (now : Timestamp) :
    (r.turn now c).1.Knows (r.turn now c).2 := by
  obtain ⟨key, second, stage⟩ := r
  cases stage with
  | done => exact h
  | loading left =>
    cases left with
    | zero => trivial
    | succ left =>
      have hentry := c.get?_load now key
      refine ⟨(Succeeds.load c now key).numbered hc key _ hentry, fun e he _ => ?_⟩
      obtain rfl : e = (c.load now key).1 := Option.some.inj ((Option.mem_def.1 he).symm.trans hentry)
      rfl
  | evicting id left => trivial
  | awaiting id source left =>
    simp only [Reader.turn]
    cases hv : source.value? c.ledger with
    | none => exact h
    | some v =>
      dsimp only
      split
      · refine ⟨h.1, fun e he hid => ?_⟩
        rw [Entry.value?, h.2 e he hid, hv]
        rfl
      · trivial

end Reader

end OnDemand

/-! ## Rooms -/

open OnDemand (Entry Source Stage Reader Succeeds)

/-- A cache that asks on demand, and all who ever read there. -/
structure ReadingRoom where
  cache : OnDemand
  readers : List Reader := []

namespace ReadingRoom

def ofConfig (config : Config) : ReadingRoom where
  cache := .ofConfig config

inductive Event where
  /-- Somebody comes to look a visitor up, reads the second of the wall clock and loads the entry. -/
  | arrive (now : Moment) (key : Visitor)
  /-- The `i`-th reader goes on. -/
  | turn (now : Timestamp) (i : Nat)
  | login (key : Visitor)
  | record (now : Timestamp) (p : Punishment)
  | recordFor (now : Timestamp) (key : Visitor) (p : Punishment)
  /-- Mutes are cleared: by their name, by their number, or by whatever else is said of them. -/
  | clearWhere (now : Timestamp) (match? : Punishment → Bool)
  | evict (now : Timestamp)
  /-- The store answers an inquiry. -/
  | complete (q : InquiryId) (v : Option Punishment)

def step (room : ReadingRoom) : Event → ReadingRoom
  | .arrive now key =>
    let (r, cache) := Reader.turn now.steady ⟨key, now.second, .loading 2⟩ room.cache
    { cache, readers := room.readers ++ [r] }
  | .turn now i =>
    match room.readers[i]? with
    | some r =>
      let (r, cache) := r.turn now room.cache
      { cache, readers := room.readers.set i r }
    | none => room
  | .login key => { room with cache := room.cache.login key }
  | .record now p => { room with cache := room.cache.record now p }
  | .recordFor now key p => { room with cache := room.cache.recordFor now key p }
  | .clearWhere now match? => { room with cache := (room.cache.clearWhere now match?).2 }
  | .evict now => { room with cache := (room.cache.evict now).2 }
  | .complete q v => { room with cache := room.cache.complete q v }

def run (room : ReadingRoom) (events : List Event) : ReadingRoom := events.foldl step room

variable {room : ReadingRoom} {event : Event} {events : List Event}

@[simp] theorem run_nil (room : ReadingRoom) : room.run [] = room := rfl

@[simp] theorem run_cons (room : ReadingRoom) (event : Event) (events : List Event) :
    room.run (event :: events) = (room.step event).run events := rfl

theorem run_append (room : ReadingRoom) (before after : List Event) :
    room.run (before ++ after) = (room.run before).run after := List.foldl_append

@[simp] theorem run_concat (room : ReadingRoom) (events : List Event) (event : Event) :
    room.run (events ++ [event]) = (room.run events).step event := room.run_append events [event]

theorem change_step (room : ReadingRoom) (event : Event) : OnDemand.Change room.cache (room.step event).cache := by
  cases event with
  | arrive now key => exact .turn ⟨key, now.second, .loading 2⟩ now.steady
  | turn now i =>
    simp only [step]
    split
    · exact .turn _ now
    · exact .same
  | login | evict => exact .removed _
  | record now p => exact room.cache.change_record now p
  | recordFor now key p => exact room.cache.change_recordFor now key p
  | clearWhere now match? => exact room.cache.change_clearWhere now match?
  | complete q v => exact .answered q v

theorem succeeds_step (room : ReadingRoom) (event : Event) : room.cache.Succeeds (room.step event).cache :=
  .of_change (room.change_step event)

theorem succeeds_run (room : ReadingRoom) (events : List Event) : room.cache.Succeeds (room.run events).cache := by
  induction events generalizing room with
  | nil => exact .refl room.cache
  | cons event events ih => exact (room.succeeds_step event).trans (ih (room.step event))

theorem cache_turn {i : Nat} {r : Reader} (hi : room.readers[i]? = some r) (now : Timestamp) :
    (room.step (.turn now i)).cache = (r.turn now room.cache).2 := by
  simp only [step, hi]

theorem getElem?_turn {i : Nat} {r : Reader} (hi : room.readers[i]? = some r) (now : Timestamp) :
    (room.step (.turn now i)).readers[i]? = some (r.turn now room.cache).1 := by
  simp only [step, hi]
  exact List.getElem?_set_self (List.getElem?_eq_some_iff.1 hi).1

/-! ## Look-ups at one go -/

/-- A look-up at one go is a reader who comes and takes its turns in a row, and to go on with one at one go is to take
more of them: the cache becomes what it becomes then, and the answer is what the reader is told. -/
structure TakesTurns (room : ReadingRoom) : Prop where
  get (now : Moment) (key : Visitor) : ∃ n r,
    let room' := room.run (.arrive now key :: List.replicate n (.turn now.steady room.readers.length))
    room'.cache = (room.cache.get now key).2 ∧ room'.readers[room.readers.length]? = some r ∧
      r.Told (room.cache.get now key).1
  resume (now : Timestamp) {i : Nat} {r : Reader} {w : Waiting} : room.readers[i]? = some r → r.Told (.later w) →
    ∃ n r',
      let room' := room.run (List.replicate n (.turn now i))
      room'.cache = (room.cache.resume now w).2 ∧ room'.readers[i]? = some r' ∧
        r'.Told (room.cache.resume now w).1

theorem run_turns {i : Nat} {r : Reader} (hi : room.readers[i]? = some r) (now : Timestamp) (n : Nat) :
    (room.run (List.replicate n (.turn now i))).cache = (r.turns now n room.cache).2 ∧
      (room.run (List.replicate n (.turn now i))).readers[i]? = some (r.turns now n room.cache).1 := by
  induction n generalizing room r with
  | zero => exact ⟨rfl, hi⟩
  | succ n ih =>
    have hrest := ih (getElem?_turn hi now)
    rw [cache_turn hi] at hrest
    exact hrest

theorem takesTurns (room : ReadingRoom) : room.TakesTurns where
  get now key := by
    obtain ⟨n, r, hturns, htold⟩ := OnDemand.exists_turns_read now.steady key now.second 2 room.cache
    cases n with
    | zero =>
      -- Who has yet to load is told nothing.
      obtain rfl := (Prod.mk.inj hturns).1
      cases htold
    | succ n =>
      have hcomes : (room.step (.arrive now key)).readers[room.readers.length]? =
          some (Reader.turn now.steady ⟨key, now.second, .loading 2⟩ room.cache).1 := List.getElem?_concat_length
      have hrun : Reader.turns now.steady n (Reader.turn now.steady ⟨key, now.second, .loading 2⟩ room.cache).1
          (room.step (.arrive now key)).cache = (r, (room.cache.get now key).2) := hturns
      obtain ⟨hcache, hreader⟩ := run_turns hcomes now.steady n
      rw [hrun] at hcache hreader
      exact ⟨n, r, hcache, hreader, htold⟩
  resume now i r w hi hr := by
    obtain ⟨n, r', hturns, htold⟩ := OnDemand.exists_turns_resume hr now room.cache
    obtain ⟨hcache, hreader⟩ := run_turns hi now n
    rw [hturns] at hcache hreader
    exact ⟨n, r', hcache, hreader, htold⟩

/-! ## What stays -/

/-- A reader stays where it is until it is its turn. -/
theorem getElem?_step {i : Nat} {r : Reader} (hi : room.readers[i]? = some r) (event : Event) :
    (room.step event).readers[i]? = some r ∨
      ∃ now, event = .turn now i ∧ (room.step event).readers[i]? = some (r.turn now room.cache).1 := by
  cases event with
  | arrive now key => exact .inl ((List.getElem?_append_left (List.getElem?_eq_some_iff.1 hi).1).trans hi)
  | turn now j =>
    by_cases hj : j = i
    · subst hj
      exact .inr ⟨now, rfl, getElem?_turn hi now⟩
    · refine .inl ?_
      simp only [step]
      split
      · exact (List.getElem?_set_ne hj).trans hi
      · exact hi
  | login | record | recordFor | clearWhere | evict | complete => exact .inl hi

/-- Numbers are given out in order, and readers know what the entries are that bear them. -/
structure Orderly (room : ReadingRoom) : Prop where
  numbered : room.cache.Numbered
  readers : ∀ r ∈ room.readers, r.Knows room.cache

theorem orderly_ofConfig (config : Config) : (ofConfig config).Orderly where
  numbered _ _ he := by cases he
  readers _ hr := by cases hr

theorem Orderly.step (h : room.Orderly) (event : Event) : (room.step event).Orderly := by
  have hnext := room.succeeds_step event
  refine ⟨hnext.numbered h.numbered, fun r hr => ?_⟩
  have hold : ∀ r ∈ room.readers, r.Knows (room.step event).cache := fun r hr => (h.readers r hr).mono hnext
  cases event with
  | arrive now key =>
    rcases List.mem_append.1 hr with hr | hr
    · exact hold r hr
    · obtain rfl := List.mem_singleton.1 hr
      exact Reader.Knows.turn (r := ⟨key, now.second, .loading 2⟩) trivial h.numbered now.steady
  | turn now i =>
    simp only [ReadingRoom.step] at hr hold ⊢
    cases hi : room.readers[i]? with
    | none =>
      rw [hi] at hr
      exact h.readers r hr
    | some r₀ =>
      simp only [hi] at hr hold ⊢
      rcases List.mem_or_eq_of_mem_set hr with hr | rfl
      · exact hold r hr
      · exact (h.readers r₀ (List.mem_of_getElem? hi)).turn h.numbered now
  | login | record | recordFor | clearWhere | evict | complete => exact hold r hr

theorem Orderly.run (h : room.Orderly) (events : List Event) : (room.run events).Orderly := by
  induction events generalizing room with
  | nil => exact h
  | cons event events ih => exact ih (h.step event)

end ReadingRoom

end Moderation.Mute
