import Moderation.Proofs.Mute.Recording
import Moderation.Proofs.Store.Applicable
/-!
# Every mute is where it belongs

A cache is sound if each mute in it is kept for a visitor whom it covers: what its entries hold, and what the
store answered to its inquiries. Whatever is done with a sound cache leaves it sound, and what a look-up answers
with, at once or after it has waited, is a mute that covers the visitor and is not over at the second at which the
look-up began (`Cache.sound_get`, `Cache.sound_resume`).
-/

namespace Moderation

namespace Mute

/-! ## Inquiries and their answers -/

namespace Ledger

variable {l l' : Ledger} {q : InquiryId} {key : Visitor} {v : Option Punishment}

/-- The inquiry is about the visitor. -/
def Asks (l : Ledger) (q : InquiryId) (key : Visitor) : Prop :=
  ∃ i, l.inquiries[q]? = some i ∧ i.key = key

/-- The store has answered with mutes of the visitors who were asked about. -/
def Sound (l : Ledger) : Prop :=
  ∀ q key v, l.Asks q key → l.answer? q = some v → ∀ p ∈ v, p.Mutes key

/-- The inquiries of one ledger are in the other one too. -/
def Within (l l' : Ledger) : Prop := ∀ q key, l.Asks q key → l'.Asks q key

theorem Within.refl (l : Ledger) : l.Within l := fun _ _ h => h

theorem Within.trans {l'' : Ledger} (h : l.Within l') (h' : l'.Within l'') : l.Within l'' :=
  fun q key hq => h' q key (h q key hq)

theorem sound_empty : ({} : Ledger).Sound := by
  rintro q key v ⟨i, hi, -⟩
  simp at hi

theorem asks_start (l : Ledger) (key : Visitor) (purpose : Purpose) :
    (l.start key purpose).2.Asks (l.start key purpose).1 key :=
  ⟨_, l.inquiries_start key purpose, rfl⟩

theorem within_start (l : Ledger) (key : Visitor) (purpose : Purpose) : l.Within (l.start key purpose).2 := by
  rintro q k ⟨i, hi, hk⟩
  refine ⟨i, ?_, hk⟩
  have hlt : q < l.size := (Array.getElem?_eq_some_iff.1 hi).1
  rw [getElem?_start, if_neg (Nat.ne_of_lt hlt), hi]

theorem Sound.start (h : l.Sound) (key : Visitor) (purpose : Purpose) : (l.start key purpose).2.Sound := by
  rintro q k v ⟨i, hi, hk⟩ hv
  rw [answer?_of_getElem? hi] at hv
  rw [getElem?_start] at hi
  split at hi
  -- The new inquiry has no answer.
  · obtain rfl := Option.some.inj hi
    cases hv
  · exact h q k v ⟨i, hi, hk⟩ ((answer?_of_getElem? hi).trans hv)

theorem within_complete (l : Ledger) (q : InquiryId) (v : Option Punishment) : l.Within (l.complete q v) := by
  rintro q' k ⟨i, hi, hk⟩
  rw [Asks, inquiries_complete, hi]
  split
  · exact ⟨_, rfl, hk⟩
  · exact ⟨i, rfl, hk⟩

theorem Sound.complete (h : l.Sound) (hv : ∀ key, l.Asks q key → ∀ p ∈ v, p.Mutes key) :
    (l.complete q v).Sound := by
  rintro q' k v' ⟨i, hi, hk⟩ hv'
  rw [answer?_of_getElem? hi] at hv'
  rw [inquiries_complete] at hi
  split at hi
  · next hq =>
    subst hq
    obtain ⟨j, hj, rfl⟩ := Option.map_eq_some_iff.1 hi
    have hasks : l.Asks q k := ⟨j, hj, hk⟩
    -- An answer that was there stays, and the new one is given where there was none.
    cases hanswer : j.answer with
    | none =>
      simp only [hanswer, Option.getD_none, Option.some.injEq] at hv'
      exact hv' ▸ hv k hasks
    | some v'' =>
      simp only [hanswer, Option.getD_some, Option.some.injEq] at hv'
      exact hv' ▸ h q k v'' hasks ((answer?_of_getElem? hj).trans hanswer)
  · exact h q' k v' ⟨i, hi, hk⟩ ((answer?_of_getElem? hi).trans hv')

/-- An inquiry is about one visitor. -/
theorem Asks.unique {key' : Visitor} (h : l.Asks q key) (h' : l.Asks q key') : key = key' := by
  obtain ⟨i, hi, rfl⟩ := h
  obtain ⟨j, hj, rfl⟩ := h'
  obtain rfl := Option.some.inj (hi.symm.trans hj)
  rfl

theorem sound_foldl_complete {store : Visitor → Option Punishment} (hstore : ∀ key, ∀ p ∈ store key, p.Mutes key)
    (asked : List (InquiryId × Visitor)) {l : Ledger} (h : l.Sound) (hasked : ∀ a ∈ asked, l.Asks a.1 a.2) :
    (asked.foldl (fun l a => l.complete a.1 (store a.2)) l).Sound ∧
      l.Within (asked.foldl (fun l a => l.complete a.1 (store a.2)) l) := by
  induction asked generalizing l with
  | nil => exact ⟨h, .refl l⟩
  | cons a asked ih =>
    have hwithin := l.within_complete a.1 (store a.2)
    have hsound : (l.complete a.1 (store a.2)).Sound := h.complete fun key hkey => by
      obtain rfl := hkey.unique (hasked a List.mem_cons_self)
      exact hstore a.2
    obtain ⟨hall, hwithin'⟩ := ih hsound fun b hb => hwithin b.1 b.2 (hasked b (List.mem_cons_of_mem _ hb))
    exact ⟨hall, hwithin.trans hwithin'⟩

theorem sound_completeFirst {store : Visitor → Option Punishment} (hstore : ∀ key, ∀ p ∈ store key, p.Mutes key)
    (n : Nat) (h : l.Sound) : (l.completeFirst store n).Sound ∧ l.Within (l.completeFirst store n) := by
  refine sound_foldl_complete hstore _ h fun a ha => ?_
  obtain ⟨i, hi, -, hkey⟩ := mem_pending.1 (List.mem_of_mem_take ha)
  exact ⟨i, hi, hkey⟩

end Ledger

/-- What a call about a visitor waits for is about that visitor, and it wants no mute that is over at `second`. -/
def Waiting.About (l : Ledger) (key : Visitor) (second : Seconds) : Waiting → Prop
  | handle q s => l.Asks q key ∧ s = some second
  | reading q k _ s _ => l.Asks q key ∧ k = key ∧ s = second

/-- A call about a visitor answers with a mute of the visitor that is not over at `second`, or waits for one. -/
def Reply.Sound (l : Ledger) (key : Visitor) (second : Seconds) : Reply → Prop
  | value v => ∀ p ∈ v, p.Mutes key ∧ ¬p.ExpiredAt second
  | later w => w.About l key second

theorem Reply.Sound.mono {l l' : Ledger} (h : l.Within l') {key : Visitor} {second : Seconds} {r : Reply}
    (hr : r.Sound l key second) : r.Sound l' key second := by
  rcases r with v | ⟨q, s⟩ | ⟨q, k, e, s, n⟩
  · exact hr
  · exact ⟨h _ _ hr.1, hr.2⟩
  · exact ⟨h _ _ hr.1, hr.2⟩

theorem mem_unexpired {second : Seconds} {v : Option Punishment} {p : Punishment} :
    p ∈ unexpired second v ↔ p ∈ v ∧ ¬p.ExpiredAt second := by
  simp only [unexpired, Option.mem_def, Option.filter_eq_some_iff, Bool.not_eq_true', decide_eq_false_iff_not]

/-- The store's answers are sound, and so is every entry, by a criterion `S` for the entries of a visitor. -/
structure Kept {ε : Type} (S : Ledger → Visitor → ε → Prop) (l : Ledger) (entries : Table Visitor ε) : Prop where
  ledger : l.Sound
  entries : ∀ key, ∀ e ∈ entries.get? key, S l key e

namespace Kept

variable {ε : Type} {S : Ledger → Visitor → ε → Prop} {l l' : Ledger} {t : Table Visitor ε} {key : Visitor} {e : ε}

theorem empty : Kept S {} ∅ where
  ledger := Ledger.sound_empty
  entries _ _ he := by cases he

/-- Inquiries are made or answered. -/
theorem mono (h : Kept S l t) (hl : l'.Sound) (hS : ∀ key e, S l key e → S l' key e) : Kept S l' t where
  ledger := hl
  entries key e he := hS key e (h.entries key e he)

theorem insert (h : Kept S l t) (he : S l key e) : Kept S l (t.insert key e) where
  ledger := h.ledger
  entries k e' he' := by
    rw [Option.mem_def, Table.get?_insert] at he'
    split at he'
    · next hk =>
      obtain rfl := Option.some.inj he'
      exact hk ▸ he
    · exact h.entries k e' he'

theorem filter (h : Kept S l t) (keep : Visitor → ε → Bool) : Kept S l (t.filter keep) where
  ledger := h.ledger
  entries k e he := by
    rw [Option.mem_def, Table.get?_filter, Option.filter_eq_some_iff] at he
    exact h.entries k e he.1

end Kept

/-! ## Caches that always have an answer -/

namespace AlwaysAvailable

namespace Entry

/-- The entry holds a mute of the visitor, and waits for an answer about the visitor. -/
structure Sound (l : Ledger) (key : Visitor) (e : Entry) : Prop where
  current : ∀ p ∈ e.current, p.Mutes key
  next : ∀ q ∈ e.next, l.Asks q key

variable {l l' : Ledger} {key : Visitor} {e : Entry}

theorem Sound.mono (h : e.Sound l key) (hl : l.Within l') : e.Sound l' key where
  current := h.current
  next q hq := hl q key (h.next q hq)

theorem Sound.fold (h : e.Sound l key) (hl : l.Sound) : (e.fold l).Sound l key := by
  unfold Entry.fold
  split
  · next v hv =>
    obtain ⟨q, hq, hanswer⟩ := Option.bind_eq_some_iff.1 hv
    exact ⟨hl q key v (h.next q hq) hanswer, by simp⟩
  · exact h

theorem Sound.merge (h : e.Sound l key) (hl : l.Sound) {p : Punishment} (hp : p.Mutes key) :
    (e.merge l p).Sound l key := by
  have hfold := h.fold hl
  unfold Entry.merge
  dsimp only
  split
  · exact hfold
  · refine ⟨?_, hfold.next⟩
    rintro r hr
    obtain rfl := Option.some.inj hr
    exact Punishment.mutes_later hfold.current hp

theorem Sound.clear (h : e.Sound l key) (match? : Punishment → Bool) : (e.clear match?).Sound l key := by
  unfold Entry.clear
  split
  · exact ⟨by simp, h.next⟩
  · exact h

end Entry

/-- Every mute in the cache is kept for a visitor whom it covers. -/
def Sound (c : AlwaysAvailable) : Prop := Kept Entry.Sound c.ledger c.entries

variable {c : AlwaysAvailable} {now : Moment} {key : Visitor}

theorem Sound.mono (h : c.Sound) {l : Ledger} (hl : l.Sound) (hwithin : c.ledger.Within l) :
    Kept Entry.Sound l c.entries :=
  Kept.mono h hl fun _ _ he => he.mono hwithin

theorem sound_refreshIfDue (h : c.Sound) {e : Entry} (he : e.Sound c.ledger key) (now : Moment) :
    (c.refreshIfDue now key e).1.Sound (c.refreshIfDue now key e).2 key ∧
      (c.refreshIfDue now key e).2.Sound ∧ c.ledger.Within (c.refreshIfDue now key e).2 := by
  unfold refreshIfDue
  split
  · refine ⟨⟨he.current, ?_⟩, h.ledger.start key .entry, c.ledger.within_start key .entry⟩
    rintro q hq
    obtain rfl := Option.some.inj hq
    exact c.ledger.asks_start key .entry
  · exact ⟨he, h.ledger, .refl _⟩

theorem sound_get (h : c.Sound) (now : Moment) (key : Visitor) :
    (c.get now key).2.Sound ∧ c.ledger.Within (c.get now key).2.ledger ∧
      (c.get now key).1.Sound (c.get now key).2.ledger key now.second := by
  unfold get
  split
  · next e he =>
    obtain ⟨hentry, hledger, hwithin⟩ := sound_refreshIfDue h ((h.entries key e he).fold h.ledger) now
    refine ⟨(h.mono hledger hwithin).insert hentry, hwithin, fun p hp => ?_⟩
    obtain ⟨hp, hlive⟩ := mem_unexpired.1 hp
    exact ⟨hentry.current p hp, hlive⟩
  · have hwithin := c.ledger.within_start key .caller
    exact ⟨h.mono (h.ledger.start key .caller) hwithin, hwithin, c.ledger.asks_start key .caller, rfl⟩

theorem sound_login (h : c.Sound) (now : Moment) (key : Visitor) :
    (c.login now key).2.Sound ∧ c.ledger.Within (c.login now key).2.ledger := by
  unfold login
  split
  · next e he =>
    obtain ⟨hentry, hledger, hwithin⟩ := sound_refreshIfDue h ((h.entries key e he).fold h.ledger) now
    exact ⟨(h.mono hledger hwithin).insert hentry, hwithin⟩
  · have hentry : ({ id := c.nextId, current := none, refreshed := now.steady, next := some c.ledger.size } :
        Entry).Sound (c.ledger.start key .entry).2 key := by
      refine ⟨by simp, ?_⟩
      rintro q hq
      obtain rfl := Option.some.inj hq
      exact c.ledger.asks_start key .entry
    have hwithin := c.ledger.within_start key .entry
    exact ⟨(h.mono (h.ledger.start key .entry) hwithin).insert hentry, hwithin⟩

theorem sound_record (h : c.Sound) (p : Punishment) : (c.record p).Sound := by
  refine ⟨by simpa using h.ledger, fun k e he => ?_⟩
  rw [ledger_record]
  rw [Option.mem_def, get?_record] at he
  obtain ⟨e', he', rfl⟩ := Option.map_eq_some_iff.1 he
  split
  · next hp => exact (h.entries k e' he').merge h.ledger hp
  · exact h.entries k e' he'

theorem sound_clearWhere (h : c.Sound) (match? : Punishment → Bool) : (c.clearWhere match?).2.Sound := by
  refine ⟨h.ledger, fun k e he => ?_⟩
  simp only [clearWhere, Table.get?_mapRows, Option.mem_def, Option.map_eq_some_iff] at he
  obtain ⟨_, ⟨e', he', rfl⟩, rfl⟩ := he
  exact ((h.entries k e' he').fold h.ledger).clear match?

theorem sound_purge (h : c.Sound) (now : Moment) (online : Uuid → Bool) : (c.purge now online).2.Sound := by
  dsimp only [purge, Sound]
  exact Kept.filter h _

theorem sound_complete (h : c.Sound) {q : InquiryId} {v : Option Punishment}
    (hv : ∀ key, c.ledger.Asks q key → ∀ p ∈ v, p.Mutes key) : (c.complete q v).Sound :=
  h.mono (h.ledger.complete hv) (c.ledger.within_complete q v)

theorem sound_resume (h : c.Sound) {w : Waiting} {second : Seconds} (hw : w.About c.ledger key second) :
    (c.resume w).Sound c.ledger key second := by
  rcases w with ⟨q, s⟩ | ⟨q, k, e, s, n⟩
  · obtain ⟨hasks, rfl⟩ := hw
    simp only [resume]
    split
    · next v hv =>
      intro p hp
      obtain ⟨hp, hlive⟩ := mem_unexpired.1 hp
      exact ⟨h.ledger q key v hasks hv p hp, hlive⟩
    · exact ⟨hasks, rfl⟩
  · exact hw

end AlwaysAvailable

/-! ## Caches that ask on demand -/

namespace OnDemand

/-- What is known is a mute of the visitor, and what is asked is about the visitor. -/
def Source.Sound (l : Ledger) (key : Visitor) : Source → Prop
  | asked q => l.Asks q key
  | known v => ∀ p ∈ v, p.Mutes key

namespace Entry

variable {l l' : Ledger} {key : Visitor} {e : Entry}

def Sound (l : Ledger) (key : Visitor) (e : Entry) : Prop := e.source.Sound l key

theorem Sound.mono (h : e.Sound l key) (hl : l.Within l') : e.Sound l' key := by
  unfold Sound Source.Sound at *
  cases hs : e.source with
  | asked q =>
    rw [hs] at h
    exact hl q key h
  | known v =>
    rw [hs] at h
    exact h

theorem Sound.mutes (h : e.Sound l key) (hl : l.Sound) {v : Option Punishment} (hv : e.value? l = some v) :
    ∀ p ∈ v, p.Mutes key := by
  unfold Sound Source.Sound at h
  unfold value? Source.value? at hv
  cases hs : e.source with
  | asked q =>
    rw [hs] at h hv
    exact hl q key v h hv
  | known v' =>
    rw [hs] at h hv
    exact Option.some.inj hv ▸ h

theorem Sound.merge (h : e.Sound l key) (hl : l.Sound) (now : Timestamp) {p : Punishment} (hp : p.Mutes key)
    (nextId : Nat) : (e.merge l now p nextId).1.Sound l key := by
  unfold Entry.merge
  split
  · exact h
  · next held hheld =>
    dsimp only
    split
    · exact h
    · rintro r hr
      obtain rfl := Option.some.inj hr
      exact Punishment.mutes_later (h.mutes hl hheld) hp

theorem Sound.clear (h : e.Sound l key) (now : Timestamp) (match? : Punishment → Bool) (nextId : Nat) :
    (e.clear l now match? nextId).1.Sound l key := by
  rcases e.clear_cases l now match? nextId with hsame | hnew
  · rwa [hsame]
  · rw [hnew]
    rintro p hp
    cases hp

end Entry

/-- Every mute in the cache is kept for a visitor whom it covers. -/
def Sound (c : OnDemand) : Prop := Kept Entry.Sound c.ledger c.entries

variable {c : OnDemand} {key : Visitor}

theorem Sound.mono (h : c.Sound) {l : Ledger} (hl : l.Sound) (hwithin : c.ledger.Within l) :
    Kept Entry.Sound l c.entries :=
  Kept.mono h hl fun _ _ he => he.mono hwithin

theorem sound_ask (h : c.Sound) (now : Timestamp) (key : Visitor) :
    (c.ask now key).2.Sound ∧ c.ledger.Within (c.ask now key).2.ledger ∧
      (c.ask now key).1.Sound (c.ask now key).2.ledger key := by
  have hwithin := c.ledger.within_start key .entry
  have hentry : (c.ask now key).1.Sound (c.ledger.start key .entry).2 key := c.ledger.asks_start key .entry
  exact ⟨(h.mono (h.ledger.start key .entry) hwithin).insert hentry, hwithin, hentry⟩

theorem sound_load (h : c.Sound) (now : Timestamp) (key : Visitor) :
    (c.load now key).2.Sound ∧ c.ledger.Within (c.load now key).2.ledger ∧
      (c.load now key).1.Sound (c.load now key).2.ledger key := by
  unfold load
  split
  · next e he =>
    split
    · exact sound_ask h now key
    · have hentry : ({ e with accessed := now } : Entry).Sound c.ledger key := h.entries key e he
      exact ⟨Kept.insert h hentry, .refl _, hentry⟩
  · exact sound_ask h now key

theorem sound_dropEntry (h : c.Sound) (key : Visitor) (id : Nat) : (c.dropEntry key id).Sound := by
  dsimp only [dropEntry, Sound]
  exact Kept.filter h _

theorem sound_read (now : Timestamp) (key : Visitor) (second : Seconds) (tries : Nat) {c : OnDemand}
    (h : c.Sound) :
    (c.read now key second tries).2.Sound ∧ c.ledger.Within (c.read now key second tries).2.ledger ∧
      (c.read now key second tries).1.Sound (c.read now key second tries).2.ledger key second := by
  induction tries generalizing c with
  | zero => exact ⟨h, .refl _, by simp [read, Reply.Sound]⟩
  | succ tries ih =>
    obtain ⟨hc, hwithin, he⟩ := sound_load h now key
    unfold read
    rcases hload : c.load now key with ⟨e, c'⟩
    rw [hload] at hc hwithin he
    dsimp only at hc hwithin he ⊢
    split
    -- The store has not answered yet.
    · next q hsource hv =>
      rw [Entry.Sound, hsource] at he
      exact ⟨hc, hwithin, he, rfl, rfl⟩
    · split
      -- The value is over: it is dropped, and read again.
      · obtain ⟨hsound, hwithin', hreply⟩ := ih (sound_dropEntry hc key e.id)
        exact ⟨hsound, hwithin.trans hwithin', hreply⟩
      · next hlive =>
        refine ⟨hc, hwithin, fun p hp => ?_⟩
        exact ⟨he.mutes hc.ledger (Option.join_eq_some_iff.1 hp) p rfl, fun hover => hlive ⟨p, hp, hover⟩⟩

theorem sound_resume (h : c.Sound) (now : Timestamp) (w : Waiting) :
    (c.resume now w).2.Sound ∧ c.ledger.Within (c.resume now w).2.ledger ∧
      ∀ key second, w.About c.ledger key second →
        (c.resume now w).1.Sound (c.resume now w).2.ledger key second := by
  rcases w with ⟨q, s⟩ | ⟨q, k, e, s, n⟩
  · exact ⟨h, .refl _, fun _ _ hw => hw⟩
  · simp only [resume]
    split
    · exact ⟨h, .refl _, fun _ _ hw => hw⟩
    · next v hv =>
      split
      · obtain ⟨hsound, hwithin, hreply⟩ := sound_read now k s n (sound_dropEntry h k e)
        refine ⟨hsound, hwithin, ?_⟩
        rintro key second ⟨-, rfl, rfl⟩
        exact hreply
      · next hlive =>
        refine ⟨h, .refl _, ?_⟩
        rintro key second ⟨hasks, rfl, rfl⟩ p hp
        exact ⟨h.ledger q k v hasks hv p hp, fun hover => hlive ⟨p, hp, hover⟩⟩

theorem sound_login (h : c.Sound) (key : Visitor) : (c.login key).Sound := by
  dsimp only [login, Sound]
  exact Kept.filter h _

theorem sound_record (h : c.Sound) (now : Timestamp) (p : Punishment) : (c.record now p).Sound := by
  refine ⟨by simpa using h.ledger, fun k e he => ?_⟩
  obtain ⟨id, hid⟩ := c.exists_get?_record now p k
  rw [Option.mem_def, hid] at he
  obtain ⟨e', he', rfl⟩ := Option.map_eq_some_iff.1 he
  rw [ledger_record]
  split
  · next hp => exact (h.entries k e' he').merge h.ledger now hp id
  · exact h.entries k e' he'

theorem sound_clearWhere (h : c.Sound) (now : Timestamp) (match? : Punishment → Bool) :
    (c.clearWhere now match?).2.Sound := by
  refine ⟨h.ledger, fun k e he => ?_⟩
  obtain ⟨id, hid⟩ := c.exists_get?_clearWhere now match? k
  rw [Option.mem_def, hid] at he
  obtain ⟨e', he', rfl⟩ := Option.map_eq_some_iff.1 he
  exact (h.entries k e' he').clear now match? id

theorem sound_evict (h : c.Sound) (now : Timestamp) : (c.evict now).2.Sound := by
  dsimp only [evict, Sound]
  exact Kept.filter h _

theorem sound_complete (h : c.Sound) {q : InquiryId} {v : Option Punishment}
    (hv : ∀ key, c.ledger.Asks q key → ∀ p ∈ v, p.Mutes key) : (c.complete q v).Sound :=
  h.mono (h.ledger.complete hv) (c.ledger.within_complete q v)

end OnDemand

/-! ## Both kinds of cache -/

namespace Cache

/-- Every mute in the cache is kept for a visitor whom it covers. -/
def Sound : Cache → Prop
  | alwaysAvailable c => c.Sound
  | onDemand c => c.Sound

variable {c : Cache} {key : Visitor}

theorem sound_ofConfig (config : Config) : (ofConfig config).Sound := by
  unfold ofConfig
  split <;> exact Kept.empty

theorem Sound.ledger (h : c.Sound) : c.ledger.Sound := by
  cases c <;> exact Kept.ledger h

theorem sound_get (h : c.Sound) (now : Moment) (key : Visitor) :
    (c.get now key).2.Sound ∧ c.ledger.Within (c.get now key).2.ledger ∧
      (c.get now key).1.Sound (c.get now key).2.ledger key now.second := by
  cases c with
  | alwaysAvailable c => exact AlwaysAvailable.sound_get h now key
  | onDemand c => exact OnDemand.sound_read now.steady key now.second 2 h

theorem sound_resume (h : c.Sound) (now : Moment) (w : Waiting) :
    (c.resume now w).2.Sound ∧ c.ledger.Within (c.resume now w).2.ledger ∧
      ∀ key second, w.About c.ledger key second →
        (c.resume now w).1.Sound (c.resume now w).2.ledger key second := by
  cases c with
  | alwaysAvailable c => exact ⟨h, .refl _, fun _ _ hw => AlwaysAvailable.sound_resume h hw⟩
  | onDemand c => exact OnDemand.sound_resume h now.steady w

theorem sound_login (h : c.Sound) (now : Moment) (key : Visitor) :
    (c.login now key).2.Sound ∧ c.ledger.Within (c.login now key).2.ledger := by
  cases c with
  | alwaysAvailable c => exact AlwaysAvailable.sound_login h now key
  | onDemand c => exact ⟨OnDemand.sound_login h key, .refl _⟩

theorem sound_record (h : c.Sound) (now : Moment) (p : Punishment) : (c.record now p).Sound := by
  cases c with
  | alwaysAvailable c => exact AlwaysAvailable.sound_record h p
  | onDemand c => exact OnDemand.sound_record h now.steady p

theorem sound_clearWhere (h : c.Sound) (now : Moment) (match? : Punishment → Bool) :
    (c.clearWhere now match?).2.Sound := by
  cases c with
  | alwaysAvailable c => exact AlwaysAvailable.sound_clearWhere h match?
  | onDemand c => exact OnDemand.sound_clearWhere h now.steady match?

theorem Sound.edited (h : c.Sound) {c' : Cache} (hedited : c.Edited c') : c'.Sound := by
  induction hedited with
  | refl => exact h
  | tail _ hedit ih =>
    cases hedit with
    | record now p => exact sound_record ih now p
    | clearWhere now match? => exact sound_clearWhere ih now match?

theorem sound_sweep (h : c.Sound) (now : Moment) (online : Uuid → Bool) : (c.sweep now online).2.Sound := by
  cases c with
  | alwaysAvailable c => exact AlwaysAvailable.sound_purge h now online
  | onDemand c => exact OnDemand.sound_evict h now.steady

@[simp] theorem ledger_sweep (c : Cache) (now : Moment) (online : Uuid → Bool) :
    (c.sweep now online).2.ledger = c.ledger := by
  cases c <;> rfl

/-- The store answers an inquiry with a mute of the visitor who is asked about. -/
theorem sound_complete (h : c.Sound) {q : InquiryId} {v : Option Punishment}
    (hv : ∀ key, c.ledger.Asks q key → ∀ p ∈ v, p.Mutes key) :
    (c.complete q v).Sound ∧ c.ledger.Within (c.complete q v).ledger := by
  cases c with
  | alwaysAvailable c => exact ⟨AlwaysAvailable.sound_complete h hv, c.ledger.within_complete q v⟩
  | onDemand c => exact ⟨OnDemand.sound_complete h hv, c.ledger.within_complete q v⟩

/-! ### Stores that answer at once -/

variable {store : Visitor → Option Punishment}

theorem sound_completeAll (hstore : ∀ key, ∀ p ∈ store key, p.Mutes key) (h : c.Sound) :
    (c.completeAll store).Sound ∧ c.ledger.Within (c.completeAll store).ledger := by
  cases c with
  | alwaysAvailable c =>
    obtain ⟨hsound, hwithin⟩ := Ledger.sound_completeFirst hstore c.ledger.pending.length (Kept.ledger h)
    exact ⟨AlwaysAvailable.Sound.mono h hsound hwithin, hwithin⟩
  | onDemand c =>
    obtain ⟨hsound, hwithin⟩ := Ledger.sound_completeFirst hstore c.ledger.pending.length (Kept.ledger h)
    exact ⟨OnDemand.Sound.mono h hsound hwithin, hwithin⟩

/-- A call that is brought to its end leaves the cache sound, and a look-up answers with a mute of the visitor. -/
theorem sound_finish (hstore : ∀ key, ∀ p ∈ store key, p.Mutes key) (now : Moment) (again : Nat) {c : Cache}
    (h : c.Sound) (reply : Reply) :
    (finish now store again reply c).2.Sound ∧ c.ledger.Within (finish now store again reply c).2.ledger ∧
      ∀ key second, reply.Sound c.ledger key second →
        ∀ p ∈ (finish now store again reply c).1, p.Mutes key ∧ ¬p.ExpiredAt second := by
  induction again generalizing c reply with
  | zero =>
    cases reply with
    | value v =>
      obtain ⟨hsound, hwithin⟩ := sound_completeAll hstore h
      exact ⟨hsound, hwithin, fun _ _ hv => hv⟩
    | later w => exact ⟨h, .refl _, by simp [finish]⟩
  | succ again ih =>
    obtain ⟨hsound, hwithin⟩ := sound_completeAll hstore h
    cases reply with
    | value v => exact ⟨hsound, hwithin, fun _ _ hv => hv⟩
    | later w =>
      obtain ⟨hsound', hwithin', hreply⟩ := sound_resume hsound now w
      obtain ⟨hend, hwithin'', hanswer⟩ := ih hsound' ((c.completeAll store).resume now w).1
      refine ⟨hend, (hwithin.trans hwithin').trans hwithin'', fun key second hw => ?_⟩
      exact hanswer key second (hreply key second (Reply.Sound.mono hwithin hw))

theorem sound_consult (hstore : ∀ key, ∀ p ∈ store key, p.Mutes key) (h : c.Sound) (now : Moment)
    (key : Visitor) :
    (c.consult now store key).2.Sound ∧ c.ledger.Within (c.consult now store key).2.ledger ∧
      ∀ p ∈ (c.consult now store key).1, p.Mutes key ∧ ¬p.ExpiredAt now.second := by
  obtain ⟨hsound, hwithin, hreply⟩ := sound_get h now key
  obtain ⟨hend, hwithin', hanswer⟩ := sound_finish hstore now maxWaits hsound (c.get now key).1
  exact ⟨hend, hwithin.trans hwithin', hanswer key now.second hreply⟩

theorem sound_welcome (hstore : ∀ key, ∀ p ∈ store key, p.Mutes key) (h : c.Sound) (now : Moment)
    (key : Visitor) :
    (c.welcome now store key).2.Sound ∧ c.ledger.Within (c.welcome now store key).2.ledger := by
  obtain ⟨hsound, hwithin⟩ := sound_login h now key
  unfold welcome
  rcases hlogin : c.login now key with ⟨_ | reply, c'⟩ <;> rw [hlogin] at hsound hwithin
  · exact ⟨hsound, hwithin⟩
  · obtain ⟨hend, hwithin', -⟩ := sound_finish hstore now maxWaits hsound reply
    exact ⟨hend, hwithin.trans hwithin'⟩

end Cache

end Mute

end Moderation
