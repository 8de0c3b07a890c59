import Mathlib.Data.List.Basic
import Moderation.Proofs.Bus.Looking
/-!
# Listeners of a bus

A listener is a subscription and what has happened since it was made: the frames published, how many there were when
it passed each of them, and what it was given. This says what became of each frame that was passed (`Listener.fates`).
Whatever is published and however the bus is read, a listener stays `Sound`, and so delivery to it is `Exact`.
-/

namespace Moderation

/-- A way to read a bus. -/
inductive Manner where
  | look | receive | drain
deriving DecidableEq

/-- Reads the bus, which gives frames and the subscription from then on. -/
def Subscription.read (s : Subscription) (b : Bus) : Manner → List Frame × Subscription
  | .look => ((match (s.look b).1 with | .frame f => if s.Matches f then [f] else [] | _ => []), (s.look b).2)
  | .receive => (received (s.receive b).1, (s.receive b).2)
  | .drain => s.drain b

/-- What became of a frame that was passed. -/
inductive Fate where
  | returned
  /-- It is of no interest. -/
  | filtered
  /-- It was not retained any more. -/
  | lost
deriving DecidableEq

structure Listener where
  subscription : Subscription
  /-- The frames published since it subscribed, oldest first. -/
  news : List Frame := []
  /-- How many there were when the first of them was passed, when the second was, and so on. -/
  reached : List Nat := []
  /-- The frames that it was given, in the order in which it was. -/
  returned : List Frame := []

namespace Listener

/-- The frames that it has not passed yet. -/
def ahead (l : Listener) : List Frame := l.news.drop l.reached.length

def hear (l : Listener) (f : Frame) : Listener := { l with news := l.news ++ [f] }

def read (l : Listener) (b : Bus) (m : Manner) : Listener :=
  let s := (l.subscription.read b m).2
  { l with
    subscription := s
    reached := l.reached ++ List.replicate (s.next - l.subscription.next) l.news.length
    returned := l.returned ++ (l.subscription.read b m).1 }

/-- What becomes of number `k` of the news when it is passed and there are `n` of them, if so many are retained. -/
def fate (l : Listener) (retained k : Nat) (f : Frame) (n : Nat) : Fate :=
  if k + retained < n then .lost else if l.subscription.Matches f then .returned else .filtered

/-- The frames that it has passed, and what became of them. -/
def fates (l : Listener) (retained : Nat) : List (Frame × Fate) :=
  (l.news.zip l.reached).mapIdx fun k x => (x.1, l.fate retained k x.1 x.2)

/-- The frames of this fate. -/
def met (l : Listener) (retained : Nat) (fate : Fate) : List Frame :=
  ((l.fates retained).filter fun x => x.2 = fate).map Prod.fst

/-- The listener knows its place on the bus: the news are the last frames there. It has been given what it should, and
has counted what it has lost. -/
structure Sound (b : Bus) (l : Listener) : Prop where
  place : ∃ old, b.frames.toList = old ++ l.news ∧ l.subscription.next = old.length + l.reached.length
  inside : l.reached.length ≤ l.news.length
  returned : l.returned = l.met b.retained .returned
  lagged : l.subscription.lagged = (l.met b.retained .lost).length

/-- Delivery to the listener is exact. -/
structure Exact (b : Bus) (l : Listener) : Prop where
  /-- It was given, in order and each once, the frames of interest that it passed while they were retained. -/
  returned : l.returned = l.met b.retained .returned
  /-- It has counted those that were not. -/
  lagged : l.subscription.lagged = (l.met b.retained .lost).length
  /-- Each frame published since it subscribed was returned, is of no interest, was counted as lost, or is ahead. -/
  accounted : l.news.length =
    l.returned.length + (l.met b.retained .filtered).length + l.subscription.lagged + l.ahead.length
  unread : l.subscription.unread b = l.ahead
  drained : (l.read b .drain).ahead = [] ∧ (l.subscription.drain b).2.unread b = []
  /-- Receiving comes to an end, with what is received. -/
  receives : Subscription.receiveAmid (List.replicate (l.ahead.length + 1) b) l.subscription =
    some (l.subscription.receive b)
  /-- It comes to an end also while others publish in between. -/
  ends : ∀ buses ≠ [], (∀ b' ∈ buses, b'.frames.size - l.subscription.next < buses.length) →
    (Subscription.receiveAmid buses l.subscription).isSome
  drains : Subscription.drainWithin b (l.ahead.length + 1) l.subscription = some (l.subscription.drain b)

end Listener

theorem Subscription.reads_read {s : Subscription} {b : Bus} (hinside : s.next ≤ b.frames.size) (m : Manner) :
    Reads b s (s.read b m).2 (s.read b m).1 := by
  cases m with
  | look => exact reads_look hinside
  | receive => exact reads_receive hinside
  | drain => exact reads_drain hinside

namespace Listener

variable {b : Bus} {l : Listener}

/-- What becomes of frames that are passed at once: the first of them are lost. -/
theorem mapIdx_fate (frames : List Frame) (n d : Nat) (s : Subscription) :
    ((frames.map fun f => (f, n)).mapIdx fun k x =>
      (x.1, if k < d then Fate.lost else if s.Matches x.1 then .returned else .filtered)) =
      (frames.take d).map (fun f => (f, .lost)) ++
        (frames.drop d).map fun f => (f, if s.Matches f then .returned else .filtered) := by
  induction frames generalizing d with
  | nil => simp
  | cons f rest ih =>
    cases d with
    | zero => simpa [List.mapIdx_cons] using ih 0
    | succ d => simpa [List.mapIdx_cons] using ih d

theorem zip_append_replicate (news : List Frame) (reached : List Nat) (c n : Nat) :
    news.zip (reached ++ List.replicate c n) =
      news.zip reached ++ ((news.drop reached.length).take c).map fun f => (f, n) := by
  induction reached generalizing news with
  | nil =>
    induction c generalizing news with
    | zero => simp
    | succ c ih => cases news <;> simp_all [List.replicate_succ]
  | cons k reached ih => cases news <;> simp [ih]

/-- The frames that are passed by reading the bus. -/
def passing (l : Listener) (b : Bus) (m : Manner) : List Frame :=
  l.ahead.take ((l.subscription.read b m).2.next - l.subscription.next)

namespace Sound

theorem next_le (h : l.Sound b) : l.subscription.next ≤ b.frames.size := by
  obtain ⟨old, hframes, hplace⟩ := h.place
  rw [hplace, ← Array.length_toList, hframes, List.length_append]
  exact Nat.add_le_add_left h.inside _

theorem unread (h : l.Sound b) : l.subscription.unread b = l.ahead := by
  obtain ⟨old, hframes, hplace⟩ := h.place
  rw [Subscription.unread, hframes, hplace, List.drop_append]
  simp [ahead]

theorem reads (h : l.Sound b) (m : Manner) :
    Subscription.Reads b l.subscription (l.subscription.read b m).2 (l.subscription.read b m).1 :=
  Subscription.reads_read h.next_le m

/-- Of the frames ahead, those that exceed what the bus retains are lost. -/
theorem dropped_sub_next (h : l.Sound b) : b.dropped - l.subscription.next = l.ahead.length - b.retained := by
  obtain ⟨old, hframes, hplace⟩ := h.place
  have hsize : b.frames.size = old.length + l.news.length := by
    rw [← Array.length_toList, hframes, List.length_append]
  simp only [Bus.dropped, hplace, hsize, ahead, List.length_drop]
  omega

/-- To read is to pass frames at once. -/
theorem fates_read (h : l.Sound b) (m : Manner) :
    (l.read b m).fates b.retained = l.fates b.retained ++
      ((l.passing b m).take (l.ahead.length - b.retained)).map (fun f => (f, .lost)) ++
      ((l.passing b m).drop (l.ahead.length - b.retained)).map fun f =>
        (f, if l.subscription.Matches f then .returned else .filtered) := by
  have hpassed : (l.news.zip l.reached).length = l.reached.length := by
    rw [List.length_zip, Nat.min_eq_right h.inside]
  have hfate : ∀ k f, (l.read b m).fate b.retained k f = l.fate b.retained k f := by
    intro k f
    funext n
    have hinterest : (l.read b m).subscription.Matches f ↔ l.subscription.Matches f := by
      simp only [read, Subscription.Matches, (h.reads m).channels]
    simp only [fate, hinterest]
  have hlost : ∀ k, k + l.reached.length + b.retained < l.news.length ↔ k < l.ahead.length - b.retained := by
    intro k
    rw [ahead, List.length_drop]
    omega
  rw [List.append_assoc, ← mapIdx_fate _ l.news.length]
  simp only [fates, hfate]
  rw [read, zip_append_replicate, List.mapIdx_append, hpassed]
  refine congrArg _ (List.mapIdx_eq_mapIdx_iff.2 fun k hk => ?_)
  have hnow : (((l.news.drop l.reached.length).take ((l.subscription.read b m).2.next - l.subscription.next)).map
    fun f => (f, l.news.length))[k].2 = l.news.length := by simp
  simp only [fate, hnow, hlost]

theorem out_read (h : l.Sound b) (m : Manner) : (l.subscription.read b m).1 =
    ((l.passing b m).drop (l.ahead.length - b.retained)).filter fun f => l.subscription.Matches f := by
  have hreads := h.reads m
  have hfrom : max l.subscription.next b.dropped = l.subscription.next + (l.ahead.length - b.retained) := by
    rw [← h.dropped_sub_next]
    omega
  -- Reading goes on from its place on the bus to a later one, and what lies between them is ahead.
  obtain ⟨c, hc⟩ := Nat.exists_eq_add_of_le hreads.le
  have hpassing : (b.frames.toList.take (l.subscription.next + c)).drop l.subscription.next = l.passing b m := by
    rw [passing, hc, Nat.add_sub_cancel_left, ← h.unread, Subscription.unread, List.drop_take, Nat.add_sub_cancel_left]
  rw [hreads.out, hc, hfrom, ← List.drop_drop, hpassing]

theorem lagged_read (h : l.Sound b) (m : Manner) :
    (l.read b m).subscription.lagged = l.subscription.lagged + (l.ahead.length - b.retained) := by
  rw [read, (h.reads m).lagged, h.dropped_sub_next]

/-- What is lost is passed. -/
theorem lost_le_passing (h : l.Sound b) (m : Manner) : l.ahead.length - b.retained ≤ (l.passing b m).length := by
  have hcaught := (h.reads m).caughtUp
  rw [← h.dropped_sub_next, passing, List.length_take, ← h.unread, Subscription.unread, List.length_drop,
    Array.length_toList]
  have hinside := (h.reads m).inside
  omega

theorem met_returned_read (h : l.Sound b) (m : Manner) :
    (l.read b m).met b.retained .returned = l.met b.retained .returned ++ (l.subscription.read b m).1 := by
  have hmatch : ∀ f, ((if l.subscription.Matches f then Fate.returned else .filtered) = .returned) ↔
      l.subscription.Matches f := by
    intro f
    split <;> simp_all
  rw [h.out_read m]
  simp only [met, h.fates_read m, List.filter_append, List.filter_map, List.map_append, List.map_map]
  simp [Function.comp_def, hmatch]

theorem met_lost_read (h : l.Sound b) (m : Manner) :
    (l.read b m).met b.retained .lost =
      l.met b.retained .lost ++ (l.passing b m).take (l.ahead.length - b.retained) := by
  have hkept : ∀ f, (if l.subscription.Matches f then Fate.returned else .filtered) ≠ .lost := by
    intro f
    split <;> simp
  simp only [met, h.fates_read m, List.filter_append, List.filter_map, List.map_append, List.map_map]
  simp [Function.comp_def, hkept]

theorem read (h : l.Sound b) (m : Manner) : (l.read b m).Sound b := by
  obtain ⟨old, hframes, hplace⟩ := h.place
  have hreads := h.reads m
  obtain ⟨c, hc⟩ := Nat.exists_eq_add_of_le hreads.le
  have hreached : (l.read b m).reached.length = l.reached.length + c := by
    simp only [Listener.read, List.length_append, List.length_replicate, hc, Nat.add_sub_cancel_left]
  have hsize : b.frames.size = old.length + l.news.length := by
    rw [← Array.length_toList, hframes, List.length_append]
  refine ⟨⟨old, hframes, ?_⟩, ?_, ?_, ?_⟩
  · rw [hreached, ← Nat.add_assoc, ← hplace, ← hc]
    rfl
  · have hinside := hreads.inside
    rw [hreached, show (l.read b m).news = l.news from rfl]
    omega
  · rw [h.met_returned_read, ← h.returned]
    rfl
  · rw [h.lagged_read, h.met_lost_read, h.lagged, List.length_append, List.length_take,
      Nat.min_eq_left (h.lost_le_passing m)]

/-- A frame that is published is one more ahead. -/
theorem hear (h : l.Sound b) (f : Frame) (hsub : b.subscribers ≠ 0) : (l.hear f).Sound (b.publish f).2 := by
  obtain ⟨old, hframes, hplace⟩ := h.place
  have hpublish : (b.publish f).2 = { b with frames := b.frames.push f, published := b.published + 1 } := by
    simp only [Bus.publish, if_neg hsub]
  have hmet : (l.hear f).met b.retained = l.met b.retained := by
    have hzip : (l.news ++ [f]).zip l.reached = l.news.zip l.reached := by
      have hle : l.reached.length ≤ (l.news ++ [f]).length := Nat.le_trans h.inside (by simp)
      refine List.zip_eq_zip_take_min.trans (Eq.trans ?_ List.zip_eq_zip_take_min.symm)
      rw [Nat.min_eq_right hle, Nat.min_eq_right h.inside, List.take_append_of_le_length h.inside]
    funext fate
    simp only [met, fates, Listener.hear, hzip]
    rfl
  rw [hpublish]
  refine ⟨⟨old, ?_, hplace⟩, ?_, h.returned.trans (hmet ▸ rfl), h.lagged.trans (hmet ▸ rfl)⟩
  · rw [Array.toList_push, hframes, List.append_assoc]
    rfl
  · exact Nat.le_trans h.inside (by simp [Listener.hear])

/-- Nothing that happens to the bus matters but what is published there. -/
theorem of_frames (h : l.Sound b) {b' : Bus} (hframes : b'.frames = b.frames) (hcapacity : b'.capacity = b.capacity) :
    l.Sound b' := by
  have hretained : b'.retained = b.retained := by rw [Bus.retained, hcapacity, Bus.retained]
  exact ⟨hframes ▸ h.place, h.inside, hretained ▸ h.returned, hretained ▸ h.lagged⟩

theorem length_fates (h : l.Sound b) : (l.fates b.retained).length = l.reached.length := by
  rw [fates, List.length_mapIdx, List.length_zip, Nat.min_eq_right h.inside]

theorem map_fst_fates (h : l.Sound b) : (l.fates b.retained).map Prod.fst = l.news.take l.reached.length := by
  refine List.ext_getElem ?_ fun k _ _ => by simp [fates]
  rw [List.length_map, h.length_fates, List.length_take, Nat.min_eq_left h.inside]

/-- Each frame published since it subscribed was returned, is of no interest, was counted as lost, or is ahead. -/
theorem accounted (h : l.Sound b) : l.news.length =
    l.returned.length + (l.met b.retained .filtered).length + l.subscription.lagged + l.ahead.length := by
  have hthree : ∀ xs : List (Frame × Fate), xs.length = (xs.filter fun x => x.2 = .returned).length +
      (xs.filter fun x => x.2 = .filtered).length + (xs.filter fun x => x.2 = .lost).length := by
    intro xs
    induction xs with
    | nil => rfl
    | cons x xs ih =>
      obtain ⟨f, fate⟩ := x
      cases fate <;> simp [ih] <;> omega
  have hpassed := hthree (l.fates b.retained)
  have hinside := h.inside
  rw [h.length_fates] at hpassed
  rw [h.returned, h.lagged, ahead, List.length_drop]
  simp only [met, List.length_map]
  omega

/-- A listener that has lost nothing was given everything of interest that it passed. -/
theorem returned_of_lossless (h : l.Sound b) (hlossless : l.subscription.lagged = 0) :
    l.returned = (l.news.take l.reached.length).filter fun f => l.subscription.Matches f := by
  have hnone : l.met b.retained .lost = [] := List.eq_nil_of_length_eq_zero (h.lagged.symm.trans hlossless)
  have hfates : ∀ x ∈ l.fates b.retained, (x.2 = .returned) ↔ l.subscription.Matches x.1 := by
    intro x hx
    have hkept : x.2 ≠ .lost := fun hlost => by
      have hmem : x.1 ∈ l.met b.retained .lost :=
        List.mem_map_of_mem (List.mem_filter.2 ⟨hx, decide_eq_true hlost⟩)
      rw [hnone] at hmem
      cases hmem
    obtain ⟨k, hk, rfl⟩ := List.mem_mapIdx.1 hx
    simp only [fate] at hkept ⊢
    split at hkept
    · exact absurd rfl hkept
    · next hretained =>
      simp only [if_neg hretained]
      split <;> simp_all
  rw [← h.map_fst_fates, List.filter_map, h.returned, met]
  refine congrArg _ (List.filter_congr fun x hx => ?_)
  exact decide_eq_decide.2 (hfates x hx)

theorem ahead_drain (h : l.Sound b) : (l.read b .drain).ahead = [] := by
  have hdrained := (h.read .drain).unread
  rw [← hdrained]
  exact List.drop_eq_nil_of_le (Nat.le_refl _)

theorem exact (h : l.Sound b) : l.Exact b := by
  have hahead : b.frames.size - l.subscription.next < l.ahead.length + 1 := by
    rw [← h.unread, Subscription.unread, List.length_drop, Array.length_toList]
    exact Nat.lt_succ_self _
  exact {
    returned := h.returned
    lagged := h.lagged
    accounted := h.accounted
    unread := h.unread
    drained := ⟨h.ahead_drain, List.drop_eq_nil_of_le (Nat.le_refl _)⟩
    receives := Subscription.receiveAmid_replicate h.next_le hahead
    ends := fun _ hne hbuses => Subscription.receiveAmid_isSome hne hbuses
    drains := Subscription.drainWithin_eq h.next_le hahead }

/-- To poll a bus is to take the messages on its channel from among the last frames that are ahead. -/
theorem poll (h : l.Sound b) (hchannels : l.subscription.channels = [Bus.syncChannel]) (now : Timestamp) :
    Medium.poll now b l.subscription =
      (.ok (((l.ahead.drop (l.ahead.length - b.retained)).filter fun f => f.channel = Bus.syncChannel).map
        Frame.payload),
      { l.subscription with
        next := b.frames.size, lagged := l.subscription.lagged + (l.ahead.length - b.retained) }) := by
  rw [Subscription.poll_eq hchannels, h.unread, h.dropped_sub_next]

end Sound

end Listener

end Moderation
