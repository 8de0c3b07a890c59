import Mathlib.Data.List.Basic
import Mathlib.Order.Bounds.Defs
import Moderation.Medium.Basic
/-!
# Looking at a bus

A subscription looks at the frame at its place: it finds that it has lost frames and moves on to the first one that is
retained, or it gets the frame, or there is none yet. To receive is to look until a frame of interest turns up or none
is there (`receiveAmid_replicate`), to drain is to receive until nothing is received (`drainWithin_eq`), and both come
to an end, also while frames are published in between (`receiveAmid_isSome`). All three read the bus: `Reads` says what
they return, what they pass and what they count as lost.
-/

namespace Moderation

namespace Bus

/-- The slots of a bus are its capacity rounded up to a power of two. -/
theorem isLeast_slots (capacity : Nat) : IsLeast {n | n.isPowerOfTwo ∧ capacity ≤ n} (slots capacity) := by
  unfold slots
  split
  · next hle => exact ⟨⟨Nat.isPowerOfTwo_one, hle⟩, fun n hn => Nat.pos_of_isPowerOfTwo hn.1⟩
  · next hgt =>
    have hne : capacity - 1 ≠ 0 := by omega
    rw [Nat.one_shiftLeft]
    refine ⟨⟨⟨_, rfl⟩, ?_⟩, ?_⟩
    · exact Nat.le_of_pred_lt Nat.lt_log2_self
    · rintro n ⟨⟨k, rfl⟩, hk⟩
      have hlt : 2 ^ (capacity - 1).log2 < 2 ^ k :=
        Nat.lt_of_le_of_lt (Nat.log2_self_le hne) (by omega)
      exact Nat.pow_le_pow_right (by decide) ((Nat.pow_lt_pow_iff_right (by decide)).1 hlt)

theorem capacity_le_retained (b : Bus) : b.capacity ≤ b.retained := (isLeast_slots b.capacity).1.2

@[simp] theorem capacity_publish (b : Bus) (f : Frame) : (b.publish f).2.capacity = b.capacity := by
  unfold publish
  dsimp only
  split <;> rfl

@[simp] theorem subscribers_publish (b : Bus) (f : Frame) : (b.publish f).2.subscribers = b.subscribers := by
  unfold publish
  dsimp only
  split <;> rfl

@[simp] theorem retained_publish (b : Bus) (f : Frame) : (b.publish f).2.retained = b.retained := by
  rw [retained, capacity_publish, retained]

end Bus

namespace Subscription

/-- What a subscription sees at its place. -/
inductive Sight where
  /-- The frame there is not retained, nor are those behind it, so many in all. -/
  | lost (n : Nat)
  | frame (f : Frame)
  | nothing
deriving DecidableEq

/-- The subscription when it has passed the frame at its place. -/
def past (s : Subscription) : Subscription := { s with next := s.next + 1 }

def look (s : Subscription) (b : Bus) : Sight × Subscription :=
  if s.next < b.dropped then (.lost (b.dropped - s.next), s.catchUp b)
  else match b.frames[s.next]? with
    | some f => (.frame f, s.past)
    | none => (.nothing, s)

/-- Looks at the bus until a frame of interest turns up or none is there, if it comes so far: the bus is another one
at each look, as frames are published in between. -/
def receiveAmid : List Bus → Subscription → Option (Except SubscriptionError (Option Frame) × Subscription)
  | [], _ => none
  | b :: later, s =>
    match s.look b with
    | (.lost _, s') => receiveAmid later s'
    | (.frame f, s') => if s.Matches f then some (.ok (some f), s') else receiveAmid later s'
    | (.nothing, s') => some (if b.closed then .error .closed else .ok none, s')

/-- Receives until no frame is received, so many times at most. -/
def drainWithin (b : Bus) : Nat → Subscription → Option (List Frame × Subscription)
  | 0, _ => none
  | n + 1, s =>
    match s.receive b with
    | (.ok (some f), s) => (drainWithin b n s).map fun d => (f :: d.1, d.2)
    | (_, s) => some ([], s)

variable {s s' : Subscription} {b : Bus}

/-! ## A look -/

/-- A subscription that has lost nothing does not catch up. -/
theorem catchUp_eq_self (h : b.dropped ≤ s.next) : s.catchUp b = s := by
  simp only [catchUp, Nat.max_eq_left h, Nat.sub_eq_zero_of_le h, Nat.add_zero]

theorem dropped_le_size (b : Bus) : b.dropped ≤ b.frames.size := Nat.sub_le _ _

/-- What a look does, in three cases. -/
theorem look_cases (s : Subscription) (b : Bus) :
    (s.next < b.dropped ∧ s.look b = (.lost (b.dropped - s.next), s.catchUp b)) ∨
    (∃ f, b.dropped ≤ s.next ∧ b.frames[s.next]? = some f ∧ s.look b = (.frame f, s.past)) ∨
    (b.frames.size ≤ s.next ∧ s.look b = (.nothing, s)) := by
  unfold look
  split
  · next hlost => exact .inl ⟨hlost, rfl⟩
  · next hkept =>
    cases hf : b.frames[s.next]? with
    | some f => exact .inr (.inl ⟨f, Nat.not_lt.1 hkept, rfl, rfl⟩)
    | none => exact .inr (.inr ⟨Array.getElem?_eq_none_iff.1 hf, rfl⟩)

/-! ## Receiving and draining by looks -/

/-- Receiving goes on where the bus is caught up with. -/
theorem receive_catchUp (s : Subscription) (b : Bus) : (s.catchUp b).receive b = s.receive b := by
  have hcaught : (s.catchUp b).catchUp b = s.catchUp b := catchUp_eq_self (Nat.le_max_right _ _)
  unfold receive
  rw [hcaught]

theorem receive_of_frame (hkept : b.dropped ≤ s.next) {f : Frame} (hf : b.frames[s.next]? = some f) :
    s.receive b = if s.Matches f then (.ok (some f), s.past) else s.past.receive b := by
  obtain ⟨hlt, hget⟩ := Array.getElem?_eq_some_iff.1 hf
  have hunread : s.unread b = f :: s.past.unread b := by
    have hlt' : s.next < b.frames.toList.length := hlt
    rw [unread, List.drop_eq_getElem_cons hlt', Array.getElem_toList, hget]
    rfl
  have hpast : s.past.catchUp b = s.past := catchUp_eq_self (Nat.le_succ_of_le hkept)
  have hplace : b.frames.size - (s.past.unread b).length = s.next + 1 := by
    simp only [unread, past, List.length_drop, Array.length_toList]
    omega
  by_cases hmatch : s.Matches f
  · simp [receive, catchUp_eq_self hkept, hunread, hmatch, hplace]
    rfl
  · simp [receive, hpast, catchUp_eq_self hkept, hunread, hmatch]
    rfl

theorem receive_of_end (hend : b.frames.size ≤ s.next) (hinside : s.next ≤ b.frames.size) :
    s.receive b = (if b.closed then .error .closed else .ok none, s) := by
  have hsize : s.next = b.frames.size := Nat.le_antisymm hinside hend
  have hunread : s.unread b = [] := List.drop_eq_nil_of_le hend
  simp only [receive, catchUp_eq_self (Nat.le_trans (dropped_le_size b) hend), hunread, List.dropWhile_nil, ← hsize]

/-- To receive is to look until a frame of interest turns up or none is there. -/
theorem receiveAmid_replicate {n : Nat} (hinside : s.next ≤ b.frames.size) (hn : b.frames.size - s.next < n) :
    receiveAmid (List.replicate n b) s = some (s.receive b) := by
  induction n generalizing s with
  | zero => exact absurd hn (Nat.not_lt_zero _)
  | succ n ih =>
    rw [List.replicate_succ, receiveAmid]
    rcases s.look_cases b with ⟨hlost, hlook⟩ | ⟨f, hkept, hf, hlook⟩ | ⟨hend, hlook⟩ <;> simp only [hlook]
    · have hle := dropped_le_size b
      have hcaught : (s.catchUp b).next = b.dropped := Nat.max_eq_right (Nat.le_of_lt hlost)
      rw [ih (hcaught ▸ hle) (by omega), receive_catchUp]
    · obtain ⟨hlt, -⟩ := Array.getElem?_eq_some_iff.1 hf
      rw [receive_of_frame hkept hf, ih (Nat.succ_le_of_lt hlt) (by simp only [past]; omega)]
      split <;> rfl
    · rw [receive_of_end hend hinside]

/-- Each look that does not end the receiving passes a frame. So the receiving ends, whatever is published in
between, with one look more than there are frames to be passed. -/
theorem receiveAmid_isSome {buses : List Bus} (hne : buses ≠ [])
    (hbuses : ∀ b ∈ buses, b.frames.size - s.next < buses.length) : (receiveAmid buses s).isSome := by
  induction buses generalizing s with
  | nil => exact absurd rfl hne
  | cons b later ih =>
    -- The looks that are left suffice from the place to which this one moves on.
    have hgoesOn {s' : Subscription} (hplace : s.next < s'.next) (hinside : s'.next ≤ b.frames.size) :
        (receiveAmid later s').isSome := by
      have hb := hbuses b List.mem_cons_self
      rw [List.length_cons] at hb
      refine ih (fun hnil => ?_) fun b' hb' => ?_
      · rw [hnil, List.length_nil] at hb
        omega
      · have hlater := hbuses b' (List.mem_cons_of_mem b hb')
        have hsome := List.length_pos_of_mem hb'
        rw [List.length_cons] at hlater
        omega
    rw [receiveAmid]
    rcases s.look_cases b with ⟨hlost, hlook⟩ | ⟨f, -, hf, hlook⟩ | ⟨-, hlook⟩ <;> simp only [hlook]
    · have hcaught : (s.catchUp b).next = b.dropped := Nat.max_eq_right (Nat.le_of_lt hlost)
      exact hgoesOn (hcaught ▸ hlost) (hcaught ▸ dropped_le_size b)
    · obtain ⟨hlt, -⟩ := Array.getElem?_eq_some_iff.1 hf
      split
      · rfl
      · exact hgoesOn (Nat.lt_succ_self _) (Nat.succ_le_of_lt hlt)
    · rfl

/-! ## What is read -/

/-- What has been received, if anything. -/
def received : Except SubscriptionError (Option Frame) → List Frame
  | .ok (some f) => [f]
  | _ => []

/-- From `s` the subscription has read the bus up to the place of `s'`: frames that are not retained it has lost, and
of the others it has been given those of interest. -/
structure Reads (b : Bus) (s s' : Subscription) (out : List Frame) : Prop where
  channels : s'.channels = s.channels
  caughtUp : max s.next b.dropped ≤ s'.next
  inside : s'.next ≤ b.frames.size
  lagged : s'.lagged = s.lagged + (b.dropped - s.next)
  out : out = ((b.frames.toList.take s'.next).drop (max s.next b.dropped)).filter fun f => s.Matches f

theorem drop_take_append {frames : List Frame} {i j k : Nat} (hij : i ≤ j) (hjk : j ≤ k) (hk : k ≤ frames.length) :
    (frames.take j).drop i ++ (frames.take k).drop j = (frames.take k).drop i := by
  have htake : frames.take j = (frames.take k).take j := by rw [List.take_take, Nat.min_eq_left hjk]
  have hlength : i ≤ (frames.take j).length := by
    rw [List.length_take]
    omega
  rw [← List.drop_append_of_le_length hlength, htake, List.take_append_drop]

theorem filter_matches (h : s'.channels = s.channels) (frames : List Frame) :
    (frames.filter fun f => s'.Matches f) = frames.filter fun f => s.Matches f :=
  List.filter_congr fun f _ => decide_eq_decide.2 (by simp only [Matches, h])

namespace Reads

variable {s'' : Subscription} {out out' : List Frame}

theorem kept (h : Reads b s s' out) : b.dropped ≤ s'.next := Nat.le_trans (Nat.le_max_right _ _) h.caughtUp

theorem le (h : Reads b s s' out) : s.next ≤ s'.next := Nat.le_trans (Nat.le_max_left _ _) h.caughtUp

theorem catchUp (hinside : s.next ≤ b.frames.size) : Reads b s (s.catchUp b) [] where
  channels := rfl
  caughtUp := Nat.le_refl _
  inside := Nat.max_le.2 ⟨hinside, dropped_le_size b⟩
  lagged := rfl
  out := by
    rw [Subscription.catchUp, List.drop_eq_nil_of_le (List.length_take_le _ _), List.filter_nil]

theorem past (hkept : b.dropped ≤ s.next) {f : Frame} (hf : b.frames[s.next]? = some f) :
    Reads b s s.past (if s.Matches f then [f] else []) := by
  have hlt := (Array.getElem?_eq_some_iff.1 hf).1
  have hlength : (b.frames.toList.take s.next).length = s.next := by
    rw [List.length_take, Array.length_toList, Nat.min_eq_left (Nat.le_of_lt hlt)]
  refine ⟨rfl, Nat.max_le.2 ⟨Nat.le_succ _, Nat.le_succ_of_le hkept⟩, hlt, ?_, ?_⟩
  · rw [Nat.sub_eq_zero_of_le hkept]
    rfl
  · rw [Nat.max_eq_left hkept, Subscription.past, List.take_add_one, Array.getElem?_toList, hf, Option.toList_some,
      List.drop_append_of_le_length (Nat.le_of_eq hlength.symm), List.drop_eq_nil_of_le (Nat.le_of_eq hlength)]
    simp [List.filter_cons]

theorem stay (hkept : b.dropped ≤ s.next) (hinside : s.next ≤ b.frames.size) : Reads b s s [] := by
  have h := catchUp hinside
  rwa [catchUp_eq_self hkept] at h

theorem trans (h : Reads b s s' out) (h' : Reads b s' s'' out') : Reads b s s'' (out ++ out') where
  channels := h'.channels.trans h.channels
  caughtUp := Nat.le_trans h.caughtUp h'.le
  inside := h'.inside
  lagged := by rw [h'.lagged, h.lagged, Nat.sub_eq_zero_of_le h.kept, Nat.add_zero]
  out := by
    rw [h'.out, h.out, filter_matches h.channels, Nat.max_eq_left h.kept, ← List.filter_append,
      drop_take_append h.caughtUp h'.le h'.inside]

/-- How far the bus is read says all. -/
theorem unique (h : Reads b s s' out) (h' : Reads b s s'' out') (hplace : s'.next = s''.next) :
    (out, s') = (out', s'') := by
  have hsub : s' = s'' := by
    have hchannels := h.channels.trans h'.channels.symm
    have hlagged := h.lagged.trans h'.lagged.symm
    cases s'
    cases s''
    exact Subscription.mk.injEq .. ▸ ⟨hchannels, hplace, hlagged⟩
  rw [h.out, h'.out, hsub]

theorem lt_of_ne_nil (h : Reads b s s' out) (hne : out ≠ []) : s.next < s'.next := by
  refine Nat.lt_of_not_le fun hle => hne ?_
  have hlength : (b.frames.toList.take s'.next).length ≤ max s.next b.dropped :=
    Nat.le_trans (List.length_take_le _ _) (Nat.le_trans hle (Nat.le_max_left _ _))
  rw [h.out, List.drop_eq_nil_of_le hlength, List.filter_nil]

end Reads

theorem reads_look (hinside : s.next ≤ b.frames.size) :
    Reads b s (s.look b).2 (match (s.look b).1 with | .frame f => if s.Matches f then [f] else [] | _ => []) := by
  rcases s.look_cases b with ⟨-, hlook⟩ | ⟨f, hkept, hf, hlook⟩ | ⟨hend, hlook⟩ <;> simp only [hlook]
  · exact .catchUp hinside
  · exact .past hkept hf
  · exact .stay (Nat.le_trans (dropped_le_size b) hend) hinside

theorem reads_receive (hinside : s.next ≤ b.frames.size) : Reads b s (s.receive b).2 (received (s.receive b).1) := by
  -- The measure is what is not yet passed: each look that does not end the receiving passes a frame.
  induction hn : b.frames.size - s.next using Nat.strongRecOn generalizing s with
  | _ n ih =>
    rcases s.look_cases b with ⟨hlost, -⟩ | ⟨f, hkept, hf, -⟩ | ⟨hend, -⟩
    · have hcaught := Reads.catchUp hinside
      have hplace : (s.catchUp b).next = b.dropped := Nat.max_eq_right (Nat.le_of_lt hlost)
      have hrest := ih _ (by have := hcaught.inside; omega) hcaught.inside rfl
      rw [receive_catchUp] at hrest
      exact hcaught.trans hrest
    · have hpast := Reads.past hkept hf
      rw [receive_of_frame hkept hf]
      split
      · next hmatch =>
        rwa [if_pos hmatch] at hpast
      · next hmatch =>
        rw [if_neg hmatch] at hpast
        exact hpast.trans (ih _ (by have := hpast.inside; simp only [past] at this ⊢; omega) hpast.inside rfl)
    · rw [receive_of_end hend hinside]
      have hstay : Reads b s s [] := .stay (Nat.le_trans (dropped_le_size b) hend) hinside
      cases b.closed <;> exact hstay

/-- If no frame is received then the bus is read up to its end. -/
theorem receive_cases (s : Subscription) (b : Bus) : (∃ f, (s.receive b).1 = .ok (some f)) ∨
    ((s.receive b).1 = (if b.closed then .error .closed else .ok none) ∧ (s.receive b).2.next = b.frames.size) := by
  unfold receive
  dsimp only
  split
  · exact .inl ⟨_, rfl⟩
  · exact .inr ⟨rfl, rfl⟩

theorem reads_drain (hinside : s.next ≤ b.frames.size) : Reads b s (s.drain b).2 (s.drain b).1 where
  channels := rfl
  caughtUp := Nat.max_le.2 ⟨hinside, dropped_le_size b⟩
  inside := Nat.le_refl _
  lagged := rfl
  out := by
    simp only [drain, ← Array.length_toList, List.take_length]
    rfl

/-- To poll a bus is to take the messages on its channel from what is unread and retained. -/
theorem poll_eq (hchannels : s.channels = [Bus.syncChannel]) (b : Bus) (now : Timestamp) :
    Medium.poll now b s =
      (.ok ((((s.unread b).drop (b.dropped - s.next)).filter fun f => f.channel = Bus.syncChannel).map Frame.payload),
      { s with next := b.frames.size, lagged := s.lagged + (b.dropped - s.next) }) := by
  have hinterest : ∀ f, (s.catchUp b).Matches f ↔ f.channel = Bus.syncChannel := by
    intro f
    simp [Matches, catchUp, hchannels]
  have hunread : (s.catchUp b).unread b = (s.unread b).drop (b.dropped - s.next) := by
    have hplace : max s.next b.dropped = s.next + (b.dropped - s.next) := by omega
    rw [unread, unread, List.drop_drop, ← hplace, catchUp]
  show (Except.ok ((s.drain b).1.map Frame.payload), (s.drain b).2) = _
  simp only [drain, hinterest, hunread]
  rfl

/-- To drain is to receive until nothing is received. -/
theorem drainWithin_eq {n : Nat} (hinside : s.next ≤ b.frames.size) (hn : b.frames.size - s.next < n) :
    drainWithin b n s = some (s.drain b) := by
  induction n generalizing s with
  | zero => exact absurd hn (Nat.not_lt_zero _)
  | succ n ih =>
    have hreads := reads_receive hinside
    rcases s.receive_cases b with ⟨f, hf⟩ | ⟨hnone, hend⟩
    · have hstep : drainWithin b (n + 1) s =
          (drainWithin b n (s.receive b).2).map fun d => (f :: d.1, d.2) := by
        rw [drainWithin, ← Prod.eta (s.receive b), hf]
      rw [hf] at hreads
      have hlt := hreads.lt_of_ne_nil (List.cons_ne_nil _ _)
      have hinside' := hreads.inside
      rw [hstep, ih hinside' (by omega), Option.map_some]
      exact congrArg some ((hreads.trans (reads_drain hinside')).unique (reads_drain hinside) rfl)
    · have hstep : drainWithin b (n + 1) s = some ([], (s.receive b).2) := by
        rw [drainWithin, ← Prod.eta (s.receive b), hnone]
        cases b.closed <;> rfl
      have hout : received (s.receive b).1 = [] := by
        rw [hnone]
        cases b.closed <;> rfl
      rw [hout] at hreads
      rw [hstep]
      exact congrArg some (hreads.unique (reads_drain hinside) hend)

end Subscription

end Moderation
