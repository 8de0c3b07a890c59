import Moderation.Proofs.Bus.Listener
/-!
# The audience of a bus

Subscriptions come and go, anyone publishes on any channel, and each subscription is read at any time: one look at the
bus, one frame received, or drained. `exact_delivery` says of any of them that it is given what it should be given and
counts what it loses, and what it gives when it is polled.
-/

namespace Moderation

structure Audience where
  bus : Bus
  /-- In the order in which they subscribed, and none in the place of one that has left. -/
  listeners : List (Option Listener) := []

namespace Audience

inductive Step where
  | subscribe (channels : List String)
  | leave (i : Nat)
  | publish (f : Frame)
  | close
  | read (m : Manner) (i : Nat)
deriving DecidableEq

/-- The frames that are published in these steps. -/
def published (steps : List Step) : List Frame :=
  steps.filterMap fun
    | .publish f => some f
    | _ => none

/-- The step is one of the listener in this place. -/
def Step.By (i : Nat) : Step → Prop
  | .leave j => j = i
  | .read _ j => j = i
  | _ => False

def step (a : Audience) : Step → Audience
  | .subscribe channels =>
    ⟨(a.bus.subscribe channels).2, a.listeners ++ [some { subscription := (a.bus.subscribe channels).1 }]⟩
  | .leave i =>
    match a.listeners[i]? with
    | some (some _) => ⟨a.bus.unsubscribe, a.listeners.set i none⟩
    | _ => a
  | .publish f => ⟨(a.bus.publish f).2, a.listeners.map fun l => l.map (·.hear f)⟩
  | .close => { a with bus := a.bus.close }
  | .read m i =>
    match a.listeners[i]? with
    | some (some l) => { a with listeners := a.listeners.set i (some (l.read a.bus m)) }
    | _ => a

def run (a : Audience) (steps : List Step) : Audience := steps.foldl step a

/-- What becomes of the listener in place `i` in a step, if it does not leave. -/
def follow (b : Bus) (i : Nat) (l : Listener) : Step → Listener
  | .publish f => l.hear f
  | .read m j => if j = i then l.read b m else l
  | _ => l

/-- Each listener is sound, and the bus knows of them all. -/
structure Sound (a : Audience) : Prop where
  listeners : ∀ l, some l ∈ a.listeners → l.Sound a.bus
  subscribers : a.listeners.countP Option.isSome ≤ a.bus.subscribers

variable {a : Audience} {i : Nat} {l : Listener}

/-- What a step makes of the listener in place `i`. -/
theorem getElem?_step (hl : a.listeners[i]? = some (some l)) {e : Step} (hstays : e ≠ .leave i) :
    (a.step e).listeners[i]? = some (some (follow a.bus i l e)) := by
  obtain ⟨hlt, -⟩ := List.getElem?_eq_some_iff.1 hl
  cases e with
  | subscribe channels => simp only [step, follow, List.getElem?_append_left hlt, hl]
  | leave j =>
    have hne : j ≠ i := fun h => hstays (h ▸ rfl)
    simp only [step, follow]
    split
    · simp only [List.getElem?_set_ne hne, hl]
    · exact hl
  | publish f => simp only [step, follow, List.getElem?_map, hl, Option.map_some]
  | close => exact hl
  | read m j =>
    simp only [step, follow]
    by_cases hji : j = i
    · subst hji
      simp only [hl, if_true, List.getElem?_set_self hlt]
    · rw [if_neg hji]
      split
      · rw [List.getElem?_set_ne hji, hl]
      · exact hl

theorem capacity_step (a : Audience) (e : Step) : (a.step e).bus.capacity = a.bus.capacity := by
  cases e with
  | subscribe channels => rfl
  | leave i =>
    simp only [step]
    split <;> rfl
  | publish f => exact a.bus.capacity_publish f
  | close => rfl
  | read m i =>
    simp only [step]
    split <;> rfl

theorem capacity_run (a : Audience) (steps : List Step) : (a.run steps).bus.capacity = a.bus.capacity := by
  induction steps generalizing a with
  | nil => rfl
  | cons e rest ih => exact (ih (a.step e)).trans (capacity_step a e)

theorem countP_set {listeners : List (Option Listener)} (hl : listeners[i]? = some (some l)) (x : Option Listener) :
    (listeners.set i x).countP Option.isSome + 1 = listeners.countP Option.isSome + if x.isSome then 1 else 0 := by
  obtain ⟨hlt, hget⟩ := List.getElem?_eq_some_iff.1 hl
  have hpos : 0 < listeners.countP Option.isSome :=
    List.countP_pos_iff.2 ⟨some l, List.mem_of_getElem? hl, rfl⟩
  rw [List.countP_set hlt, hget]
  simp only [Option.isSome_some, if_true]
  omega

namespace Sound

theorem opened (b : Bus) : Sound ⟨b, []⟩ where
  listeners _ hl := absurd hl List.not_mem_nil
  subscribers := Nat.zero_le _

theorem step (h : a.Sound) (e : Step) : (a.step e).Sound := by
  cases e with
  | subscribe channels =>
    refine ⟨fun l hl => ?_, ?_⟩
    · rcases List.mem_append.1 hl with hl | hl
      · exact (h.listeners l hl).of_frames rfl rfl
      · obtain rfl := Option.some.inj (List.mem_singleton.1 hl)
        exact ⟨⟨a.bus.frames.toList, (List.append_nil _).symm, rfl⟩, Nat.le_refl _, rfl, rfl⟩
    · simpa [Audience.step, Bus.subscribe] using h.subscribers
  | leave i =>
    simp only [Audience.step]
    split
    · next l hl =>
      refine ⟨fun l' hl' => ?_, ?_⟩
      · rcases List.mem_or_eq_of_mem_set hl' with hl' | hl'
        · exact (h.listeners l' hl').of_frames rfl rfl
        · cases hl'
      · have hcount := countP_set hl none
        have hsubscribers := h.subscribers
        simp only [Bus.unsubscribe, Option.isSome_none, Bool.false_eq_true, if_false] at hcount ⊢
        omega
    · exact h
  | publish f =>
    refine ⟨fun l hl => ?_, ?_⟩
    · obtain ⟨l₀, hl₀, hhear⟩ := List.mem_map.1 hl
      obtain ⟨l₀, rfl, rfl⟩ := Option.map_eq_some_iff.1 hhear
      -- The bus retains the frame, as it knows of this listener.
      have hpos : 0 < a.listeners.countP Option.isSome := List.countP_pos_iff.2 ⟨some l₀, hl₀, rfl⟩
      exact (h.listeners l₀ hl₀).hear f (Nat.ne_of_gt (Nat.lt_of_lt_of_le hpos h.subscribers))
    · have hcount : (a.step (.publish f)).listeners.countP Option.isSome = a.listeners.countP Option.isSome := by
        simp [Audience.step, List.countP_map, Function.comp_def]
      rw [hcount]
      exact Nat.le_trans h.subscribers (Nat.le_of_eq (a.bus.subscribers_publish f).symm)
  | close => exact ⟨fun l hl => (h.listeners l hl).of_frames rfl rfl, h.subscribers⟩
  | read m i =>
    simp only [Audience.step]
    split
    · next l hl =>
      refine ⟨fun l' hl' => ?_, ?_⟩
      · rcases List.mem_or_eq_of_mem_set hl' with hl' | hl'
        · exact h.listeners l' hl'
        · obtain rfl := Option.some.inj hl'
          exact (h.listeners l (List.mem_of_getElem? hl)).read m
      · have hcount := countP_set hl (some (l.read a.bus m))
        exact Nat.le_trans (Nat.le_of_eq (Nat.add_right_cancel hcount)) h.subscribers
    · exact h

theorem run (h : a.Sound) (steps : List Step) : (a.run steps).Sound := by
  induction steps generalizing a with
  | nil => exact h
  | cons e rest ih => exact ih (h.step e)

end Sound

/-- A listener that does not leave stays in its place, and hears what is published. -/
theorem exists_run {steps : List Step} (h : a.Sound) (hl : a.listeners[i]? = some (some l))
    (hstays : Step.leave i ∉ steps) : ∃ l', (a.run steps).listeners[i]? = some (some l') ∧
      l'.subscription.channels = l.subscription.channels ∧ l'.news = l.news ++ published steps := by
  induction steps generalizing a l with
  | nil => exact ⟨l, hl, rfl, (List.append_nil _).symm⟩
  | cons e rest ih =>
    obtain ⟨he, hrest⟩ := not_or.1 (mt List.mem_cons.2 hstays)
    obtain ⟨l', hl', hchannels, hnews⟩ := ih (h.step e) (getElem?_step hl (Ne.symm he)) hrest
    have hsound := h.listeners l (List.mem_of_getElem? hl)
    refine ⟨l', hl', hchannels.trans ?_, hnews.trans ?_⟩
    · cases e with
      | read m j =>
        simp only [follow]
        split
        · exact (hsound.reads m).channels
        · rfl
      | _ => rfl
    · cases e with
      | publish f => exact List.append_assoc _ _ _
      | read m j =>
        simp only [follow]
        split <;> rfl
      | _ => rfl

/-- What others do does not reach a listener, but for what they publish. -/
theorem run_others {steps : List Step} (hl : a.listeners[i]? = some (some l)) (hothers : ∀ e ∈ steps, ¬e.By i) :
    (a.run steps).listeners[i]? = some (some { l with news := l.news ++ published steps }) := by
  induction steps generalizing a l with
  | nil => simpa [run, published] using hl
  | cons e rest ih =>
    have he := hothers e List.mem_cons_self
    have hstays : e ≠ .leave i := by
      rintro rfl
      exact he rfl
    have hrest := ih (getElem?_step hl hstays) fun e' he' => hothers e' (List.mem_cons_of_mem _ he')
    rw [show a.run (e :: rest) = (a.step e).run rest from rfl, hrest]
    cases e with
    | publish f => simp [follow, Listener.hear, published]
    | read m j =>
      have hother : follow a.bus i l (.read m j) = l := if_neg he
      rw [hother]
      rfl
    | _ => rfl

/-- In these steps never more than `n` frames are ahead of the listener in place `i`. -/
def KeepsUp (a : Audience) (i n : Nat) (steps : List Step) : Prop :=
  ∀ done rest, steps = done ++ rest → ∀ l, (a.run done).listeners[i]? = some (some l) → l.ahead.length ≤ n

/-- A listener that keeps up with the capacity of the bus loses nothing. -/
theorem lagged_run {steps : List Step} {l' : Listener} (h : a.Sound) (hl : a.listeners[i]? = some (some l))
    (hstays : Step.leave i ∉ steps) (hkeeps : a.KeepsUp i a.bus.capacity steps)
    (hl' : (a.run steps).listeners[i]? = some (some l')) : l'.subscription.lagged = l.subscription.lagged := by
  induction steps generalizing a l with
  | nil =>
    obtain rfl := Option.some.inj (Option.some.inj (hl.symm.trans hl'))
    rfl
  | cons e rest ih =>
    obtain ⟨he, hrest⟩ := not_or.1 (mt List.mem_cons.2 hstays)
    have hkeeps' : (a.step e).KeepsUp i (a.step e).bus.capacity rest := by
      intro done todo hsplit
      rw [capacity_step]
      exact hkeeps (e :: done) todo (congrArg (e :: ·) hsplit)
    refine (ih (h.step e) (getElem?_step hl (Ne.symm he)) hrest hkeeps' hl').trans ?_
    cases e with
    | read m j =>
      have hahead := hkeeps [] _ rfl l hl
      have hretained := a.bus.capacity_le_retained
      rw [follow]
      split
      · rw [(h.listeners l (List.mem_of_getElem? hl)).lagged_read]
        omega
      · rfl
    | _ => rfl

/-- However many frames others publish and whatever else they do, the listener in place `i` polls the messages on the
channel of the bus that are among the last it retains, and counts the others as lost. -/
def PollsLast (a : Audience) (i : Nat) (l : Listener) : Prop :=
  ∀ others, (∀ e ∈ others, ¬e.By i) → ∀ now,
    let b := (a.run others).bus
    let exceeding := (published others).length - a.bus.retained
    (a.run others).listeners[i]? = some (some { l with news := l.news ++ published others }) ∧
      Medium.poll now b l.subscription =
        (.ok ((((published others).drop exceeding).filter fun f => f.channel = Bus.syncChannel).map Frame.payload),
        { l.subscription with next := b.frames.size, lagged := l.subscription.lagged + exceeding })

theorem Sound.pollsLast (h : a.Sound) (hl : a.listeners[i]? = some (some l))
    (hchannels : l.subscription.channels = [Bus.syncChannel]) (hahead : l.ahead = []) : a.PollsLast i l := by
  intro others hothers now
  have hl' := run_others hl hothers
  have hsound := (h.run others).listeners _ (List.mem_of_getElem? hl')
  have hretained : (a.run others).bus.retained = a.bus.retained := by
    rw [Bus.retained, capacity_run, Bus.retained]
  have hpassed : l.reached.length = l.news.length := by
    have hinside := (h.listeners l (List.mem_of_getElem? hl)).inside
    exact Nat.le_antisymm hinside (List.drop_eq_nil_iff.1 hahead)
  have hnew : Listener.ahead { l with news := l.news ++ published others } = published others := by
    rw [Listener.ahead, hpassed, List.drop_left]
  have hpoll := hsound.poll hchannels now
  rw [hnew, hretained] at hpoll
  exact ⟨hl', hpoll⟩

/-- A bus retains as many frames as its capacity, rounded up to a power of two. Whenever a subscription is made, to any
channels, and as long as it is not given up: whatever is published, and whoever reads in between, it is given exactly
what it should, counts what it loses, and loses nothing if it keeps up with the capacity. A bus that is polled gives the
last messages. -/
theorem exact_delivery (b : Bus) (before after : List Step) (channels : List String)
    (hstays : Step.leave (run ⟨b, []⟩ before).listeners.length ∉ after) :
    let i := (run ⟨b, []⟩ before).listeners.length
    let a := run ⟨b, []⟩ (before ++ [.subscribe channels])
    IsLeast {n | n.isPowerOfTwo ∧ b.capacity ≤ n} (a.run after).bus.retained ∧
      ∃ l, (a.run after).listeners[i]? = some (some l) ∧ l.subscription.channels = channels ∧
        l.news = published after ∧ l.Exact (a.run after).bus ∧
        (a.KeepsUp i b.capacity after → l.subscription.lagged = 0 ∧
          l.returned = ((published after).take l.reached.length).filter fun f => l.subscription.Matches f) ∧
        (channels = [Bus.syncChannel] → l.ahead = [] → (a.run after).PollsLast i l) := by
  intro i a
  let l₀ : Listener := { subscription := ((run ⟨b, []⟩ before).bus.subscribe channels).1 }
  have ha : a = (run ⟨b, []⟩ before).step (.subscribe channels) := by
    simp only [a, run, List.foldl_append, List.foldl_cons, List.foldl_nil]
  have hsound : a.Sound := (Sound.opened b).run _
  have hl₀ : a.listeners[i]? = some (some l₀) := by
    rw [ha]
    exact List.getElem?_concat_length
  obtain ⟨l, hl, hchannels, hnews⟩ := exists_run hsound hl₀ hstays
  have hsound' := hsound.run after
  have hexact := hsound'.listeners l (List.mem_of_getElem? hl)
  have hcapacity : a.bus.capacity = b.capacity := capacity_run _ _
  refine ⟨?_, l, hl, hchannels, hnews, hexact.exact, fun hkeeps => ?_, fun hsync hahead => ?_⟩
  · rw [Bus.retained, capacity_run, hcapacity]
    exact Bus.isLeast_slots b.capacity
  · have hlossless := lagged_run hsound hl₀ hstays (hcapacity ▸ hkeeps) hl
    have hreturned := hexact.returned_of_lossless hlossless
    rw [hnews] at hreturned
    exact ⟨hlossless, hreturned⟩
  · exact hsound'.pollsLast hl (hchannels.trans hsync) hahead

/-- The second subscription of a bus that retains two frames is looked at, falls behind by four, receives, and is
drained. -/
theorem exact_delivery_to_laggard :
    let sync (n : UInt8) : Frame := ⟨Bus.syncChannel, [n]⟩
    let chat : Frame := ⟨"chat", []⟩
    let before : List Step := [.subscribe ["chat"]]
    let after : List Step := [.publish (sync 1), .publish chat, .read .look 1, .publish (sync 2), .publish (sync 3),
      .publish (sync 4), .read .receive 1, .read .drain 0, .publish chat, .leave 0, .read .drain 1]
    let a := run ⟨{ capacity := 2 }, []⟩ (before ++ [.subscribe [Bus.syncChannel]])
    Step.leave 1 ∉ after ∧ ∃ l, (a.run after).listeners[1]? = some (some l) ∧
      l.returned = [sync 1, sync 3, sync 4] ∧ l.subscription.lagged = 2 ∧
      l.reached = [2, 5, 5, 5, 6, 6] ∧ l.Exact (a.run after).bus ∧ (a.run after).PollsLast 1 l := by
  intro sync chat before after a
  have hstays : Step.leave 1 ∉ after := by decide
  obtain ⟨-, l, hl, -, -, hexact, -, hpolls⟩ :=
    exact_delivery { capacity := 2 } before after [Bus.syncChannel] hstays
  have hrun : ((a.run after).listeners[1]?.join.map fun l => (l.returned, l.subscription.lagged, l.reached, l.ahead)) =
      some ([sync 1, sync 3, sync 4], 2, [2, 5, 5, 5, 6, 6], []) := by decide +kernel
  have hl' : (a.run after).listeners[1]? = some (some l) := hl
  simp only [hl', Option.join_some, Option.map_some, Option.some.injEq, Prod.mk.injEq] at hrun
  obtain ⟨hreturned, hlagged, hreached, hahead⟩ := hrun
  exact ⟨hstays, l, hl', hreturned, hlagged, hreached, hexact, hpolls rfl hahead⟩

end Audience

end Moderation
