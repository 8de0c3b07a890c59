import Mathlib.Data.List.Basic
import Moderation.Medium.Basic
import Moderation.Proofs.Bus.Looking
/-!
# Exchange over either medium

Processes that share a clock dispatch messages and poll, over a mailbox or over a bus. A mailbox is read by windows of
time and a bus by places, but if messages are dispatched only when the clock has passed everyone's cursor, and no one
falls behind by more than the bus retains, then both hand over the same messages, poll by poll: `interchangeable`.
-/

namespace Moderation

/-! ## What is awaited -/

/-- The messages that a process has not collected from the mailbox yet: none if it has not polled at all, and else those
of the last letters, which are stamped later than its cursor and in order. -/
def Cursor.Awaits (c : Cursor) (m : Mailbox) (news : List Bytes) : Prop :=
  match c.last with
  | none => news = []
  | some last => ∃ old new, m.letters = old ++ new ∧ (∀ l ∈ old, l.time ≤ last) ∧ (∀ l ∈ new, last < l.time) ∧
      new.Pairwise (fun l l' => l.time ≤ l'.time) ∧ new.map Letter.payload = news

/-- The messages that a process has not collected from the bus yet. -/
structure Subscription.Awaits (s : Subscription) (b : Bus) (news : List Bytes) : Prop where
  channels : s.channels = [Bus.syncChannel]
  inside : s.next ≤ b.frames.size
  unread : s.unread b = news.map (Frame.mk Bus.syncChannel)

namespace Cursor.Awaits

variable {c : Cursor} {m : Mailbox} {news : List Bytes} {now last : Timestamp}

theorem of_past (hpast : ∀ l ∈ m.letters, l.time ≤ now) : Awaits ⟨some now⟩ m [] :=
  ⟨m.letters, [], (List.append_nil _).symm, hpast, fun _ h => absurd h List.not_mem_nil, .nil, rfl⟩

/-- The window that ends now holds the new letters, and they are in order already. -/
theorem inWindow_eq {old new : List Letter} (hletters : m.letters = old ++ new) (hold : ∀ l ∈ old, l.time ≤ last)
    (hnew : ∀ l ∈ new, last < l.time) (hsorted : new.Pairwise fun l l' => l.time ≤ l'.time)
    (hpast : ∀ l ∈ m.letters, l.time ≤ now) : m.inWindow ⟨last, now⟩ = new := by
  have hnone : old.filter (fun l => Window.Holds ⟨last, now⟩ l.time) = [] := by
    refine List.filter_eq_nil_iff.2 fun l hl hholds => ?_
    exact UInt64.not_lt.2 (hold l hl) (of_decide_eq_true hholds).1
  have hall : new.filter (fun l => Window.Holds ⟨last, now⟩ l.time) = new := by
    refine List.filter_eq_self.2 fun l hl => decide_eq_true ⟨hnew l hl, hpast l ?_⟩
    exact hletters ▸ List.mem_append_right old hl
  rw [Mailbox.inWindow, hletters, List.filter_append, hnone, hall, List.nil_append]
  exact List.mergeSort_of_pairwise (hsorted.imp fun h => decide_eq_true h)

/-- A poll collects what is awaited. -/
theorem poll (h : c.Awaits m news) (hreadable : m.readFailure = none) (hpast : ∀ l ∈ m.letters, l.time ≤ now) :
    (c.poll now m).1 = .ok news ∧ (c.poll now m).2.Awaits m [] := by
  obtain ⟨_ | last⟩ := c
  · obtain rfl : news = [] := h
    exact ⟨rfl, of_past hpast⟩
  · have hawaits := h
    obtain ⟨old, new, hletters, hold, hnew, hsorted, rfl⟩ := h
    by_cases hle : now ≤ last
    · have hnone : new = [] := by
        refine List.eq_nil_iff_forall_not_mem.2 fun l hl => UInt64.not_lt.2 hle ?_
        exact UInt64.lt_of_lt_of_le (hnew l hl) (hpast l (hletters ▸ List.mem_append_right old hl))
      subst hnone
      simp only [Cursor.poll, claim, if_pos hle]
      exact ⟨rfl, hawaits⟩
    · simp only [Cursor.poll, claim, if_neg hle, Mailbox.select, hreadable,
        inWindow_eq hletters hold hnew hsorted hpast]
      exact ⟨rfl, of_past hpast⟩

/-- A message dispatched later than the cursor is awaited. -/
theorem insert (h : c.Awaits m news) (hlast : last ∈ c.last) (hlt : last < now)
    (hpast : ∀ l ∈ m.letters, l.time ≤ now) (message : Bytes) :
    c.Awaits { m with letters := m.letters ++ [⟨now, message⟩] } (news ++ [message]) := by
  obtain ⟨_ | last'⟩ := c
  · cases hlast
  · obtain rfl : last' = last := Option.some.inj hlast
    obtain ⟨old, new, hletters, hold, hnew, hsorted, rfl⟩ := h
    refine ⟨old, new ++ [⟨now, message⟩], ?_, hold, ?_, ?_, List.map_append⟩
    · rw [hletters, List.append_assoc]
    · intro l hl
      rcases List.mem_append.1 hl with hl | hl
      · exact hnew l hl
      · obtain rfl := List.mem_singleton.1 hl
        exact hlt
    · refine List.pairwise_append.2 ⟨hsorted, List.pairwise_singleton _ _, fun l hl l' hl' => ?_⟩
      obtain rfl := List.mem_singleton.1 hl'
      exact hpast l (hletters ▸ List.mem_append_right old hl)

end Cursor.Awaits

namespace Subscription.Awaits

variable {s : Subscription} {b : Bus} {news : List Bytes}

/-- A poll collects what is awaited, if the bus retains it all. -/
theorem poll (h : s.Awaits b news) (hretained : news.length ≤ b.retained) (now : Timestamp) :
    (Medium.poll now b s).1 = .ok news ∧ (Medium.poll now b s).2.Awaits b [] := by
  have hlength := congrArg List.length h.unread
  rw [Subscription.unread, List.length_drop, List.length_map, Array.length_toList] at hlength
  have hkept : b.dropped - s.next = 0 := by
    rw [Bus.dropped]
    omega
  have hmessages : (((s.unread b).drop 0).filter fun f => f.channel = Bus.syncChannel).map Frame.payload = news := by
    simp [h.unread, List.filter_map, Function.comp_def]
  rw [poll_eq h.channels, hkept, hmessages]
  exact ⟨rfl, h.channels, Nat.le_refl _, List.drop_eq_nil_of_le (Nat.le_refl _)⟩

/-- A message that is published on the channel is awaited. -/
theorem publish (h : s.Awaits b news) (hsub : b.subscribers ≠ 0) (message : Bytes) :
    s.Awaits (b.publish ⟨Bus.syncChannel, message⟩).2 (news ++ [message]) := by
  have hunread := h.unread
  have hinside := h.inside
  simp only [Bus.publish, if_neg hsub]
  refine ⟨h.channels, ?_, ?_⟩
  · rw [Array.size_push]
    exact Nat.le_succ_of_le hinside
  · rw [Subscription.unread, Array.toList_push, List.drop_append_of_le_length hinside, List.map_append, ← hunread]
    rfl

end Subscription.Awaits

/-! ## Exchanges -/

/-- A medium with its clock, and the processes that use it. -/
structure Exchange (M Link : Type) where
  medium : M
  clock : Timestamp
  /-- What each process keeps in order to read from the medium. -/
  links : List Link

namespace Exchange

inductive Act where
  /-- Time passes. -/
  | pass (now : Timestamp)
  | dispatch (message : Bytes)
  | poll (i : Nat)
deriving DecidableEq

section

variable {M Link : Type} [Medium M Link]

/-- So many processes come to the medium. -/
def opened (m : M) (clock : Timestamp) : Nat → Exchange M Link
  | 0 => ⟨m, clock, []⟩
  | n + 1 =>
    let x := opened m clock n
    { x with medium := (Medium.connect x.medium).2, links := x.links ++ [(Medium.connect x.medium).1] }

def step (x : Exchange M Link) : Act → Exchange M Link
  | .pass now => { x with clock := now }
  | .dispatch message =>
    match Medium.send x.clock message x.medium with
    | .ok medium => { x with medium }
    | .error _ => x
  | .poll i =>
    match x.links[i]? with
    | some link => { x with links := x.links.set i (Medium.poll x.clock x.medium link).2 }
    | none => x

def run (x : Exchange M Link) (acts : List Act) : Exchange M Link := acts.foldl step x

/-- What process `i` collects if it polls. -/
def collected (x : Exchange M Link) (i : Nat) : Option (Except StoreError (List Bytes)) :=
  x.links[i]?.map fun link => (Medium.poll x.clock x.medium link).1

/-- A poll concerns the process that polls. -/
theorem step_poll (x : Exchange M Link) (i : Nat) : ∃ links : List Link, x.step (.poll i) = { x with links } ∧
    links.length = x.links.length ∧ ∀ (j : Nat) (link : Link), links[j]? = some link →
      (i = j ∧ ∃ link₀, x.links[j]? = some link₀ ∧ link = (Medium.poll x.clock x.medium link₀).2) ∨
        (i ≠ j ∧ x.links[j]? = some link) := by
  cases hi : x.links[i]? with
  | none =>
    refine ⟨x.links, by rw [step, hi], rfl, fun j link hj => .inr ⟨?_, hj⟩⟩
    rintro rfl
    rw [hi] at hj
    cases hj
  | some link₀ =>
    refine ⟨_, by rw [step, hi], List.length_set, fun j link hj => ?_⟩
    by_cases hij : i = j
    · subst hij
      rw [List.getElem?_set_self (List.getElem?_eq_some_iff.1 hi).1, Option.some.injEq] at hj
      exact .inl ⟨rfl, link₀, hi, hj.symm⟩
    · exact .inr ⟨hij, (List.getElem?_set_ne hij).symm.trans hj⟩

end

/-- The messages dispatched since process `i` last polled, or since the beginning. -/
def news (i : Nat) (acts : List Act) : List Bytes :=
  acts.foldl (fun news act =>
    match act with
    | .pass _ => news
    | .dispatch message => news ++ [message]
    | .poll j => if j = i then [] else news) []

/-- The clock does not go back. A message is dispatched at a time that lies past every process's cursor, and every
process has polled. A process that polls is not behind by more than `retained` messages. -/
def Allows (retained : Nat) (x : Exchange Mailbox Cursor) (before : List Act) : Act → Prop
  | .pass now => x.clock ≤ now
  | .dispatch _ => ∀ c ∈ x.links, ∃ last ∈ c.last, last < x.clock
  | .poll i => (news i before).length ≤ retained

instance (retained : Nat) (x : Exchange Mailbox Cursor) (before : List Act) :
    ∀ act, Decidable (x.Allows retained before act)
  | .pass _ => inferInstanceAs (Decidable (_ ≤ _))
  | .dispatch _ => inferInstanceAs (Decidable (∀ c ∈ x.links, ∃ last ∈ c.last, last < x.clock))
  | .poll _ => inferInstanceAs (Decidable (_ ≤ _))

/-- Each act is allowed when it happens. -/
def Orderly (retained : Nat) (x : Exchange Mailbox Cursor) (acts : List Act) : Prop :=
  ∀ k < acts.length, ∀ act ∈ acts[k]?, (x.run (acts.take k)).Allows retained (acts.take k) act

instance (retained : Nat) (x : Exchange Mailbox Cursor) (acts : List Act) : Decidable (x.Orderly retained acts) :=
  inferInstanceAs (Decidable (∀ k < acts.length, ∀ act ∈ acts[k]?,
    (x.run (acts.take k)).Allows retained (acts.take k) act))

/-! ## Two exchanges side by side -/

theorem news_concat (i : Nat) (acts : List Act) (act : Act) : news i (acts ++ [act]) =
    match act with
    | .pass _ => news i acts
    | .dispatch message => news i acts ++ [message]
    | .poll j => if j = i then [] else news i acts := by
  rw [news, List.foldl_append]
  rfl

theorem opened_mailbox (m : Mailbox) (clock : Timestamp) (n : Nat) :
    opened m clock n = ⟨m, clock, List.replicate n {}⟩ := by
  induction n with
  | zero => rfl
  | succ n ih =>
    rw [opened, ih, List.replicate_succ']
    rfl

theorem opened_bus (b : Bus) (clock : Timestamp) (n : Nat) : opened b clock n =
    ⟨{ b with subscribers := b.subscribers + n }, clock,
      List.replicate n { channels := [Bus.syncChannel], next := b.frames.size }⟩ := by
  induction n with
  | zero => rfl
  | succ n ih =>
    rw [opened, ih, List.replicate_succ']
    rfl

/-- After the same acts, of the same number of processes: each awaits the same messages of both media. -/
structure Alike (retained n : Nat) (acts : List Act) (x : Exchange Mailbox Cursor) (y : Exchange Bus Subscription) :
    Prop where
  readable : x.medium.readFailure = none
  writable : x.medium.writeFailure = none
  past : ∀ l ∈ x.medium.letters, l.time ≤ x.clock
  cursors : x.links.length = n
  cursor : ∀ (i : Nat) (c : Cursor), x.links[i]? = some c → c.Awaits x.medium (news i acts)
  retained : y.medium.retained = retained
  subscribers : n ≤ y.medium.subscribers
  subscriptions : y.links.length = n
  subscription : ∀ (i : Nat) (s : Subscription), y.links[i]? = some s → s.Awaits y.medium (news i acts)

namespace Alike

variable {retained n : Nat} {acts : List Act} {x : Exchange Mailbox Cursor} {y : Exchange Bus Subscription}

theorem opened {m : Mailbox} (b : Bus) {clock : Timestamp} (hreadable : m.readFailure = none)
    (hwritable : m.writeFailure = none) (hold : ∀ l ∈ m.letters, l.time ≤ clock) :
    Alike b.retained n [] (opened m clock n) (opened b clock n) := by
  rw [opened_mailbox, opened_bus]
  refine ⟨hreadable, hwritable, hold, List.length_replicate, fun i c hc => ?_, rfl, Nat.le_add_left _ _,
    List.length_replicate, fun i s hs => ?_⟩
  · obtain rfl := List.eq_of_mem_replicate (List.mem_of_getElem? hc)
    rfl
  · obtain rfl := List.eq_of_mem_replicate (List.mem_of_getElem? hs)
    exact ⟨rfl, Nat.le_refl _, List.drop_eq_nil_of_le (Nat.le_refl _)⟩

theorem pass (h : Alike retained n acts x y) {now : Timestamp} (hle : x.clock ≤ now) :
    Alike retained n (acts ++ [.pass now]) (x.step (.pass now)) (y.step (.pass now)) :=
  { h with
    past := fun l hl => UInt64.le_trans (h.past l hl) hle
    cursor := fun i c hc => news_concat i acts _ ▸ h.cursor i c hc
    subscription := fun i s hs => news_concat i acts _ ▸ h.subscription i s hs }

theorem dispatch (h : Alike retained n acts x y) {message : Bytes}
    (hpassed : ∀ c ∈ x.links, ∃ last ∈ c.last, last < x.clock) :
    Alike retained n (acts ++ [.dispatch message]) (x.step (.dispatch message)) (y.step (.dispatch message)) := by
  have hx : x.step (.dispatch message) =
      { x with medium := { x.medium with letters := x.medium.letters ++ [⟨x.clock, message⟩] } } := by
    have hsend : Medium.send x.clock message x.medium =
        .ok { x.medium with letters := x.medium.letters ++ [⟨x.clock, message⟩] } := by
      show x.medium.insert x.clock message = _
      unfold Mailbox.insert
      split
      · next hfailure =>
        rw [h.writable] at hfailure
        cases hfailure
      · rfl
    rw [step, hsend]
  have hy : y.step (.dispatch message) =
      { y with medium := (y.medium.publish ⟨Bus.syncChannel, message⟩).2 } := rfl
  rw [hx, hy]
  refine ⟨h.readable, h.writable, ?_, h.cursors, ?_, ?_, ?_, h.subscriptions, ?_⟩
  · intro l hl
    rcases List.mem_append.1 hl with hl | hl
    · exact h.past l hl
    · obtain rfl := List.mem_singleton.1 hl
      exact UInt64.le_refl _
  · intro i c hc
    obtain ⟨last, hlast, hlt⟩ := hpassed c (List.mem_of_getElem? hc)
    rw [news_concat]
    exact (h.cursor i c hc).insert hlast hlt h.past message
  · exact (y.medium.retained_publish _).trans h.retained
  · exact Nat.le_trans h.subscribers (Nat.le_of_eq (y.medium.subscribers_publish _).symm)
  · intro i s hs
    have hlt : i < y.links.length := (List.getElem?_eq_some_iff.1 hs).1
    have hsub := h.subscribers
    have hlength := h.subscriptions
    rw [news_concat]
    exact (h.subscription i s hs).publish (by omega) message

/-- What a process awaits when it polls is what it collects, from either medium. -/
theorem collected (h : Alike retained n acts x y) {i : Nat} (hi : i < n)
    (hbehind : (news i acts).length ≤ retained) :
    x.collected i = some (.ok (news i acts)) ∧ y.collected i = some (.ok (news i acts)) := by
  have hc := List.getElem?_eq_getElem (h.cursors.symm ▸ hi : i < x.links.length)
  have hs := List.getElem?_eq_getElem (h.subscriptions.symm ▸ hi : i < y.links.length)
  have hx := ((h.cursor i _ hc).poll h.readable h.past).1
  have hy := ((h.subscription i _ hs).poll (h.retained.symm ▸ hbehind) y.clock).1
  simp only [Exchange.collected, hc, hs, Option.map_some]
  exact ⟨congrArg some hx, congrArg some hy⟩

theorem poll (h : Alike retained n acts x y) {i : Nat} (hbehind : (news i acts).length ≤ retained) :
    Alike retained n (acts ++ [.poll i]) (x.step (.poll i)) (y.step (.poll i)) := by
  obtain ⟨cursors, hx, hcursors, hcursor⟩ := x.step_poll i
  obtain ⟨subscriptions, hy, hsubscriptions, hsubscription⟩ := y.step_poll i
  rw [hx, hy]
  refine ⟨h.readable, h.writable, h.past, hcursors.trans h.cursors, ?_, h.retained, h.subscribers,
    hsubscriptions.trans h.subscriptions, ?_⟩
  · intro j c hc
    simp only [news_concat]
    rcases hcursor j c hc with ⟨rfl, c₀, hc₀, rfl⟩ | ⟨hne, hc⟩
    · rw [if_pos rfl]
      exact ((h.cursor i c₀ hc₀).poll h.readable h.past).2
    · rw [if_neg hne]
      exact h.cursor j c hc
  · intro j s hs
    simp only [news_concat]
    rcases hsubscription j s hs with ⟨rfl, s₀, hs₀, rfl⟩ | ⟨hne, hs⟩
    · rw [if_pos rfl]
      exact ((h.subscription i s₀ hs₀).poll (h.retained.symm ▸ hbehind) y.clock).2
    · rw [if_neg hne]
      exact h.subscription j s hs

theorem step (h : Alike retained n acts x y) {act : Act} (hallowed : x.Allows retained acts act) :
    Alike retained n (acts ++ [act]) (x.step act) (y.step act) := by
  cases act with
  | pass now => exact h.pass hallowed
  | dispatch message => exact h.dispatch hallowed
  | poll i => exact h.poll hallowed

theorem run {x₀ : Exchange Mailbox Cursor} {y₀ : Exchange Bus Subscription} (h : Alike retained n [] x₀ y₀)
    (horderly : x₀.Orderly retained acts) {k : Nat} (hk : k ≤ acts.length) :
    Alike retained n (acts.take k) (x₀.run (acts.take k)) (y₀.run (acts.take k)) := by
  induction k with
  | zero => exact h
  | succ k ih =>
    have hlt : k < acts.length := hk
    have hact := List.getElem?_eq_getElem hlt
    have hallowed := horderly k hlt _ hact
    have hstep := (ih (Nat.le_of_lt hlt)).step hallowed
    simpa only [List.take_add_one, hact, Option.toList_some, Exchange.run, List.foldl_append, List.foldl_cons,
      List.foldl_nil] using hstep

end Alike

/-- As many processes as one likes come to a mailbox that works, or to a bus, and dispatch and poll alike. On both
media each of them collects, whenever it polls, all that was dispatched since it last did. -/
theorem interchangeable (m : Mailbox) (b : Bus) (clock : Timestamp) (n : Nat) (acts : List Act)
    (hreadable : m.readFailure = none) (hwritable : m.writeFailure = none) (hold : ∀ l ∈ m.letters, l.time ≤ clock)
    (horderly : (opened m clock n).Orderly b.retained acts) {k i : Nat} (hi : i < n)
    (hpoll : acts[k]? = some (.poll i)) :
    ((opened m clock n).run (acts.take k)).collected i = ((opened b clock n).run (acts.take k)).collected i ∧
      ((opened m clock n).run (acts.take k)).collected i = some (.ok (news i (acts.take k))) := by
  have hlt := (List.getElem?_eq_some_iff.1 hpoll).1
  have halike := (Alike.opened b hreadable hwritable hold).run horderly (Nat.le_of_lt hlt)
  obtain ⟨hx, hy⟩ := halike.collected hi (horderly k hlt _ hpoll)
  exact ⟨hx.trans hy.symm, hx⟩

/-- Two processes exchange messages by a mailbox in which there is an old letter, and by a bus that retains two frames:
the second one collects two messages at once. -/
theorem interchangeable_for_two :
    let m : Mailbox := { letters := [⟨900, [0]⟩] }
    let b : Bus := { capacity := 2 }
    let acts : List Act := [.poll 0, .poll 1, .pass 1001, .dispatch [1], .dispatch [2], .poll 0, .poll 1, .pass 1005,
      .dispatch [3], .poll 0]
    (opened m 1000 2).Orderly b.retained acts ∧
      ((opened m 1000 2).run (acts.take 6)).collected 1 = some (.ok [[1], [2]]) ∧
      ((opened b 1000 2).run (acts.take 6)).collected 1 = some (.ok [[1], [2]]) := by
  intro m b acts
  have horderly : (opened m 1000 2).Orderly b.retained acts := by decide +kernel
  obtain ⟨hsame, hcollected⟩ := interchangeable m b 1000 2 acts rfl rfl (by decide) horderly (i := 1) (k := 6)
    (by decide) rfl
  exact ⟨horderly, hcollected, hsame.symm.trans hcollected⟩

end Exchange

end Moderation
