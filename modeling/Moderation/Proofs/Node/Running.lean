import Mathlib.Algebra.Order.Ring.Nat
import Mathlib.Data.List.Induction
import Moderation.Node.Cluster
import Moderation.Proofs.Node.Validity
/-!
# Nodes that are started and shut down

A node keeps a list of the loops that it has begun, and all its loops watch one signal. Starting begins two loops and
lists them, if none are listed; shutting down sets the signal and empties the list. A loop that finds its round due and
the signal set may turn to either first. `runs_unless_restarted` says which loops are left once all of them have done
what they can, whatever calls there were and in whatever order the loops had their turns. The signal stays set, so the
loops of a node that is started again after a shutdown end at once, and the node counts as running all the same.
-/

namespace Moderation

namespace Node

/-! ## Loops and what they watch -/

/-- The value that the loops of a node watch, and how often it was set. -/
structure Signal where
  value : Bool := false
  version : Nat := 0
deriving DecidableEq

def Signal.send (value : Bool) (s : Signal) : Signal where
  value := value
  version := s.version + 1

/-- A loop that was begun, and the version of the signal that it has seen. -/
structure Job where
  chore : Chore
  ticker : Ticker
  seen : Nat := 0
deriving DecidableEq

namespace Job

/-- The loop has something to do: it has not ended, and its round is due or the signal was set since it last looked. -/
def Ready (now : Nat) (s : Signal) (j : Job) : Prop :=
  j.ticker.ended = false ∧ (j.ticker.due ≤ now ∨ j.seen ≠ s.version)

instance (now : Nat) (s : Signal) (j : Job) : Decidable (j.Ready now s) := inferInstanceAs (Decidable (_ ∧ _))

/-- What the loop does over and over, if it has not ended. -/
def live? (j : Job) : Option Chore := if j.ticker.ended then none else some j.chore

/-- How many turns the loop can have at most before it has nothing to do, if it has a period. -/
def pending (now : Nat) (s : Signal) (j : Job) : Nat :=
  if j.ticker.ended then 0 else (now + 1 - j.ticker.due) + if j.seen = s.version then 0 else 1

/-- The loop has done its round. The next one is due a period after this one was, or a period from now if this one was
late. -/
def rounded (now : Nat) (late : Bool) (j : Job) : Job :=
  { j with ticker := { j.ticker with due := (if late then now else j.ticker.due) + j.ticker.period } }

/-- The loop has looked at the signal, and ends if the value is true. -/
def looked (s : Signal) (j : Job) : Job :=
  { j with seen := s.version, ticker := if s.value then j.ticker.stop else j.ticker }

end Job

/-- A node's loops and what decides about them. -/
structure Upkeep where
  elapsed : Nat := 0
  signal : Signal := {}
  /-- All loops that were begun. -/
  jobs : List Job := []
  /-- Which of them are listed. -/
  listed : List Nat := []
  /-- The rounds that there were. -/
  rounds : List Chore := []
deriving DecidableEq

namespace Upkeep

inductive Call where
  | start
  | shutdown
deriving DecidableEq

inductive Act where
  | call (c : Call)
  /-- Time goes by. -/
  | pass (ms : Nat)
  /-- The `i`-th loop does its round, if it is due: a whole poll or a whole sweep. -/
  | round (i : Nat) (late : Bool)
  /-- The `i`-th loop looks at the signal, if that was set since it last looked. -/
  | look (i : Nat)
deriving DecidableEq

def Act.call? : Act → Option Call
  | call c => some c
  | pass _ | round _ _ | look _ => none

/-- The act is a loop's turn. -/
def Act.IsTurn : Act → Prop
  | round _ _ | look _ => True
  | call _ | pass _ => False

/-- The node counts as running: loops are listed. -/
def running (r : Upkeep) : Bool := !r.listed.isEmpty

/-- What the loops do that have not ended. -/
def live (r : Upkeep) : List Chore := r.jobs.filterMap Job.live?

/-- No loop has anything to do. -/
def Settled (r : Upkeep) : Prop := ∀ j ∈ r.jobs, ¬j.Ready r.elapsed r.signal

instance (r : Upkeep) : Decidable r.Settled := inferInstanceAs (Decidable (∀ j ∈ r.jobs, _))

/-- The two loops that a start begins. -/
def begun (config : Config) (now : Nat) : List Job :=
  (Loops.start now config.sync.pollInterval.toNat config.muteCache.purgeInterval.toNat).toList.map fun l =>
    { chore := l.1, ticker := l.2 }

def step (config : Config) (r : Upkeep) : Act → Upkeep
  | .call .start =>
    if r.running then r
    else { r with jobs := r.jobs ++ begun config r.elapsed, listed := [r.jobs.length, r.jobs.length + 1] }
  -- The call comes back once the loops that were listed have ended.
  | .call .shutdown => { r with signal := r.signal.send true, listed := [] }
  | .pass ms => { r with elapsed := r.elapsed + ms }
  | .round i late =>
    match r.jobs[i]? with
    | some j =>
      if j.ticker.ended = false ∧ j.ticker.due ≤ r.elapsed then
        { r with jobs := r.jobs.set i (j.rounded r.elapsed late), rounds := r.rounds ++ [j.chore] }
      else r
    | none => r
  | .look i =>
    match r.jobs[i]? with
    | some j =>
      if j.ticker.ended = false ∧ j.seen ≠ r.signal.version then { r with jobs := r.jobs.set i (j.looked r.signal) }
      else r
    | none => r

def run (config : Config) (r : Upkeep) (acts : List Act) : Upkeep := acts.foldl (step config) r

variable {config : Config} {r r' : Upkeep} {act : Act} {acts : List Act} {calls : List Call}

theorem run_concat (config : Config) (r : Upkeep) (acts : List Act) (act : Act) :
    r.run config (acts ++ [act]) = (r.run config acts).step config act := by
  simp [run]

/-! ## Turns -/

/-- A loop has its turn and does its round, or looks at the signal. -/
inductive Turn (r : Upkeep) : Upkeep → Prop
  | round {before after : List Job} {j : Job} (late : Bool) : r.jobs = before ++ j :: after →
      j.ticker.ended = false → j.ticker.due ≤ r.elapsed →
      Turn r { r with jobs := before ++ j.rounded r.elapsed late :: after, rounds := r.rounds ++ [j.chore] }
  | look {before after : List Job} {j : Job} : r.jobs = before ++ j :: after →
      j.ticker.ended = false → j.seen ≠ r.signal.version →
      Turn r { r with jobs := before ++ j.looked r.signal :: after }

theorem turn_round {i : Nat} {j : Job} (hi : r.jobs[i]? = some j) (hlive : j.ticker.ended = false)
    (hdue : j.ticker.due ≤ r.elapsed) (late : Bool) : Turn r (r.step config (.round i late)) := by
  obtain ⟨hlt, rfl⟩ := List.getElem?_eq_some_iff.1 hi
  obtain ⟨before, after, hjobs, -, hset⟩ := @List.exists_of_set _ i (r.jobs[i].rounded r.elapsed late) _ hlt
  simp only [step, hi, hlive, hdue, and_self, if_true, hset]
  exact .round late hjobs hlive hdue

theorem turn_look {i : Nat} {j : Job} (hi : r.jobs[i]? = some j) (hlive : j.ticker.ended = false)
    (hseen : j.seen ≠ r.signal.version) : Turn r (r.step config (.look i)) := by
  obtain ⟨hlt, rfl⟩ := List.getElem?_eq_some_iff.1 hi
  obtain ⟨before, after, hjobs, -, hset⟩ := @List.exists_of_set _ i (r.jobs[i].looked r.signal) _ hlt
  simp only [step, hi, hlive, ne_eq, hseen, not_false_eq_true, and_self, if_true, hset]
  exact .look hjobs hlive hseen

/-- A loop that has nothing to do does nothing. -/
theorem step_turn (config : Config) (r : Upkeep) (h : act.IsTurn) :
    r.step config act = r ∨ Turn r (r.step config act) := by
  cases act with
  | call | pass => exact h.elim
  | round i late =>
    cases hi : r.jobs[i]? with
    | none => exact .inl (by simp only [step, hi])
    | some j =>
      by_cases hready : j.ticker.ended = false ∧ j.ticker.due ≤ r.elapsed
      · exact .inr (turn_round hi hready.1 hready.2 late)
      · exact .inl (by simp only [step, hi, hready, if_false])
  | look i =>
    cases hi : r.jobs[i]? with
    | none => exact .inl (by simp only [step, hi])
    | some j =>
      by_cases hready : j.ticker.ended = false ∧ j.seen ≠ r.signal.version
      · exact .inr (turn_look hi hready.1 hready.2)
      · exact .inl (by simp only [step, hi, hready, if_false])

theorem exists_turn (config : Config) (h : ¬r.Settled) : ∃ act : Act, act.IsTurn ∧ Turn r (r.step config act) := by
  simp only [Settled, not_forall, not_not] at h
  obtain ⟨j, hj, hlive, hready⟩ := h
  obtain ⟨i, hi⟩ := List.mem_iff_getElem?.1 hj
  rcases hready with hdue | hseen
  · exact ⟨.round i false, trivial, turn_round hi hlive hdue false⟩
  · exact ⟨.look i, trivial, turn_look hi hlive hseen⟩

theorem Turn.exists_live (h : Turn r r') : ∃ j ∈ r.jobs, j.ticker.ended = false := by
  cases h with
  | round _ hjobs hlive _ | look hjobs hlive _ => exact ⟨_, by simp [hjobs], hlive⟩

/-- What is true of every loop stays true if it does of the loop that has its turn. -/
theorem Turn.forall_mem {P : Job → Prop} (h : Turn r r') (hr : ∀ j ∈ r.jobs, P j)
    (hround : ∀ j late, j.ticker.ended = false → P j → P (j.rounded r.elapsed late))
    (hlook : ∀ j, j.ticker.ended = false → j.seen ≠ r.signal.version → P j → P (j.looked r.signal)) :
    ∀ j ∈ r'.jobs, P j := by
  cases h with
  | round late hjobs hlive hdue =>
    simp only [hjobs, List.forall_mem_append, List.forall_mem_cons] at hr ⊢
    exact ⟨hr.1, hround _ late hlive hr.2.1, hr.2.2⟩
  | look hjobs hlive hseen =>
    simp only [hjobs, List.forall_mem_append, List.forall_mem_cons] at hr ⊢
    exact ⟨hr.1, hlook _ hlive hseen hr.2.1, hr.2.2⟩

/-! ## Settling -/

/-- How many turns there can be before no loop has anything to do: rounds that are due, and looks at the signal. -/
def pending (r : Upkeep) : Nat := (r.jobs.map (Job.pending r.elapsed r.signal)).sum

/-- Every loop has a period. -/
def Periodic (r : Upkeep) : Prop := ∀ j ∈ r.jobs, 0 < j.ticker.period

theorem Turn.periodic (h : Turn r r') (hr : r.Periodic) : r'.Periodic := by
  refine h.forall_mem hr (fun j late _ hj => hj) fun j _ _ hj => ?_
  simp only [Job.looked]
  split <;> exact hj

theorem Turn.pending_lt (h : Turn r r') (hr : r.Periodic) : r'.pending < r.pending := by
  cases h with
  | @round before after j late hjobs hlive hdue =>
    have hperiod := hr j (by simp [hjobs])
    have hlt : (j.rounded r.elapsed late).pending r.elapsed r.signal < j.pending r.elapsed r.signal := by
      simp only [Job.pending, Job.rounded, hlive, Bool.false_eq_true, if_false]
      split <;> split <;> omega
    simp only [pending, hjobs, List.map_append, List.map_cons, List.sum_append, List.sum_cons]
    omega
  | @look before after j hjobs hlive hseen =>
    have hlt : (j.looked r.signal).pending r.elapsed r.signal < j.pending r.elapsed r.signal := by
      simp only [Job.pending, hlive, hseen, Job.looked, Bool.false_eq_true, if_false, if_true]
      by_cases hvalue : r.signal.value = true
      · simp [hvalue, Ticker.stop]
      · simp [hvalue, hlive]
    simp only [pending, hjobs, List.map_append, List.map_cons, List.sum_append, List.sum_cons]
    omega

/-- The loops can have turns until none of them has anything to do. -/
theorem exists_settled (hr : r.Periodic) :
    ∃ turns : List Act, (∀ act ∈ turns, act.IsTurn) ∧ (r.run config turns).Settled := by
  induction hn : r.pending using Nat.strongRecOn generalizing r with
  | ind n ih =>
    by_cases hsettled : r.Settled
    · exact ⟨[], by simp, hsettled⟩
    · obtain ⟨act, hact, hturn⟩ := exists_turn config hsettled
      subst hn
      obtain ⟨turns, hturns, hrun⟩ := ih _ (hturn.pending_lt hr) (hturn.periodic hr) rfl
      exact ⟨act :: turns, List.forall_mem_cons.2 ⟨hact, hturns⟩, hrun⟩

/-! ## What the calls decide -/

/-- What is so after the calls, whatever turns the loops have had: the node counts as running if the last call started
it, the signal was set at every shutdown, no loop that goes on has seen it, and until the first shutdown the loops of
the first start go on. -/
structure Follows (calls : List Call) (r : Upkeep) : Prop where
  periodic : r.Periodic
  running : r.running = true ↔ calls.getLast? = some .start
  value : r.signal.value = decide (.shutdown ∈ calls)
  version : r.signal.version = calls.count .shutdown
  unseen : ∀ j ∈ r.jobs, j.ticker.ended = false → j.seen = 0
  live : .shutdown ∉ calls → r.live = if .start ∈ calls then [.poll, .sweep] else []

theorem Follows.version_eq_zero (h : r.Follows calls) : r.signal.version = 0 ↔ .shutdown ∉ calls := by
  rw [h.version, List.count_eq_zero]

/-- Whoever was not started last was shut down, or nothing was called. -/
theorem eq_nil_of_never (hlast : calls.getLast? ≠ some .start) (hnever : .shutdown ∉ calls) : calls = [] := by
  rcases List.eq_nil_or_concat calls with hnil | ⟨earlier, last, rfl⟩
  · exact hnil
  · cases last with
    | start => exact absurd (by simp) hlast
    | shutdown => exact absurd (by simp) hnever

theorem follows_nil : Follows [] {} where
  periodic j hj := absurd hj List.not_mem_nil
  running := by simp [running]
  value := rfl
  version := rfl
  unseen j hj := absurd hj List.not_mem_nil
  live _ := rfl

theorem Follows.turn (h : r.Follows calls) (hturn : Turn r r') : r'.Follows calls where
  periodic := hturn.periodic h.periodic
  running := by cases hturn <;> exact h.running
  value := by cases hturn <;> exact h.value
  version := by cases hturn <;> exact h.version
  unseen := by
    refine hturn.forall_mem h.unseen (fun j late _ hj => hj) fun j hlive hseen hj hended => ?_
    -- The value is true, and the loop has ended.
    have hset : r.signal.version ≠ 0 := fun hzero => hseen ((hj hlive).trans hzero.symm)
    have hvalue : r.signal.value = true := by
      rw [h.value, decide_eq_true_iff]
      exact Decidable.not_not.1 (mt h.version_eq_zero.2 hset)
    simp [Job.looked, hvalue, Ticker.stop] at hended
  live hnever := by
    rw [← h.live hnever]
    cases hturn with
    | @round before after j late hjobs hlive hdue =>
      have hsame : (j.rounded r.elapsed late).live? = j.live? := rfl
      simp only [Upkeep.live, hjobs, List.filterMap_append, List.filterMap_cons, hsame]
    | look hjobs hlive hseen =>
      have hzero := h.version_eq_zero.2 hnever
      exact absurd ((h.unseen _ (by simp [hjobs]) hlive).trans hzero.symm) hseen

theorem live_begun (hconfig : config.validate = .ok ()) (now : Nat) :
    (begun config now).filterMap Job.live? = [.poll, .sweep] := by
  obtain ⟨hpoll, hsweep⟩ := Config.intervals_pos hconfig
  simp [begun, Loops.toList, Loops.start, Ticker.start, Job.live?, Nat.ne_of_gt hpoll, Nat.ne_of_gt hsweep]

theorem Follows.start (h : r.Follows calls) (hconfig : config.validate = .ok ()) :
    (r.step config (.call .start)).Follows (calls ++ [.start]) := by
  have hshutdown : Call.shutdown ∈ calls ++ [.start] ↔ .shutdown ∈ calls := by simp
  obtain ⟨hpoll, hsweep⟩ := Config.intervals_pos hconfig
  by_cases hrunning : r.running = true
  · have hstep : r.step config (.call .start) = r := if_pos hrunning
    rw [hstep]
    exact {
      periodic := h.periodic
      running := by simp [hrunning]
      value := by simp only [h.value, hshutdown]
      version := by simp [h.version]
      unseen := h.unseen
      live hnever := by
        have hstarted : .start ∈ calls := List.mem_of_getLast? (h.running.1 hrunning)
        rw [h.live (mt hshutdown.2 hnever), if_pos hstarted, if_pos (List.mem_append_left _ hstarted)] }
  · have hstep : r.step config (.call .start) = _ := if_neg hrunning
    rw [hstep]
    exact {
      periodic := by
        refine List.forall_mem_append.2 ⟨h.periodic, ?_⟩
        simp [begun, Loops.toList, Loops.start, Ticker.start, hpoll, hsweep]
      running := by simp [Upkeep.running]
      value := by simp only [h.value, hshutdown]
      version := by simp [h.version]
      unseen := by
        refine List.forall_mem_append.2 ⟨h.unseen, ?_⟩
        simp [begun, Loops.toList]
      live hnever := by
        obtain rfl := eq_nil_of_never (mt h.running.2 hrunning) (mt hshutdown.2 hnever)
        have hlive : r.live = [] := h.live List.not_mem_nil
        rw [Upkeep.live, List.filterMap_append, live_begun hconfig]
        change r.live ++ _ = _
        rw [hlive]
        rfl }

theorem Follows.shutdown (h : r.Follows calls) :
    (r.step config (.call .shutdown)).Follows (calls ++ [.shutdown]) where
  periodic := h.periodic
  running := by simp [step, Upkeep.running]
  value := by simp [step, Signal.send]
  version := by simp [step, Signal.send, h.version]
  unseen := h.unseen
  live hnever := absurd (List.mem_append_right calls (List.mem_singleton_self _)) hnever

theorem Follows.pass (h : r.Follows calls) (ms : Nat) : (r.step config (.pass ms)).Follows calls where
  periodic := h.periodic
  running := h.running
  value := h.value
  version := h.version
  unseen := h.unseen
  live := h.live

theorem follows_run (hconfig : config.validate = .ok ()) (acts : List Act) :
    (run config {} acts).Follows (acts.filterMap Act.call?) := by
  induction acts using List.reverseRecOn with
  | nil => exact follows_nil
  | append_singleton acts act ih =>
    rw [run_concat, List.filterMap_append]
    have hturn (h : act.IsTurn) : (step config (run config {} acts) act).Follows (acts.filterMap Act.call?) := by
      rcases step_turn config (run config {} acts) h with heq | hturn
      · rw [heq]
        exact ih
      · exact ih.turn hturn
    cases act with
    | call c =>
      cases c with
      | start => exact ih.start hconfig
      | shutdown => exact ih.shutdown
    | pass ms =>
      rw [List.filterMap_cons_none rfl, List.filterMap_nil, List.append_nil]
      exact ih.pass ms
    | round | look =>
      rw [List.filterMap_cons_none rfl, List.filterMap_nil, List.append_nil]
      exact hturn trivial

/-! ## Settled nodes -/

/-- The node does what it was last called to do: its two loops go on if that was to start, no loop is left otherwise,
and it counts as running if the two loops go on. -/
def AsCalled (calls : List Call) (r : Upkeep) : Prop :=
  (calls.getLast? = some .start → r.live = [.poll, .sweep]) ∧ (calls.getLast? ≠ some .start → r.live = []) ∧
    (r.running = true ↔ r.live = [.poll, .sweep])

theorem live_eq_nil_iff : r.live = [] ↔ ∀ j ∈ r.jobs, j.ticker.ended = true := by
  simp [live, List.filterMap_eq_nil_iff, Job.live?]

theorem Follows.live_of_settled (h : r.Follows calls) (hsettled : r.Settled) :
    r.live = if .start ∈ calls ∧ .shutdown ∉ calls then [.poll, .sweep] else [] := by
  by_cases hnever : .shutdown ∈ calls
  · rw [if_neg (by simp [hnever]), live_eq_nil_iff]
    intro j hj
    rw [← Bool.not_eq_false]
    intro hlive
    -- The loop has not seen the signal, and so it is not settled.
    apply hsettled j hj
    refine ⟨hlive, .inr ?_⟩
    rw [h.unseen j hj hlive]
    exact fun hzero => h.version_eq_zero.1 hzero.symm hnever
  · rw [h.live hnever]
    simp only [hnever, not_false_eq_true, and_true]

theorem Follows.asCalled_iff (h : r.Follows calls) (hsettled : r.Settled) :
    r.AsCalled calls ↔ ¬(calls.getLast? = some .start ∧ .shutdown ∈ calls) := by
  have hlive := h.live_of_settled hsettled
  by_cases hlast : calls.getLast? = some .start
  · have hstart : .start ∈ calls := List.mem_of_getLast? hlast
    simp only [AsCalled, hlast, h.running, hlive, hstart, true_and]
    by_cases hshutdown : .shutdown ∈ calls
    · simp [hshutdown]
    · simp [hshutdown]
  · have hnone : r.live = [] := by
      rw [hlive]
      by_cases hshutdown : .shutdown ∈ calls
      · simp [hshutdown]
      · simp [eq_nil_of_never hlast hshutdown]
    simp [AsCalled, hlast, h.running, hnone]

/-- Where no loop goes on there is no round, and none begins to go on unless the node is started. -/
theorem quiet_step (config : Config) (hlive : r.live = []) (hact : act ≠ .call .start) :
    (r.step config act).live = [] ∧ (r.step config act).rounds = r.rounds := by
  have hquiet (hturn : act.IsTurn) : r.step config act = r := by
    rcases step_turn config r hturn with heq | hturn
    · exact heq
    · obtain ⟨j, hj, hgoes⟩ := hturn.exists_live
      rw [live_eq_nil_iff.1 hlive j hj] at hgoes
      cases hgoes
  cases act with
  | call c =>
    cases c with
    | start => exact absurd rfl hact
    | shutdown => exact ⟨hlive, rfl⟩
  | pass => exact ⟨hlive, rfl⟩
  | round | look =>
    rw [hquiet trivial]
    exact ⟨hlive, rfl⟩

theorem rounds_run (hlive : r.live = []) (hacts : .call .start ∉ acts) : (r.run config acts).rounds = r.rounds := by
  induction acts generalizing r with
  | nil => rfl
  | cons act acts ih =>
    simp only [List.mem_cons, not_or] at hacts
    obtain ⟨hstep, hrounds⟩ := quiet_step config hlive (Ne.symm hacts.1)
    exact (ih hstep hacts.2).trans hrounds

end Upkeep

/-! ## Nodes of a cluster -/

namespace Lifecycle

open Upkeep

variable {l : Lifecycle} {calls : List Call}

/-- What the loops do that have not ended. -/
def live (l : Lifecycle) : List Chore := l.chores.filterMap fun t => if t.2.ended then none else some t.1

/-- What is so after the calls. -/
structure Follows (calls : List Call) (l : Lifecycle) : Prop where
  running : l.running = true ↔ calls.getLast? = some .start
  halted : l.halted = decide (.shutdown ∈ calls)
  live : l.live = if .start ∈ calls ∧ .shutdown ∉ calls then [.poll, .sweep] else []

theorem follows_nil : Follows [] {} where
  running := by simp [Lifecycle.running]
  halted := rfl
  live := rfl

theorem Follows.start (h : l.Follows calls) {poll sweep : Nat} (hpoll : 0 < poll) (hsweep : 0 < sweep) (now : Nat) :
    (l.start now poll sweep).Follows (calls ++ [.start]) := by
  cases hloops : l.loops with
  | some loops =>
    have hstart : l.start now poll sweep = l := by simp only [Lifecycle.start, hloops]
    have hrunning : l.running = true := by simp [Lifecycle.running, hloops]
    have hstarted : .start ∈ calls := List.mem_of_getLast? (h.running.1 hrunning)
    rw [hstart]
    exact {
      running := by simp [hrunning]
      halted := by simp [h.halted]
      live := by simp [h.live, hstarted] }
  | none =>
    have hstart : l.start now poll sweep = { l with
        loops := some (if l.halted then (Loops.start now poll sweep).map Ticker.stop
          else Loops.start now poll sweep) } := by
      simp only [Lifecycle.start, hloops]
    rw [hstart]
    exact {
      running := by simp [Lifecycle.running]
      halted := by simp [h.halted]
      live := by
        by_cases hshutdown : .shutdown ∈ calls
        · simp [Lifecycle.live, chores, h.halted, hshutdown, Loops.map, Loops.toList, Ticker.stop]
        · simp [Lifecycle.live, chores, h.halted, hshutdown, Loops.start, Loops.toList, Ticker.start,
            Nat.ne_of_gt hpoll, Nat.ne_of_gt hsweep] }

theorem Follows.shutdown (_ : l.Follows calls) : l.shutdown.Follows (calls ++ [.shutdown]) where
  running := by simp [Lifecycle.running, Lifecycle.shutdown]
  halted := by simp [Lifecycle.shutdown]
  live := by simp [Lifecycle.live, Lifecycle.shutdown, chores]

theorem Follows.passed (h : l.Follows calls) (upTo : Nat) : (l.passed upTo).Follows calls where
  running := by simpa [Lifecycle.running, Lifecycle.passed] using h.running
  halted := h.halted
  live := by
    rw [← h.live]
    unfold Lifecycle.live chores Lifecycle.passed
    cases l.loops <;> rfl

end Lifecycle

end Node

namespace Cluster

open Node Upkeep

variable {M Link : Type} {c : Cluster M Link} {i : Nat} {n : Node Link}

theorem getElem?_modifyNode_self (hn : c.nodes[i]? = some n) (f : Node Link → Node Link) :
    (c.modifyNode i f).nodes[i]? = some (f n) := by
  simp [modifyNode, Array.getElem?_modify, hn]

theorem getElem?_passed (hn : c.nodes[i]? = some n) (upTo : Nat) :
    (c.nodes.map (Node.passed upTo))[i]? = some (n.passed upTo) := by
  rw [Array.getElem?_map, hn, Option.map_some]

theorem mem_chores_of_mem_loops {chore : Chore} {t : Ticker} (h : ((i, chore), t) ∈ c.loops)
    (hn : c.nodes[i]? = some n) : (chore, t) ∈ n.lifecycle.chores := by
  simp only [loops, List.mem_flatMap, List.mem_zipIdx_iff_getElem?, List.mem_map, Prod.mk.injEq] at h
  obtain ⟨⟨n', i'⟩, hn', ⟨_, _⟩, hchore, ⟨rfl, rfl⟩, rfl⟩ := h
  rw [Array.getElem?_toList, hn] at hn'
  obtain rfl := Option.some.inj hn'
  exact hchore

/-- Only loops that go on have rounds. -/
theorem exists_of_mem_firings {α : Type} {loops : List (α × Ticker)} {upTo : Nat} {a : α}
    (h : a ∈ Schedule.firings loops upTo) : ∃ t, (a, t) ∈ loops ∧ t.ended = false := by
  simp only [Schedule.firings, List.mem_map, List.mem_mergeSort, List.mem_flatMap] at h
  obtain ⟨_, ⟨⟨a, t⟩, hmem, instant, hinstant, rfl⟩, rfl⟩ := h
  refine ⟨t, hmem, ?_⟩
  rw [← Bool.not_eq_true]
  intro hended
  simp [Ticker.instants, Ticker.rounds, hended] at hinstant

variable [Medium M Link]

/-- What a node does at its chores changes neither its configuration nor its loops. -/
theorem getElem?_foldl_tend (due : List (Nat × Chore)) (hn : c.nodes[i]? = some n) :
    ∃ n', (due.foldl tend c).nodes[i]? = some n' ∧ n'.config = n.config ∧ n'.lifecycle = n.lifecycle := by
  induction due generalizing c n with
  | nil => exact ⟨n, hn, rfl, rfl⟩
  | cons chore due ih =>
    by_cases hi : chore.1 = i
    · subst hi
      obtain ⟨n', hn', hconfig, hlifecycle⟩ := ih (getElem?_modifyNode_self hn _)
      refine ⟨n', hn', hconfig.trans ?_, hlifecycle.trans ?_⟩ <;> cases chore.2 <;> rfl
    · apply ih
      simpa [tend, modifyNode, Array.getElem?_modify, hi] using hn

/-- Chores of other nodes leave a node alone. -/
theorem getElem?_foldl_tend_of_ne {due : List (Nat × Chore)} (h : ∀ chore ∈ due, chore.1 ≠ i) :
    (due.foldl tend c).nodes[i]? = c.nodes[i]? := by
  induction due generalizing c with
  | nil => rfl
  | cons chore due ih =>
    obtain ⟨hne, hrest⟩ := List.forall_mem_cons.1 h
    rw [List.foldl_cons, ih hrest]
    simp [tend, modifyNode, Array.getElem?_modify, hne]

/-- The time that goes by for a node's loops. -/
theorem getElem?_sleep (hn : c.nodes[i]? = some n) (ms : Nat) :
    ∃ n', (c.sleep ms).nodes[i]? = some n' ∧ n'.config = n.config ∧
      n'.lifecycle = n.lifecycle.passed (c.elapsed + ms) := by
  let later := { c with elapsed := c.elapsed + ms, nodes := c.nodes.map (Node.passed (c.elapsed + ms)) }
  have hlater : later.nodes[i]? = some (n.passed (c.elapsed + ms)) := getElem?_passed hn _
  exact getElem?_foldl_tend (Schedule.firings c.loops (c.elapsed + ms)) hlater

/-- A node none of whose loops goes on only lets the time go by. -/
theorem getElem?_sleep_of_quiet (hn : c.nodes[i]? = some n) (hlive : n.lifecycle.live = []) (ms : Nat) :
    (c.sleep ms).nodes[i]? = some (n.passed (c.elapsed + ms)) := by
  have hothers : ∀ chore ∈ Schedule.firings c.loops (c.elapsed + ms), chore.1 ≠ i := by
    rintro ⟨_, chore⟩ hchore rfl
    obtain ⟨t, ht, hgoes⟩ := exists_of_mem_firings hchore
    simp only [Lifecycle.live, List.filterMap_eq_nil_iff] at hlive
    have hended := hlive _ (mem_chores_of_mem_loops ht hn)
    simp [hgoes] at hended
  exact (getElem?_foldl_tend_of_ne hothers).trans (getElem?_passed hn _)

/-- A cluster in which the `i`-th node is called and time goes by. Loops have their turns of themselves. -/
def follow (i : Nat) (c : Cluster M Link) : Act → Cluster M Link
  | .call .start => c.start i
  | .call .shutdown => c.shutdown i
  | .pass ms => c.sleep ms
  | .round _ _ | .look _ => c

/-- A node that was never called follows the calls. -/
theorem follows_follow {config : Config} (hconfig : config.validate = .ok ()) (hn : c.nodes[i]? = some n)
    (hset : n.config = config) (hnever : n.lifecycle = {}) (acts : List Act) :
    ∃ n', (acts.foldl (follow i) c).nodes[i]? = some n' ∧ n'.config = config ∧
      n'.lifecycle.Follows (acts.filterMap Act.call?) := by
  obtain ⟨hpoll, hsweep⟩ := Config.intervals_pos hconfig
  induction acts using List.reverseRecOn with
  | nil => exact ⟨n, hn, hset, hnever ▸ Lifecycle.follows_nil⟩
  | append_singleton acts act ih =>
    obtain ⟨n', hn', hset', hfollows⟩ := ih
    rw [List.foldl_append, List.filterMap_append]
    cases act with
    | call call =>
      cases call with
      | start =>
        obtain ⟨n'', hn'', hset'', hlifecycle⟩ := getElem?_sleep (getElem?_modifyNode_self hn' _) 0
        refine ⟨n'', hn'', hset''.trans hset', ?_⟩
        rw [hlifecycle]
        subst hset'
        exact (hfollows.start hpoll hsweep _).passed _
      | shutdown =>
        refine ⟨_, getElem?_modifyNode_self hn' _, hset', hfollows.shutdown⟩
    | pass ms =>
      obtain ⟨n'', hn'', hset'', hlifecycle⟩ := getElem?_sleep hn' ms
      refine ⟨n'', hn'', hset''.trans hset', ?_⟩
      rw [hlifecycle, List.filterMap_cons_none rfl, List.filterMap_nil, List.append_nil]
      exact hfollows.passed _
    | round | look =>
      rw [List.filterMap_cons_none rfl, List.filterMap_nil, List.append_nil]
      exact ⟨n', hn', hset', hfollows⟩

end Cluster

namespace Node.Upkeep

variable {M Link : Type} [Medium M Link]

/-- Whatever calls a node with a valid configuration was given, and in whatever order its loops had their turns: it
counts as running if the last call started it. Its loops can have turns until none of them has anything to do. Then the
two loops go on if the node was started and never shut down, and otherwise none does. So it does what it was last called
to do unless it was started again after a shutdown. Where no loop goes on there is no round until the node is started.
A node of a cluster that is given the calls counts as running alike and is left with the same loops, and with its
chores undone while none goes on. -/
theorem runs_unless_restarted (config : Config) (hconfig : config.validate = .ok ()) (acts : List Act) :
    let r := run config {} acts
    let calls := acts.filterMap Act.call?
    (r.running = true ↔ calls.getLast? = some .start) ∧
    (∃ turns : List Act, (∀ act ∈ turns, act.IsTurn) ∧ (r.run config turns).Settled) ∧
    (r.Settled → r.live = (if .start ∈ calls ∧ .shutdown ∉ calls then [.poll, .sweep] else []) ∧
      (r.AsCalled calls ↔ ¬(calls.getLast? = some .start ∧ .shutdown ∈ calls))) ∧
    (r.live = [] → ∀ more : List Act, .call .start ∉ more → (r.run config more).rounds = r.rounds) ∧
    ∀ (c : Cluster M Link) (i : Nat) (n : Node Link), c.nodes[i]? = some n → n.config = config → n.lifecycle = {} →
      let c' := acts.foldl (Cluster.follow i) c
      ∃ n', c'.nodes[i]? = some n' ∧ n'.lifecycle.running = r.running ∧
        (r.Settled → n'.lifecycle.live = r.live) ∧
        (n'.lifecycle.live = [] → ∀ ms, (c'.sleep ms).nodes[i]? = some (n'.passed (c'.elapsed + ms))) := by
  intro r calls
  have hfollows : r.Follows calls := follows_run hconfig acts
  refine ⟨hfollows.running, exists_settled hfollows.periodic, ?_, fun hlive more => rounds_run hlive, ?_⟩
  · intro hsettled
    exact ⟨hfollows.live_of_settled hsettled, hfollows.asCalled_iff hsettled⟩
  · intro c i n hn hset hnever c'
    obtain ⟨n', hn', -, hcluster⟩ := Cluster.follows_follow hconfig hn hset hnever acts
    refine ⟨n', hn', ?_, fun hsettled => ?_, Cluster.getElem?_sleep_of_quiet hn'⟩
    · rw [Bool.eq_iff_iff, hcluster.running, hfollows.running]
    · rw [hcluster.live, hfollows.live_of_settled hsettled]

/-- A node that is started twice runs until it is shut down. Its second poll is late. -/
theorem runs_until_shutdown :
    let before : List Act := [.call .start, .round 0 false, .pass 60000, .call .start, .round 0 true, .round 1 false]
    let r := run {} {} before
    let r' := run {} {} (before ++ [.call .shutdown, .look 1, .look 0])
    let n : Node Cursor := Node.ofConfig {} default {} .silent
    let c : Cluster Mailbox Cursor := { medium := {}, now := ⟨0, 0⟩, nodes := #[n] }
    Config.validate {} = .ok () ∧ r.AsCalled [.start, .start] ∧ r'.AsCalled [.start, .start, .shutdown] ∧
      (∀ more : List Act, .call .start ∉ more → (r'.run {} more).rounds = [.poll, .poll, .sweep]) ∧
      ∃ n', (before.foldl (Cluster.follow 0) c).nodes[0]? = some n' ∧ n'.lifecycle.running = r.running ∧
        n'.lifecycle.live = r.live := by
  intro before r r' n c
  have hvalid : Config.validate {} = .ok () := rfl
  have hsettled : r.Settled := by decide
  have hsettled' : r'.Settled := by decide
  obtain ⟨-, -, hcalled, -, hcluster⟩ := runs_unless_restarted (M := Mailbox) {} hvalid before
  obtain ⟨-, -, hcalled', hquiet', -⟩ := runs_unless_restarted (M := Mailbox) {} hvalid
    (before ++ [.call .shutdown, .look 1, .look 0])
  obtain ⟨n', hn', hrunning, hlive, -⟩ := hcluster c 0 n rfl rfl rfl
  exact ⟨hvalid, (hcalled hsettled).2.2 (by decide), (hcalled' hsettled').2.2 (by decide), hquiet' (by decide),
    n', hn', hrunning, hlive hsettled⟩

/-- A node that is started again after a shutdown may poll once before its loops find the signal set. Then no loop is
left, and it counts as running. So does such a node of a cluster, with no loop left. -/
theorem restarted_node_stands_still :
    let acts : List Act := [.call .start, .round 0 false, .call .shutdown, .look 0, .look 1, .call .start,
      .round 2 false, .look 2, .look 3, .pass 60000]
    let calls := acts.filterMap Act.call?
    let r := run {} {} acts
    let c : Cluster Mailbox Cursor := { medium := {}, now := ⟨0, 0⟩, nodes := #[Node.ofConfig {} default {} .silent] }
    let c' := (((c.start 0).shutdown 0).start 0).sleep 60000
    Config.validate {} = .ok () ∧ r.Settled ∧ calls.getLast? = some .start ∧ r.running = true ∧ r.live = [] ∧
      r.rounds = [.poll, .poll] ∧ ¬r.AsCalled calls ∧
      c'.nodes[0]?.map (fun n => (n.lifecycle.running, n.lifecycle.live)) = some (true, []) := by
  intro acts calls r c c'
  have hlast : calls.getLast? = some .start := rfl
  have hlive : r.live = [] := by decide
  refine ⟨rfl, by decide, hlast, by decide, hlive, by decide, fun hcalled => ?_, by decide +kernel⟩
  have hboth := hcalled.1 hlast
  rw [hlive] at hboth
  cases hboth

end Node.Upkeep

end Moderation
