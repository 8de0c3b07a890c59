import Mathlib
import Moderation.Node.Cluster
import Moderation.Proofs.Node.Announcements
/-!
# Clusters converge

The nodes of a cluster impose punishments for all nodes and poll, in any order. Each carries out its own at once and
those of the others when it reads them, so no two carry them out in the same order. `converges` says that for a visitor
of whom two nodes knew alike they know alike again when all has been read.
-/

namespace Moderation

open Mute Punishment Sync

namespace Cluster

variable {c c₀ : Cluster Mailbox Cursor}

/-! ## Runs -/

/-- What happens while punishments are imposed. -/
inductive Event where
  /-- Time passes. -/
  | pass (now : Moment)
  | record (p : Punishment)
  /-- A node imposes a punishment. -/
  | enact (i : Nat) (p : Punishment) (o : Options)
  | poll (i : Nat)
deriving DecidableEq

def step (c : Cluster Mailbox Cursor) : Event → Cluster Mailbox Cursor
  | .pass now => { c with now }
  | .record p => { c with store := c.store.insert p }
  | .enact i p o => ((c.give i (.enforce p o)).map Prod.snd).getD c
  | .poll i => ((c.poll i).map Prod.snd).getD c

def run (c : Cluster Mailbox Cursor) (events : List Event) : Cluster Mailbox Cursor := events.foldl step c

/-- The clock does not go back. What is put on record has a new number. What is imposed for all nodes is on record,
no node has read up to now when it is announced, and it is announced. -/
def Allows (c : Cluster Mailbox Cursor) : Event → Prop
  | .pass now => c.now.wall ≤ now.wall
  | .record p => c.store.get? p.id = none
  | .enact i p o => o.enforcement = .global ∧ c.store.get? p.id = some p ∧
      (∀ n ∈ c.nodes.toList, ∃ t ∈ n.service.link.last, t < c.now.wall) ∧
      (c.give i (.enforce p o)).map Prod.fst = some (.ok .dispatched)
  | .poll _ => True

instance (c : Cluster Mailbox Cursor) : ∀ e, Decidable (c.Allows e)
  | .pass _ => inferInstanceAs (Decidable (_ ≤ _))
  | .record _ => inferInstanceAs (Decidable (_ = _))
  | .enact _ _ _ => inferInstanceAs (Decidable (_ ∧ _))
  | .poll _ => inferInstanceAs (Decidable True)

/-- Each event is allowed when it happens. -/
def Orderly : Cluster Mailbox Cursor → List Event → Prop
  | _, [] => True
  | c, e :: rest => c.Allows e ∧ Orderly (c.step e) rest

instance decidableOrderly : ∀ (events : List Event) (c : Cluster Mailbox Cursor), Decidable (c.Orderly events)
  | [], _ => inferInstanceAs (Decidable True)
  | e :: rest, c =>
    have := decidableOrderly rest (c.step e)
    inferInstanceAs (Decidable (c.Allows e ∧ Orderly (c.step e) rest))

/-- Something is imposed. -/
def Event.Enacts : Event → Prop
  | .enact _ _ _ => True
  | _ => False

/-! ## What a run keeps -/

/-- The cluster has come from `c₀`, and since then `as` was announced: that is all that is new in the mailbox, and it
is still on record. Each node keeps up with it. -/
structure Spreads (c₀ : Cluster Mailbox Cursor) (as : List Announcement) (c : Cluster Mailbox Cursor) : Prop where
  letters : c.medium.letters = c₀.medium.letters ++ as.map Announcement.letter
  readable : c.medium.readFailure = none
  stored : ∀ a ∈ as, c.store.get? a.punishment.id = some a.punishment
  past : ∀ a ∈ as, a.time ≤ c.now.wall
  size : c.nodes.size = c₀.nodes.size
  nodes : ∀ (i : Nat) (n₀ n : Node Cursor), c₀.nodes[i]? = some n₀ → c.nodes[i]? = some n →
    ∃ upTo, Node.KeepsUp n₀ c₀.medium.letters as upTo n

/-- The node in this place, if there is one, has read all announcements. -/
def CaughtUp (as : List Announcement) (i : Nat) (c : Cluster Mailbox Cursor) : Prop :=
  ∀ n ∈ c.nodes[i]?, ∃ upTo ∈ n.service.link.last, ∀ a ∈ as, a.time ≤ upTo

theorem getElem?_modifyNode {i j : Nat} {n n' m : Node Cursor} (hn : c.nodes[i]? = some n)
    (h : (c.modifyNode i fun _ => n').nodes[j]? = some m) : i = j ∧ m = n' ∨ i ≠ j ∧ c.nodes[j]? = some m := by
  simp only [modifyNode, Array.getElem?_modify] at h
  split at h
  · next hij =>
    subst hij
    rw [hn, Option.map_some, Option.some.injEq] at h
    exact .inl ⟨rfl, h.symm⟩
  · next hij => exact .inr ⟨hij, h⟩

/-- Nodes in different places have different names. -/
theorem self_ne_of_ne (hdistinct : (c.nodes.toList.map fun n => n.service.self).Nodup) {i j : Nat} {n m : Node Cursor}
    (hn : c.nodes[i]? = some n) (hm : c.nodes[j]? = some m) (hne : i ≠ j) : n.service.self ≠ m.service.self := by
  intro hself
  refine hne ((List.getElem?_inj ?_ hdistinct).1 ?_)
  · simpa using (Array.getElem?_eq_some_iff.1 hn).1
  · simp [hn, hm, hself]

namespace Spreads

variable {as : List Announcement} {i : Nat} {n : Node Cursor} {p : Punishment} {o : Options}

theorem start (hreadable : c.medium.readFailure = none) (hread : ∀ n ∈ c.nodes.toList, ∃ t ∈ n.service.link.last,
    ∀ l ∈ c.medium.letters, l.time ≤ t) : Spreads c [] c where
  letters := by simp
  readable := hreadable
  stored := by simp
  past := by simp
  size := rfl
  nodes i n₀ n h₀ hn := by
    obtain rfl := Option.some.inj (h₀.symm.trans hn)
    obtain ⟨t, ht, hold⟩ := hread n₀ (Array.mem_toList_iff.2 (Array.mem_of_getElem? h₀))
    exact ⟨t, .start ht hold⟩

/-- The node of `c₀` in the place of a node. -/
theorem exists_origin (h : Spreads c₀ as c) (hn : c.nodes[i]? = some n) :
    ∃ n₀ upTo, c₀.nodes[i]? = some n₀ ∧ Node.KeepsUp n₀ c₀.medium.letters as upTo n := by
  obtain ⟨hi, -⟩ := Array.getElem?_eq_some_iff.1 hn
  have h₀ := Array.getElem?_eq_getElem (h.size ▸ hi)
  obtain ⟨upTo, hkeeps⟩ := h.nodes i _ n h₀ hn
  exact ⟨_, upTo, h₀, hkeeps⟩

/-- A node polls: it has read all then, and what the others have read they still have. -/
theorem poll (h : Spreads c₀ as c) (i : Nat) : Spreads c₀ as (c.step (.poll i)) ∧ CaughtUp as i (c.step (.poll i)) ∧
    ∀ j, CaughtUp as j c → CaughtUp as j (c.step (.poll i)) := by
  cases hn : c.nodes[i]? with
  | none =>
    have hstep : c.step (.poll i) = c := by simp [step, Cluster.poll, at?, hn]
    rw [hstep]
    exact ⟨h, by simp [CaughtUp, hn], fun _ hj => hj⟩
  | some n =>
    obtain ⟨n₀, upTo, h₀, hkeeps⟩ := h.exists_origin hn
    obtain ⟨upTo', hnow, hkeeps'⟩ := hkeeps.poll (w := c.surroundings) h.letters h.readable h.stored
    have hstep : c.step (.poll i) = c.modifyNode i fun _ => (n.poll c.surroundings c.medium).2 := by
      simp [step, Cluster.poll, at?, hn]
    have hcaught : ∃ t ∈ (n.poll c.surroundings c.medium).2.service.link.last, ∀ a ∈ as, a.time ≤ t :=
      ⟨upTo', hkeeps'.cursor, fun a ha => UInt64.le_trans (h.past a ha) hnow⟩
    rw [hstep]
    refine ⟨⟨h.letters, h.readable, h.stored, h.past, ?_, ?_⟩, ?_, ?_⟩
    · simp [modifyNode, h.size]
    · intro j m₀ m hm₀ hm
      rcases getElem?_modifyNode hn hm with ⟨rfl, rfl⟩ | ⟨-, hm⟩
      · obtain rfl := Option.some.inj (h₀.symm.trans hm₀)
        exact ⟨upTo', hkeeps'⟩
      · exact h.nodes j m₀ m hm₀ hm
    · intro m hm
      rcases getElem?_modifyNode hn hm with ⟨-, rfl⟩ | ⟨hne, -⟩
      · exact hcaught
      · exact absurd rfl hne
    · intro j hj m hm
      rcases getElem?_modifyNode hn hm with ⟨-, rfl⟩ | ⟨-, hm⟩
      · exact hcaught
      · exact hj m hm

/-- A node imposes a punishment for all nodes, which is one more announcement. -/
theorem enact (h : Spreads c₀ as c) (hdistinct : (c₀.nodes.toList.map fun n => n.service.self).Nodup)
    (hallowed : c.Allows (.enact i p o)) : ∃ a, Spreads c₀ (as ++ [a]) (c.step (.enact i p o)) := by
  obtain ⟨hglobal, hstored, hbehind, hgiven⟩ := hallowed
  cases hn : c.nodes[i]? with
  | none => simp [give, hn] at hgiven
  | some n =>
    obtain ⟨n₀, upTo, h₀, hkeeps⟩ := h.exists_origin hn
    have hdispatched : (n.give c.surroundings (.enforce p o) c.medium).1 = .ok .dispatched := by
      simpa [give, hn] using hgiven
    obtain ⟨message, hseal, hinsert, hself, hlink, hstate⟩ := Node.give_of_dispatched hdispatched
    let a : Announcement := ⟨c.now.wall, n.service.self, p, o, message, hseal⟩
    have hstep : c.step (.enact i p o) =
        { c with medium := (n.give c.surroundings (.enforce p o) c.medium).2.2 }.modifyNode i
          fun _ => (n.give c.surroundings (.enforce p o) c.medium).2.1 := by
      simp [step, give, hn]
    rw [hstep]
    refine ⟨a, ?_, ?_, ?_, ?_, ?_, ?_⟩
    · rw [List.map_append, ← List.append_assoc, ← h.letters]
      exact Mailbox.insert_letters hinsert
    · exact (Mailbox.readFailure_insert hinsert).trans h.readable
    · intro b hb
      rcases List.mem_append.1 hb with hb | hb
      · exact h.stored b hb
      · obtain rfl := List.mem_singleton.1 hb
        exact hstored
    · intro b hb
      rcases List.mem_append.1 hb with hb | hb
      · exact h.past b hb
      · obtain rfl := List.mem_singleton.1 hb
        exact UInt64.le_refl _
    · simp [modifyNode, h.size]
    · intro j m₀ m hm₀ hm
      rcases getElem?_modifyNode hn hm with ⟨rfl, rfl⟩ | ⟨hne, hm⟩
      · obtain rfl := Option.some.inj (h₀.symm.trans hm₀)
        have hcache : (c.surroundings.site.enforce (.enforce p o) n.state).2.cache =
            n.cache.follow c.now (.enforce p o) := c.surroundings.cache_enforce (by simp) n.state
        rw [← hstate] at hcache
        exact ⟨upTo, hkeeps.announce a hself hlink hcache⟩
      -- Another node has not read up to now, and the announcement is not its own.
      · obtain ⟨upTo', hkeeps'⟩ := h.nodes j m₀ m hm₀ hm
        obtain ⟨t, ht, hlt⟩ := hbehind m (Array.mem_toList_iff.2 (Array.mem_of_getElem? hm))
        obtain rfl : upTo' = t := Option.some.inj (hkeeps'.cursor.symm.trans ht)
        have hother : n.service.self ≠ m.service.self := by
          rw [hkeeps.self, hkeeps'.self]
          exact self_ne_of_ne hdistinct h₀ hm₀ hne
        exact ⟨upTo', hkeeps'.hear (a := a) hother hlt⟩

theorem record (h : Spreads c₀ as c) (hnew : c.store.get? p.id = none) : Spreads c₀ as (c.step (.record p)) :=
  { h with
    stored := by
      intro a ha
      have hkept := h.stored a ha
      rw [step, Store.get?_insert, if_neg, hkept]
      rintro hid
      rw [hid, hnew] at hkept
      cases hkept }

theorem pass (h : Spreads c₀ as c) {now : Moment} (hnow : c.now.wall ≤ now.wall) :
    Spreads c₀ as (c.step (.pass now)) :=
  { h with past := fun a ha => UInt64.le_trans (h.past a ha) hnow }

/-- While nothing is imposed, nothing is announced. -/
theorem step_quiet (h : Spreads c₀ as c) {e : Event} (hallowed : c.Allows e) (hquiet : ¬e.Enacts) :
    Spreads c₀ as (c.step e) ∧ ∀ i, CaughtUp as i c ∨ e = .poll i → CaughtUp as i (c.step e) := by
  cases e with
  | pass now => exact ⟨h.pass hallowed, by simp [CaughtUp, step]⟩
  | record p => exact ⟨h.record hallowed, by simp [CaughtUp, step]⟩
  | enact i p o => exact absurd trivial hquiet
  | poll j =>
    obtain ⟨hspreads, hcaught, hothers⟩ := h.poll j
    refine ⟨hspreads, ?_⟩
    rintro i (hi | hi)
    · exact hothers i hi
    · cases hi
      exact hcaught

theorem run (h : Spreads c₀ as c) (hdistinct : (c₀.nodes.toList.map fun n => n.service.self).Nodup)
    {events : List Event} (horderly : c.Orderly events) : ∃ as', Spreads c₀ as' (c.run events) := by
  induction events generalizing c as with
  | nil => exact ⟨as, h⟩
  | cons e rest ih =>
    obtain ⟨hallowed, hrest⟩ := horderly
    by_cases hquiet : e.Enacts
    · cases e with
      | enact i p o =>
        obtain ⟨a, ha⟩ := h.enact hdistinct hallowed
        exact ih ha hrest
      | _ => exact hquiet.elim
    · exact ih (h.step_quiet hallowed hquiet).1 hrest

/-- When nothing more is imposed, every node that polls has read all. -/
theorem run_quiet (h : Spreads c₀ as c) {events : List Event} (horderly : c.Orderly events)
    (hquiet : ∀ e ∈ events, ¬e.Enacts) : Spreads c₀ as (c.run events) ∧
      ∀ i, CaughtUp as i c ∨ .poll i ∈ events → CaughtUp as i (c.run events) := by
  induction events generalizing c with
  | nil => exact ⟨h, fun i hi => hi.resolve_right (by simp)⟩
  | cons e rest ih =>
    obtain ⟨hallowed, hrest⟩ := horderly
    obtain ⟨hspreads, hcaught⟩ := h.step_quiet hallowed (hquiet e List.mem_cons_self)
    obtain ⟨hend, hall⟩ := ih hspreads hrest fun e he => hquiet e (List.mem_cons_of_mem _ he)
    refine ⟨hend, fun i hi => hall i ?_⟩
    rcases hi with hi | hi
    · exact .inl (hcaught i (.inl hi))
    · rcases List.mem_cons.1 hi with rfl | hi
      · exact .inl (hcaught i (.inr rfl))
      · exact .inr hi

/-- Who has read all has merged all that was announced. -/
theorem merges_of_caughtUp (h : Spreads c₀ as c) {i : Nat} {n₀ : Node Cursor} (h₀ : c₀.nodes[i]? = some n₀)
    (hcaught : CaughtUp as i c) {key : Visitor} {v : Option Punishment} (hv : n₀.cache.held key = some v)
    (hquiet : ¬n₀.cache.Refreshing key) : ∃ n, c.nodes[i]? = some n ∧
      n.cache.Merges key v (Announcement.told as) (Announcement.told as) := by
  obtain ⟨hi, -⟩ := Array.getElem?_eq_some_iff.1 h₀
  have hn := Array.getElem?_eq_getElem (h.size.symm ▸ hi)
  refine ⟨_, hn, ?_⟩
  obtain ⟨upTo, hkeeps⟩ := h.nodes i n₀ _ h₀ hn
  obtain ⟨t, ht, hall⟩ := hcaught _ hn
  obtain rfl : upTo = t := Option.some.inj (hkeeps.cursor.symm.trans ht)
  refine (hkeeps.merges key v hv hquiet).mono subset_rfl ?_
  rintro p ⟨a, ha, rfl⟩
  exact ⟨a, ha, rfl, .inr (hall a ha)⟩

end Spreads

theorem orderly_append {events events' : List Event} :
    c.Orderly (events ++ events') ↔ c.Orderly events ∧ (c.run events).Orderly events' := by
  induction events generalizing c with
  | nil => exact ⟨fun h => ⟨trivial, h⟩, And.right⟩
  | cons e rest ih => simp only [List.cons_append, Orderly, ih, run, List.foldl_cons, and_assoc]

/-- The nodes of a cluster have different names, have set their places in the mailbox and have read all that is in it.
They impose punishments for all nodes and poll, in any order, as `Allows` says; then nothing more is imposed, and each
node polls once at least. For a visitor of whom two nodes held mutes that end alike, or none, they hold mutes that end
alike, or none. -/
theorem converges (c : Cluster Mailbox Cursor) (before after : List Event)
    (hdistinct : (c.nodes.toList.map fun n => n.service.self).Nodup) (hreadable : c.medium.readFailure = none)
    (hread : ∀ n ∈ c.nodes.toList, ∃ t ∈ n.service.link.last, ∀ l ∈ c.medium.letters, l.time ≤ t)
    (horderly : c.Orderly (before ++ after)) (hquiet : ∀ e ∈ after, ¬e.Enacts)
    (hpolled : ∀ i < c.nodes.size, .poll i ∈ after) {i j : Nat} {n m : Node Cursor}
    (hn : c.nodes[i]? = some n) (hm : c.nodes[j]? = some m) {key : Visitor} {v w : Option Punishment}
    (hv : n.cache.held key = some v) (hnquiet : ¬n.cache.Refreshing key)
    (hw : m.cache.held key = some w) (hmquiet : ¬m.cache.Refreshing key) (halike : v.map ends = w.map ends) :
    ∃ n' m' v' w', (c.run (before ++ after)).nodes[i]? = some n' ∧ (c.run (before ++ after)).nodes[j]? = some m' ∧
      n'.cache.held key = some v' ∧ m'.cache.held key = some w' ∧ v'.map ends = w'.map ends := by
  obtain ⟨hbefore, hafter⟩ := orderly_append.1 horderly
  obtain ⟨as, has⟩ := (Spreads.start hreadable hread).run hdistinct hbefore
  obtain ⟨hspreads, hcaught⟩ := has.run_quiet hafter hquiet
  have hrun : (c.run before).run after = c.run (before ++ after) := List.foldl_append.symm
  rw [hrun] at hspreads hcaught
  have hall {k : Nat} {x : Node Cursor} (hx : c.nodes[k]? = some x) : CaughtUp as k (c.run (before ++ after)) :=
    hcaught k (.inr (hpolled k (Array.getElem?_eq_some_iff.1 hx).1))
  obtain ⟨n', hn', hmerges⟩ := hspreads.merges_of_caughtUp hn (hall hn) hv hnquiet
  obtain ⟨m', hm', hmerges'⟩ := hspreads.merges_of_caughtUp hm (hall hm) hw hmquiet
  obtain ⟨v', hv', hmerged⟩ := hmerges.held
  obtain ⟨w', hw', hmerged'⟩ := hmerges'.held
  exact ⟨n', m', v', w', hn', hm', hv', hw', hmerged.ends_eq hmerged' halike⟩

/-- Two nodes with caches of both kinds impose mutes that end together, each before it hears of the other's. Each
keeps its own. -/
theorem converges_of_exchange :
    let key : Visitor := default
    let p : Punishment := ⟨1, .mute, .player key.user, .console, "spam", .global, 0, 90⟩
    let q : Punishment := { p with id := 2, victim := .address key.address, reason := "flood" }
    let w : Node.Surroundings := ⟨⟨0, 1000⟩, {}⟩
    let a := ((Node.ofConfig {} default ({ last := some 1000 } : Cursor) .silent).welcome w key).2
    let b := ((Node.ofConfig { muteCache := { variant := .onDemand } } ⟨List.replicate 16 1, rfl⟩
      ({ last := some 1000 } : Cursor) .silent).consult w key).2
    let c : Cluster Mailbox Cursor := { medium := {}, now := w.now, nodes := #[a, b] }
    let before : List Event := [.record p, .record q, .record { p with id := 3, ends := 80 }, .pass ⟨10, 2000⟩,
      .enact 1 q .global, .enact 0 p .global, .poll 0, .pass ⟨20, 3000⟩, .enact 0 { p with id := 3, ends := 80 } .global]
    let after : List Event := [.poll 1, .poll 0]
    c.Orderly (before ++ after) ∧ a.cache.held key = some none ∧ b.cache.held key = some none ∧
      ((c.run (before ++ after)).nodes.map fun n => n.cache.held key) = #[some (some p), some (some q)] ∧
      ∃ n' m' v' w', (c.run (before ++ after)).nodes[0]? = some n' ∧ (c.run (before ++ after)).nodes[1]? = some m' ∧
        n'.cache.held key = some v' ∧ m'.cache.held key = some w' ∧ v'.map ends = w'.map ends := by
  intro key p q w a b c before after
  have horderly : c.Orderly (before ++ after) := of_decide_eq_true (by cbv)
  have ha : a.cache.held key = some none := by decide +kernel
  have hb : b.cache.held key = some none := by decide +kernel
  have hpolled : ∀ i < c.nodes.size, Event.poll i ∈ after := by decide
  refine ⟨horderly, ha, hb, by cbv, ?_⟩
  exact converges c before after (by decide) rfl (by decide) horderly (by simp [after, Event.Enacts]) hpolled
    (n := a) (m := b) rfl rfl ha (by decide +kernel) hb (by decide +kernel) rfl

end Cluster

end Moderation
