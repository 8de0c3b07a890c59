import Moderation.Proofs.Mailbox.Recipient
import Moderation.Proofs.Medium.Log
import Moderation.Proofs.Mute.Merging
import Moderation.Proofs.Node.Enactment
import Moderation.Proofs.Node.Receiving
import Moderation.Proofs.Node.SameEffect
import Moderation.Proofs.Sync.Telling
/-!
# Announcements in a mailbox

What a node has heard when it has read a mailbox up to some time: the announcements up to then, and its own, which it
never hears but has carried out itself. `Node.KeepsUp` says that a node's cache has merged all these, and it is kept
when the node announces, when another one does, and when the node reads on (`KeepsUp.announce`, `KeepsUp.hear`,
`KeepsUp.poll`).
-/

namespace Moderation

open Mute Punishment Sync

/-! ## Merging in a cache -/

/-- No refresh is under way for the visitor, and the cache holds what has become of `start` by merging. -/
structure Mute.Cache.Merges (key : Visitor) (start : Option Punishment) (all done : Set Punishment) (c : Cache) :
    Prop where
  quiet : ¬c.Refreshing key
  held : ∃ v, c.held key = some v ∧ Merged key start all done v

namespace Mute.Cache.Merges

variable {key : Visitor} {start : Option Punishment} {all all' done done' : Set Punishment} {c : Cache}

theorem mono (h : c.Merges key start all done) (hall : all ⊆ all') (hdone : done' ⊆ done) :
    c.Merges key start all' done' := by
  obtain ⟨v, hv, hmerged⟩ := h.held
  exact ⟨h.quiet, v, hv, hmerged.mono hall hdone⟩

theorem follow (h : c.Merges key start all done) {p : Punishment} (hp : p ∈ all) (now : Moment) (o : Options) :
    (c.follow now (.enforce p o)).Merges key start all (insert p done) := by
  obtain ⟨v, hv, hmerged⟩ := h.held
  constructor
  · rw [refreshing_follow_enforce]
    exact h.quiet
  · refine ⟨_, ?_, hmerged.merge hp⟩
    rw [held_follow_enforce c now p o h.quiet, hv, Option.map_some]

end Mute.Cache.Merges

/-! ## Announcements -/

/-- A punishment that a node imposed for all nodes, in the message in which it told the others. -/
structure Announcement where
  time : Timestamp
  origin : Uuid
  punishment : Punishment
  options : Options
  message : Bytes
  sealed : (LocalCall.enforce punishment options).packet.seal origin = .ok message

namespace Announcement

def letter (a : Announcement) : Letter := ⟨a.time, a.message⟩

/-- The punishments that were announced. -/
def told (as : List Announcement) : Set Punishment := {p | ∃ a ∈ as, a.punishment = p}

/-- The punishments that a node knows of which has read up to some time: its own and those announced by then. -/
def known (self : Uuid) (upTo : Timestamp) (as : List Announcement) : Set Punishment :=
  {p | ∃ a ∈ as, a.punishment = p ∧ (a.origin = self ∨ a.time ≤ upTo)}

theorem told_cons (a : Announcement) (as : List Announcement) : told (a :: as) = insert a.punishment (told as) := by
  ext p
  simp [told, eq_comm]

theorem told_concat (as : List Announcement) (a : Announcement) :
    told (as ++ [a]) = insert a.punishment (told as) := by
  ext p
  simp [told, or_and_right, exists_or, eq_comm, or_comm]

theorem mem_known_concat {self : Uuid} {upTo : Timestamp} {as : List Announcement} {a : Announcement}
    {p : Punishment} : p ∈ known self upTo (as ++ [a]) ↔
      p ∈ known self upTo as ∨ a.punishment = p ∧ (a.origin = self ∨ a.time ≤ upTo) := by
  simp [known, or_and_right, exists_or]

variable {as : List Announcement} {w : Node.Surroundings} {self : Uuid} {key : Visitor} {start : Option Punishment}
  {all done : Set Punishment} {s : Cached Node.Platform}

/-- A message about a punishment on record is merged into the cache, unless it is the node's own. -/
theorem merges_handle (a : Announcement) (hstored : w.store.get? a.punishment.id = some a.punishment)
    (hall : a.punishment ∈ all) (hown : a.origin = self → a.punishment ∈ done)
    (h : s.cache.Merges key start all done) :
    (handle self w.site a.message s).2.cache.Merges key start all (insert a.punishment done) := by
  by_cases horigin : a.origin = self
  · have hnot := Packet.not_hear_seal (horigin ▸ a.sealed)
    rw [(handle_of_not_heard hnot w.site s).2, Set.insert_eq_of_mem (hown horigin)]
    exact h
  · have hfetch : w.store.fetch a.punishment.ref = some a.punishment := by
      simp [Store.fetch, Punishment.ref, hstored, Option.filter_some]
    have hcache : (handle self w.site a.message s).2.cache =
        s.cache.follow w.now (.enforce a.punishment a.options.heard) := by
      rw [handle_of_seal a.sealed horigin, ← Change.call_impose]
      exact Site.cache_receive (congrArg Except.ok hfetch)
    rw [hcache]
    exact h.follow hall w.now a.options.heard

theorem merges_handleAll (as : List Announcement)
    (hstored : ∀ a ∈ as, w.store.get? a.punishment.id = some a.punishment) (hall : told as ⊆ all)
    (hown : ∀ a ∈ as, a.origin = self → a.punishment ∈ done) (h : s.cache.Merges key start all done) :
    (handleAll self w.site (as.map message) s).2.cache.Merges key start all (done ∪ told as) := by
  induction as generalizing s done with
  | nil => exact h.mono subset_rfl (by simp [told])
  | cons a rest ih =>
    rw [told_cons] at hall ⊢
    have hfirst := merges_handle a (hstored a List.mem_cons_self) (hall (Set.mem_insert _ _))
      (hown a List.mem_cons_self) h
    have hrest := ih (fun b hb => hstored b (List.mem_cons_of_mem a hb)) ((Set.subset_insert _ _).trans hall)
      (fun b hb horigin => .inr (hown b (List.mem_cons_of_mem a hb) horigin)) hfirst
    rwa [Set.union_insert, ← Set.insert_union]

/-- The letters of a window are announcements if all older letters lie before it. -/
theorem exists_inWindow {m : Mailbox} {old : List Letter} (hletters : m.letters = old ++ as.map letter)
    (window : Window) (hold : ∀ l ∈ old, l.time ≤ window.after) :
    ∃ batch : List Announcement, m.inWindow window = batch.map letter ∧ ∀ a, a ∈ batch ↔ a ∈ as ∧ window.Holds a.time := by
  refine ⟨(as.filter fun a => window.Holds a.time).mergeSort fun a b => a.time ≤ b.time, ?_, ?_⟩
  · have hnone : old.filter (fun l => window.Holds l.time) = [] := by
      refine List.filter_eq_nil_iff.2 fun l hl => ?_
      have hle := hold l hl
      rw [decide_eq_true_eq]
      exact fun hholds => absurd hle (UInt64.not_le.2 hholds.1)
    rw [Mailbox.inWindow, hletters, List.filter_append, hnone, List.nil_append, List.filter_map,
      List.map_mergeSort (s := fun a b => decide (a.time ≤ b.time))]
    · rfl
    · intro a _ b _
      rfl
  · intro a
    simp only [List.mem_mergeSort, List.mem_filter, decide_eq_true_eq]

end Announcement

/-! ## Nodes that keep up -/

namespace Node

variable {n : Node Cursor} {w : Surroundings} {m : Mailbox}

/-- A command that was announced is one more letter, and the node stays at its place in the mailbox. -/
theorem give_of_dispatched {call : LocalCall} (h : (n.give w call m).1 = .ok .dispatched) :
    ∃ message, call.packet.seal n.service.self = .ok message ∧
      m.insert w.now.wall message = .ok (n.give w call m).2.2 ∧
      (n.give w call m).2.1.service.self = n.service.self ∧ (n.give w call m).2.1.service.link = n.service.link ∧
      (n.give w call m).2.1.state = (w.site.enforce call n.state).2 := by
  obtain ⟨message, m', hseal, hsend, hcommand⟩ := command_of_dispatched h
  refine ⟨message, hseal, ?_⟩
  simp only [Node.give, hcommand]
  exact ⟨hsend, trivial, trivial, trivial⟩

theorem poll_of_collected {messages : List Bytes} {link : Cursor}
    (h : Medium.poll w.now.wall m n.service.link = (.ok messages, link)) :
    (n.poll w m).2.service.self = n.service.self ∧ (n.poll w m).2.service.link = link ∧
      (n.poll w m).2.cache = (handleAll n.service.self w.site messages n.state).2.cache := by
  simp only [Node.poll, Node.cache, Service.poll, h, and_self]

end Node

/-- The node has come from `origin` and knows of the announcements in its mailbox up to `upTo`, where its cursor is;
what was in the mailbox before them is read. Whatever `origin` held for a visitor, the node has merged into it what it
knows of. -/
structure Node.KeepsUp (origin : Node Cursor) (old : List Letter) (as : List Announcement) (upTo : Timestamp)
    (n : Node Cursor) : Prop where
  self : n.service.self = origin.service.self
  cursor : n.service.link.last = some upTo
  read : ∀ l ∈ old, l.time ≤ upTo
  merges : ∀ key v, origin.cache.held key = some v → ¬origin.cache.Refreshing key →
    n.cache.Merges key v (Announcement.told as) (Announcement.known origin.service.self upTo as)

namespace Node.KeepsUp

open Announcement

variable {origin n : Node Cursor} {old : List Letter} {as : List Announcement} {upTo : Timestamp} {w : Surroundings}
  {m : Mailbox}

theorem start (hcursor : n.service.link.last = some upTo) (hread : ∀ l ∈ old, l.time ≤ upTo) :
    KeepsUp n old [] upTo n where
  self := rfl
  cursor := hcursor
  read := hread
  merges key v hv hquiet := ⟨hquiet, v, hv, (Merged.refl key v).mono (Set.empty_subset _) (by simp [known])⟩

/-- Another node announces something later than this node has read. -/
theorem hear (h : KeepsUp origin old as upTo n) {a : Announcement} (horigin : a.origin ≠ n.service.self)
    (htime : upTo < a.time) : KeepsUp origin old (as ++ [a]) upTo n where
  self := h.self
  cursor := h.cursor
  read := h.read
  merges key v hv hquiet := by
    rw [told_concat]
    refine (h.merges key v hv hquiet).mono (Set.subset_insert _ _) fun p hp => ?_
    rcases mem_known_concat.1 hp with hp | ⟨-, hown | hle⟩
    · exact hp
    · exact absurd (hown.trans h.self.symm) horigin
    · exact absurd hle (UInt64.not_le.2 htime)

/-- The node announces something that it has carried out. -/
theorem announce (h : KeepsUp origin old as upTo n) (a : Announcement) {n' : Node Cursor}
    (hself : n'.service.self = n.service.self) (hlink : n'.service.link = n.service.link) {now : Moment}
    (hcache : n'.cache = n.cache.follow now (.enforce a.punishment a.options)) :
    KeepsUp origin old (as ++ [a]) upTo n' where
  self := hself.trans h.self
  cursor := hlink ▸ h.cursor
  read := h.read
  merges key v hv hquiet := by
    have hgrown := (h.merges key v hv hquiet).mono (Set.subset_insert a.punishment _) subset_rfl
    rw [hcache, told_concat]
    refine (hgrown.follow (Set.mem_insert _ _) now a.options).mono subset_rfl fun p hp => ?_
    rcases mem_known_concat.1 hp with hp | ⟨rfl, -⟩
    · exact .inr hp
    · exact .inl rfl

/-- The node reads on, and then it has read up to now at least. -/
theorem poll (h : KeepsUp origin old as upTo n) (hletters : m.letters = old ++ as.map letter)
    (hreadable : m.readFailure = none) (hstored : ∀ a ∈ as, w.store.get? a.punishment.id = some a.punishment) :
    ∃ upTo', w.now.wall ≤ upTo' ∧ KeepsUp origin old as upTo' (n.poll w m).2 := by
  rcases n.service.link.claim_cases w.now.wall with ⟨hnone, -⟩ | ⟨last, hlast, hle, hclaim⟩ | ⟨last, hlast, hlt, hclaim⟩
  · rw [h.cursor] at hnone
    cases hnone
  -- The clock has not moved on, so nothing is read.
  · obtain rfl : upTo = last := Option.some.inj (h.cursor.symm.trans hlast)
    have hmedium : Medium.poll w.now.wall m n.service.link = (.ok [], n.service.link) := by
      simp only [Medium.poll, Cursor.poll, hclaim]
    obtain ⟨hself, hlink, hcache⟩ := poll_of_collected hmedium
    refine ⟨upTo, hle, hself.trans h.self, hlink ▸ h.cursor, h.read, ?_⟩
    rw [hcache]
    exact h.merges
  · obtain rfl : upTo = last := Option.some.inj (h.cursor.symm.trans hlast)
    obtain ⟨batch, hbatch, hmem⟩ := exists_inWindow hletters ⟨upTo, w.now.wall⟩ h.read
    have hmedium : Medium.poll w.now.wall m n.service.link = (.ok (batch.map message), ⟨some w.now.wall⟩) := by
      simp only [Medium.poll, Cursor.poll, hclaim, Mailbox.select, hreadable, hbatch, Except.map, List.map_map]
      rfl
    obtain ⟨hself, hlink, hcache⟩ := poll_of_collected hmedium
    refine ⟨w.now.wall, UInt64.le_refl _, hself.trans h.self, by rw [hlink], fun l hl =>
      UInt64.le_trans (h.read l hl) (UInt64.le_of_lt hlt), fun key v hv hquiet => ?_⟩
    have htold : told batch ⊆ told as := by
      rintro p ⟨a, ha, hp⟩
      exact ⟨a, ((hmem a).1 ha).1, hp⟩
    have hown (a) (ha : a ∈ batch) (horigin : a.origin = n.service.self) :
        a.punishment ∈ known origin.service.self upTo as :=
      ⟨a, ((hmem a).1 ha).1, rfl, .inl (horigin.trans h.self)⟩
    have hbatched := merges_handleAll batch (fun a ha => hstored a ((hmem a).1 ha).1) htold hown
      (h.merges key v hv hquiet)
    rw [hcache]
    refine hbatched.mono subset_rfl ?_
    -- What is known now was known before or is in the window.
    rintro p ⟨a, ha, rfl, hown | hle⟩
    · exact .inl ⟨a, ha, rfl, .inl hown⟩
    · rcases UInt64.le_or_lt a.time upTo with hbefore | hafter
      · exact .inl ⟨a, ha, rfl, .inr hbefore⟩
      · exact .inr ⟨a, (hmem a).2 ⟨ha, hafter, hle⟩, rfl⟩

end Node.KeepsUp

end Moderation
