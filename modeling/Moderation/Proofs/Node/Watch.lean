import Moderation.Proofs.Mute.Covering
import Moderation.Proofs.Node.CachedSite
/-!
# Nodes under watch

A node is watched while visitors come in and are checked, commands are given, messages are polled, the cache is
swept and the store answers inquiries, in any order and at any time: checks may wait for as long as they like. At
each step the clocks, the store and the medium may be others. `no_false_denial` says that a check that denies a
visitor does so with a mute of the visitor that was not over when the check began.
-/

namespace Moderation

open Mute

namespace Node

variable {M Link : Type} [Medium M Link]

/-! ## Watching a node -/

/-- A check of a visitor, which read the second of the wall clock when it began, and how far it has come. -/
structure Check where
  key : Visitor
  second : Seconds
  reply : Reply

/-- A node, and the checks that were begun there. -/
structure Watch (Link : Type) where
  node : Node Link
  checks : List Check := []

namespace Watch

inductive Step (M : Type)
  | login (w : Surroundings) (key : Visitor)
  | check (w : Surroundings) (key : Visitor)
  /-- The `i`-th check goes on, if what it waits for is there. -/
  | resume (w : Surroundings) (i : Nat)
  /-- The store answers an inquiry. -/
  | answer (w : Surroundings) (q : InquiryId)
  /-- A visitor comes in, and the store answers at once. -/
  | welcome (w : Surroundings) (key : Visitor)
  /-- A visitor is checked, and the store answers at once. -/
  | consult (w : Surroundings) (key : Visitor)
  | give (w : Surroundings) (call : LocalCall) (m : M)
  | poll (w : Surroundings) (m : M)
  | sweep (w : Surroundings)
  /-- Players come and go, and the platform begins to fail or works again. -/
  | around (roster : Roster) (platform : Platform)

def step (v : Watch Link) : Step M → Watch Link
  | .login w key => { v with node := v.node.setCache (v.node.cache.login w.now key).2 }
  | .check w key =>
    let (reply, cache) := v.node.cache.get w.now key
    { node := v.node.setCache cache, checks := v.checks ++ [{ key, second := w.now.second, reply }] }
  | .resume w i =>
    match v.checks[i]? with
    | some { key, second, reply := .later waiting } =>
      let (reply, cache) := v.node.cache.resume w.now waiting
      { node := v.node.setCache cache, checks := v.checks.set i { key, second, reply } }
    | _ => v
  | .answer w q =>
    match v.node.cache.ledger.inquiries[q]? with
    | some i => { v with node := v.node.setCache (v.node.cache.complete q (w.mute i.key)) }
    | none => v
  | .welcome w key => { v with node := (v.node.welcome w key).2 }
  | .consult w key =>
    let (answer, node) := v.node.consult w key
    { node, checks := v.checks ++ [{ key, second := w.now.second, reply := .value answer }] }
  | .give w call m => { v with node := (v.node.give w call m).2.1 }
  | .poll w m => { v with node := (v.node.poll w m).2 }
  | .sweep w => { v with node := (v.node.sweep w).2 }
  | .around roster platform => { v with node := { v.node with roster, state.site := platform } }

def run (v : Watch Link) (steps : List (Step M)) : Watch Link := steps.foldl step v

/-- The cache is sound, and so is every check, as far as it has come. -/
structure Sound (v : Watch Link) : Prop where
  cache : v.node.cache.Sound
  checks : ∀ c ∈ v.checks, c.reply.Sound v.node.cache.ledger c.key c.second

variable {v : Watch Link}

/-- The cache goes on to another one, in which the inquiries that checks wait for are known too. -/
theorem Sound.goesOn (h : v.Sound) {n : Node Link} (hsound : n.cache.Sound)
    (hwithin : v.node.cache.ledger.Within n.cache.ledger) : ({ v with node := n } : Watch Link).Sound where
  cache := hsound
  checks c hc := (h.checks c hc).mono hwithin

theorem Sound.edited (h : v.Sound) {n : Node Link} (hedited : v.node.cache.Edited n.cache) :
    ({ v with node := n } : Watch Link).Sound := by
  refine h.goesOn (h.cache.edited hedited) ?_
  rw [Cache.ledger_edited hedited]
  exact .refl _

/-- A check is begun. -/
theorem Sound.check (h : v.Sound) {n : Node Link} {c : Check} (hsound : n.cache.Sound)
    (hwithin : v.node.cache.ledger.Within n.cache.ledger) (hc : c.reply.Sound n.cache.ledger c.key c.second) :
    ({ node := n, checks := v.checks ++ [c] } : Watch Link).Sound where
  cache := hsound
  checks c' hc' := by
    rcases List.mem_append.1 hc' with hc' | hc'
    · exact (h.checks c' hc').mono hwithin
    · obtain rfl := List.mem_singleton.1 hc'
      exact hc

theorem Sound.step (h : v.Sound) (s : Step M) : (v.step s).Sound := by
  cases s with
  | login w key =>
    obtain ⟨hsound, hwithin⟩ := Cache.sound_login h.cache w.now key
    exact h.goesOn hsound hwithin
  | check w key =>
    obtain ⟨hsound, hwithin, hreply⟩ := Cache.sound_get h.cache w.now key
    exact h.check hsound hwithin hreply
  | resume w i =>
    simp only [Watch.step]
    split
    · next key second waiting hi =>
      have hwaiting : waiting.About v.node.cache.ledger key second := h.checks _ (List.mem_of_getElem? hi)
      obtain ⟨hsound, hwithin, hreply⟩ := Cache.sound_resume h.cache w.now waiting
      refine ⟨hsound, fun c hc => ?_⟩
      rcases List.mem_or_eq_of_mem_set hc with hc | rfl
      · exact (h.checks c hc).mono hwithin
      · exact hreply key second hwaiting
    · exact h
  | answer w q =>
    simp only [Watch.step]
    split
    · next i hi =>
      have hanswer : ∀ key, v.node.cache.ledger.Asks q key → ∀ p ∈ w.mute i.key, p.Mutes key := by
        rintro key hkey
        obtain rfl := hkey.unique ⟨i, hi, rfl⟩
        exact w.store.mutes_applicableMute w.now.second i.key
      obtain ⟨hsound, hwithin⟩ := Cache.sound_complete h.cache hanswer
      exact h.goesOn hsound hwithin
    · exact h
  | welcome w key =>
    obtain ⟨hsound, hwithin⟩ := Cache.sound_welcome (w.store.mutes_applicableMute w.now.second) h.cache w.now key
    exact h.goesOn hsound hwithin
  | consult w key =>
    obtain ⟨hsound, hwithin, hanswer⟩ :=
      Cache.sound_consult (w.store.mutes_applicableMute w.now.second) h.cache w.now key
    exact h.check hsound hwithin hanswer
  | give w call m => exact h.edited (v.node.edited_give w call m)
  | poll w m => exact h.edited (v.node.edited_poll w m)
  | sweep w =>
    refine h.goesOn (Cache.sound_sweep h.cache w.now v.node.roster.isOnline) ?_
    exact (v.node.cache.ledger_sweep w.now v.node.roster.isOnline).symm ▸ .refl _
  | around roster platform => exact h.goesOn h.cache (.refl _)

theorem Sound.run (h : v.Sound) (steps : List (Step M)) : (v.run steps).Sound := by
  induction steps generalizing v with
  | nil => exact h
  | cons s steps ih => exact ih (h.step s)

/-- A node is watched from its beginning. What its cache keeps for a visitor, or waits for, is a mute of the
visitor. A check that denies a visitor does so with a mute that covers the visitor and was not over when the check
began. -/
theorem no_false_denial (config : Config) (self : Uuid) (link : Link) (platform : Platform)
    (steps : List (Step M)) :
    let v := ({ node := .ofConfig config self link platform } : Watch Link).run steps
    v.node.cache.Sound ∧ ∀ c ∈ v.checks, ∀ p, c.reply = .value (some p) →
      p.kind = .mute ∧ p.victim.Covers c.key ∧ ¬p.ExpiredAt c.second := by
  intro v
  have hstart : ({ node := .ofConfig config self link platform } : Watch Link).Sound :=
    ⟨Cache.sound_ofConfig config.muteCache, by simp⟩
  have hsound : v.Sound := hstart.run steps
  refine ⟨hsound.cache, fun c hc p hp => ?_⟩
  have hreply := hsound.checks c hc
  rw [hp] at hreply
  obtain ⟨⟨hkind, hcovers⟩, hlive⟩ := hreply p rfl
  exact ⟨hkind, hcovers, hlive⟩

/-- A cache that asks on demand: a check waits for the store, and the mute is taken off record and revoked before the
check goes on and denies the visitor. -/
theorem denies_with_awaited_mute :
    let key : Visitor := default
    let p : Punishment := ⟨1, .mute, .address key.address, .console, "spam", .global, 0, 9⟩
    let w : Surroundings := ⟨⟨0, 1000⟩, ({} : Store).insert p⟩
    let w' : Surroundings := ⟨⟨0, 20000⟩, {}⟩
    let v := ({ node := .ofConfig { muteCache := { variant := .onDemand } } default ({} : Cursor) .silent } :
      Watch Cursor).run
        [.check w key, .answer w 0, .give w' (.unenforce p .global) ({} : Mailbox), .resume w' 0]
    ∃ c ∈ v.checks, c.reply = .value (some p) ∧
      p.kind = .mute ∧ p.victim.Covers c.key ∧ ¬p.ExpiredAt c.second := by
  intro key p w w' v
  have hlast : (v.checks[0]?.map Check.reply) = some (.value (some p)) := by decide +kernel
  obtain ⟨c, hc, hreply⟩ := Option.map_eq_some_iff.1 hlast
  have hmem : c ∈ v.checks := List.mem_of_getElem? hc
  exact ⟨c, hmem, hreply, (no_false_denial { muteCache := { variant := .onDemand } } default ({} : Cursor) .silent
    [.check w key, .answer w 0, .give w' (.unenforce p .global) ({} : Mailbox), .resume w' 0]).2 c hmem p hreply⟩

end Watch

end Node

end Moderation
