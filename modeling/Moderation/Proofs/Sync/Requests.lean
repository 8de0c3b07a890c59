import Moderation.Proofs.Sync.Hearing
/-!
# What is asked of a site

A site can be made to write down all that is asked of it, punishments that it is to look up among it. What a change
from another node asks of a site that has the punishment is said by `Site.requests_receive`, and what it does to the
site's state by `Site.state_receive`.
-/

namespace Moderation

/-- What is asked of a site. -/
inductive Request where
  | fetch (ref : PunishmentRef)
  | carryOut (call : LocalCall)
deriving DecidableEq

/-! ## The options that others use -/

/-- The options under which others carry out what was announced with these: on their own, with an empty target left
out, and with the console for a player without a number. -/
def Options.heard (o : Options) : Options where
  enforcement := .singleServer
  broadcasting := o.broadcasting
  target := if o.target = some "" then none else o.target
  lifter := if o.lifter = some (.player .nil) then some .console else o.lifter

theorem Change.localOptions_heard (ref : PunishmentRef) (mode : Mode) (o : Options) :
    (Change.ofOptions ref mode o).heard.localOptions = o.heard := by
  have hheard := Packet.heard_eq_canonical (.change (.ofOptions ref mode o))
  simp only [Packet.heard, Packet.canonical, Packet.change.injEq] at hheard
  rw [hheard]
  simp only [localOptions, canonical, ofOptions, Options.heard, nonempty_eq]
  split <;> simp_all

/-! ## What a change leads to -/

namespace Change

/-- The punishment is lifted without being announced, so that its name is enough. -/
abbrev Silent (c : Change) : Prop := c.mode = .lift ∧ c.broadcasting = .none

/-- The one call that a site carries out which can look the punishment up. -/
def call (c : Change) (p : Punishment) : LocalCall :=
  if c.Silent then .unenforceById c.ref c.localOptions else Site.callOf c p

/-- All that such a site is asked. -/
def requests (c : Change) (p : Punishment) : List Request :=
  if c.Silent then [.carryOut (c.call p)] else [.fetch c.ref, .carryOut (c.call p)]

theorem call_impose (p : Punishment) (o : Options) :
    (ofOptions p.ref .impose o).heard.call p = .enforce p o.heard := by
  rw [← localOptions_heard p.ref .impose o]
  rfl

theorem silent_lift (p : Punishment) (o : Options) :
    (ofOptions p.ref .lift o).heard.Silent ↔ o.broadcasting = .none := and_iff_right rfl

theorem call_lift (p : Punishment) (o : Options) : (ofOptions p.ref .lift o).heard.call p =
    if o.broadcasting = .none then .unenforceById p.ref o.heard else .unenforce p o.heard := by
  simp only [call, silent_lift]
  rw [← localOptions_heard p.ref .lift o]
  rfl

theorem requests_impose (p : Punishment) (o : Options) : (ofOptions p.ref .impose o).heard.requests p =
    [.fetch p.ref, .carryOut (.enforce p o.heard)] := by
  rw [← call_impose]
  rfl

theorem requests_lift (p : Punishment) (o : Options) : (ofOptions p.ref .lift o).heard.requests p =
    if o.broadcasting = .none then [.carryOut (.unenforceById p.ref o.heard)]
    else [.fetch p.ref, .carryOut (.unenforce p o.heard)] := by
  simp only [requests, silent_lift, call_lift]
  split <;> rfl

end Change

namespace Site

variable {σ : Type} {site : Site σ} {c : Change} {p : Punishment} {s : σ}

theorem state_carryOut (site : Site σ) (call : LocalCall) (s : σ) :
    (site.carryOut call s).2 = (site.enforce call s).2 := by
  unfold carryOut
  rcases site.enforce call s with ⟨e | _, s'⟩ <;> rfl

/-- A change that a site receives while it can look the punishment up changes the site as one call does. -/
theorem state_receive (hfetch : (site.fetch c.ref s).1 = .ok (some p)) : (site.receive (.change c) s).2 =
    (site.enforce (c.call p) (if c.Silent then s else (site.fetch c.ref s).2)).2 := by
  simp only [receive, receiveChange, Change.call]
  by_cases hsilent : c.Silent
  · simp only [if_pos hsilent, state_carryOut]
  · simp only [if_neg hsilent]
    rcases hs : site.fetch c.ref s with ⟨answer, s'⟩
    rw [hs] at hfetch
    obtain rfl : answer = .ok (some p) := hfetch
    exact state_carryOut site _ s'

/-- The site, which also writes down what it is asked. -/
def asked (site : Site σ) : Site (σ × List Request) where
  fetch ref s := ((site.fetch ref s.1).1, (site.fetch ref s.1).2, s.2 ++ [.fetch ref])
  enforce call s := ((site.enforce call s.1).1, (site.enforce call s.1).2, s.2 ++ [.carryOut call])

/-- Writing this down changes nothing else. -/
theorem seenAs_asked (site : Site σ) : site.asked.SeenAs Prod.fst site where
  fetch _ _ := rfl
  enforce _ _ := rfl

theorem requests_receive (hfetch : (site.fetch c.ref s).1 = .ok (some p)) (before : List Request) :
    (site.asked.receive (.change c) (s, before)).2.2 = before ++ c.requests p := by
  have hasked : (site.asked.fetch c.ref (s, before)).1 = .ok (some p) := hfetch
  rw [state_receive hasked, Change.requests]
  split
  · rfl
  · simp [asked]

end Site

end Moderation
