import Moderation.Proofs.Mute.Clearing
import Moderation.Proofs.Node.CachedSite
import Moderation.Proofs.Sync.Requests
/-!
# Changes have the same effect everywhere

A change that is made at one node and received at another asks the same of both, but for the options, and it leaves
equal mute caches equal: `heard_as_made`.
-/

namespace Moderation

open Sync

/-- A change can be told to others if its target is not too long. -/
theorem Packet.exists_seal {ref : PunishmentRef} {mode : Mode} {o : Options}
    (htarget : ∀ s ∈ o.target, s.utf8ByteSize ≤ 65535) (self : Uuid) :
    ∃ message, Packet.seal self (.change (.ofOptions ref mode o)) = .ok message := by
  cases hseal : Packet.seal self (.change (.ofOptions ref mode o)) with
  | ok message => exact ⟨message, rfl⟩
  | error err =>
    obtain ⟨c, s, hc, hs, hsize, -⟩ := Envelope.unwritable_iff.1 (Envelope.encode_eq_error_iff.1 hseal)
    cases hc
    have hs : s ∈ o.target := (Option.filter_eq_some_iff.1 hs).1
    exact absurd (htarget s hs) (Nat.not_le.2 hsize)

namespace Site

variable {σ : Type} {site : Site σ} {now : Moment} {c : Change} {p : Punishment} {t : Cached σ}

/-- The cache of a site that receives a change follows the one call that the site carries out. -/
theorem cache_receive (hfetch : (site.fetch c.ref t.site).1 = .ok (some p)) :
    ((site.withCache now).receive (.change c) t).2.cache = t.cache.follow now (c.call p) := by
  have hbehind : ((site.withCache now).fetch c.ref t).1 = .ok (some p) := hfetch
  have hcall : ∀ id, c.call p ≠ .refreshDetails id := by
    unfold Change.call callOf
    split
    · simp
    · split <;> simp
  rw [state_receive hbehind, site.cache_enforce now hcall]
  split <;> rfl

end Site

/-- A cache that holds mutes alone follows a lifted punishment in one way, however it is named. -/
theorem Mute.Cache.follow_unenforceById {c : Cache} (hmutes : ∀ key q, c.held key = some (some q) → q.kind = .mute)
    (now : Moment) (p : Punishment) (o : Options) :
    c.follow now (.unenforceById p.ref o) = c.follow now (.unenforce p o) := by
  have hkind : p.ref.kind = p.kind := rfl
  simp only [follow, hkind]
  split
  · next hmute => rw [clear_eq_clearId hmutes hmute]
  · rfl

/-- The call is announced in this message, and whoever receives the message is asked for what `requests` says. -/
structure HeardAsMade (a b : Uuid) (p : Punishment) (call : LocalCall) (requests : List Request) (message : Bytes) :
    Prop where
  /-- When the call is carried out at the node `a`, the message is what goes into the medium. -/
  sent : ∀ {M Link σ : Type} [Medium M Link] (now : Timestamp) (site : Site σ) (v : Service Link) (m : M) (s : σ),
    v.self = a → (site.enforce call s).1 = .ok () → Node.command now site call v m s =
      match Medium.send now message m with
      | .ok m' => (.ok .dispatched, { v with stats.dispatched := v.stats.dispatched + 1 }, m', (site.enforce call s).2)
      | .error e => (.error (.sync (.store e)), v, m, (site.enforce call s).2)
  /-- A site of the node `b` that has the punishment is asked for this, in this order, and for nothing else. -/
  asked : ∀ {σ : Type} (site : Site σ) (s : σ), (site.fetch p.ref s).1 = .ok (some p) →
    handle b site.asked message (s, []) =
      ((handle b site message s).1, (handle b site message s).2, requests)
  /-- A cache at the node `b` becomes what the same cache becomes at the node `a`. -/
  cached : ∀ {σ τ : Type} (now : Moment) (site : Site σ) (site' : Site τ) (s : Cached σ) (t : Cached τ),
    (site'.fetch p.ref t.site).1 = .ok (some p) → s.cache = t.cache →
    (∀ key q, t.cache.held key = some (some q) → q.kind = .mute) →
    (handle b (site'.withCache now) message t).2.cache = ((site.withCache now).enforce call s).2.cache

variable {a b : Uuid} {p : Punishment} {o : Options}

/-- A change for all nodes is heard as it was made if caches follow what is heard as they followed what was made. -/
theorem heardAsMade_of_follow (call : LocalCall) (mode : Mode) (hne : a ≠ b)
    (hglobal : ∀ o ∈ call.options?, o.enforcement = .global) (htarget : ∀ s ∈ o.target, s.utf8ByteSize ≤ 65535)
    (hpacket : call.packet = .change (.ofOptions p.ref mode o))
    (hfollow : ∀ (c : Mute.Cache) (now : Moment), (∀ key q, c.held key = some (some q) → q.kind = .mute) →
      c.follow now ((Change.ofOptions p.ref mode o).heard.call p) = c.follow now call) :
    ∃ message, HeardAsMade a b p call ((Change.ofOptions p.ref mode o).heard.requests p) message := by
  obtain ⟨message, hseal⟩ := Packet.exists_seal htarget a
  rw [← hpacket] at hseal
  refine ⟨message, ?_, ?_, ?_⟩
  · rintro M Link σ _ now site v m s rfl hcarried
    exact command_of_seal hglobal hseal hcarried
  · intro σ site s hfetch
    have hrequests : (handle b site.asked message (s, [])).2.2 =
        (Change.ofOptions p.ref mode o).heard.requests p := by
      rw [handle_of_seal hseal hne, hpacket]
      exact Site.requests_receive hfetch []
    rw [site.seenAs_asked.handle b message (s, []), ← hrequests]
  · intro σ τ now site site' s t hfetch hcache hmutes
    have hid : ∀ id, call ≠ .refreshDetails id := by
      rintro id rfl
      cases hpacket
    rw [handle_of_seal hseal hne, hpacket, site.cache_enforce now hid, hcache]
    exact (Site.cache_receive hfetch).trans (hfollow t.cache now hmutes)

/-- What a node does for all nodes about a punishment, another node that has the punishment does too: it is asked for
the punishment and then to impose or to lift it, or only to lift it by its name when nothing is to be announced. The
options are those of the change, but for this node alone, without an empty target, and with the console for a player
without a number. What becomes of a mute cache is the same at both nodes. -/
theorem heard_as_made (hne : a ≠ b) (hglobal : o.enforcement = .global)
    (htarget : ∀ s ∈ o.target, s.utf8ByteSize ≤ 65535) :
    (∃ message, HeardAsMade a b p (.enforce p o) [.fetch p.ref, .carryOut (.enforce p o.heard)] message) ∧
    ∀ call, call = .unenforce p o ∨ call = .unenforceById p.ref o → ∃ message, HeardAsMade a b p call
      (if o.broadcasting = .none then [.carryOut (.unenforceById p.ref o.heard)]
        else [.fetch p.ref, .carryOut (.unenforce p o.heard)]) message := by
  constructor
  · rw [← Change.requests_impose]
    refine heardAsMade_of_follow _ .impose hne (by simpa [LocalCall.options?]) htarget rfl fun c now _ => ?_
    rw [Change.call_impose]
    rfl
  · -- The cache cannot tell the ways in which a punishment is lifted from one another.
    have hlift (c : Mute.Cache) (now : Moment) (hmutes : ∀ key q, c.held key = some (some q) → q.kind = .mute) :
        c.follow now ((Change.ofOptions p.ref .lift o).heard.call p) = c.follow now (.unenforce p o) := by
      rw [Change.call_lift]
      split
      · exact c.follow_unenforceById hmutes now p o.heard
      · rfl
    rintro call (rfl | rfl)
    · rw [← Change.requests_lift]
      exact heardAsMade_of_follow _ .lift hne (by simpa [LocalCall.options?]) htarget rfl hlift
    · rw [← Change.requests_lift]
      refine heardAsMade_of_follow _ .lift hne (by simpa [LocalCall.options?]) htarget rfl fun c now hmutes => ?_
      rw [hlift c now hmutes, Mute.Cache.follow_unenforceById hmutes]

/-- A muted visitor's mute is lifted without being announced, under options of which some is lost on the way. -/
theorem heard_as_made_of_vague_options :
    let key : Visitor := default
    let p : Punishment := ⟨1, .mute, .player key.user, .console, "spam", .global, 0, 0⟩
    let w : Node.Surroundings := ⟨⟨0, 1000⟩, ({} : Store).insert p⟩
    let b : Uuid := ⟨List.replicate 16 1, rfl⟩
    let o : Options := { broadcasting := .none, target := some "", lifter := some (.player .nil) }
    let heard : Options := { enforcement := .singleServer, broadcasting := .none, lifter := some .console }
    let cache : Mute.Cache := .onDemand
      { policy := .write 1000, entries := .ofList [(key, .ofSource 0 (.known (some p)) w.now.steady)], nextId := 1 }
    let state : Cached Node.Platform := ⟨cache, .silent⟩
    ∃ message, HeardAsMade default b p (.unenforce p o) [.carryOut (.unenforceById p.ref heard)] message ∧
      (handle b w.site.asked message (state, [])).2.2 = [.carryOut (.unenforceById p.ref heard)] ∧
      (handle b w.site message state).2.cache = (cache.clear w.now p.ref).2 ∧
      (cache.clear w.now p.ref).2.held key = some none := by
  intro key p w b o heard cache state
  obtain ⟨message, hheard⟩ := (heard_as_made (a := default) (b := b) (p := p) (o := o) (by decide) rfl
    (by decide)).2 (.unenforce p o) (.inl rfl)
  have hmutes : ∀ key' q, cache.held key' = some (some q) → q.kind = .mute := by
    intro key' q hq
    obtain ⟨e, he, hvalue⟩ := Option.bind_eq_some_iff.1 hq
    obtain ⟨-, rfl⟩ := Prod.mk.inj (List.mem_singleton.1 (Table.get?_eq_some_iff.1 he))
    cases hvalue
    rfl
  refine ⟨message, hheard, ?_, ?_, by decide +kernel⟩
  · rw [hheard.asked w.site state rfl]
    rfl
  · exact hheard.cached w.now { fetch := w.store.selector, enforce := Node.Platform.enforce } _ state state rfl rfl hmutes

end Moderation
