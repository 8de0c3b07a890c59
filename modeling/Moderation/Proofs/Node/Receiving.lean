import Moderation.Proofs.Node.CachedSite
import Moderation.Proofs.Sync.Hearing
/-!
# Revocations that come from other nodes

A node that hears of a revoked mute looks the mute up before it lifts it, unless nothing is to be announced. So what
it does depends on whether the mute is still on record when the message is dealt with, which is what
`revocation_heard` says: the mute is forgotten, or everything stays as it was.
-/

namespace Moderation

open Sync

theorem Store.ref_of_fetch {s : Store} {ref : PunishmentRef} {p : Punishment} (h : s.fetch ref = some p) :
    p.ref = ref := by
  obtain ⟨hget, hkind⟩ := Option.filter_eq_some_iff.1 h
  have hid : p.id = ref.id := s.numbered ref.id p hget
  have hkind : p.kind = ref.kind := of_decide_eq_true hkind
  simp only [Punishment.ref, hid, hkind]

/-- What was cleared is not held for anyone. -/
theorem Mute.Cache.not_held_clearWhere {c : Cache} {now : Moment} {match? : Punishment → Bool} {key : Visitor}
    {q : Punishment} (h : (c.clearWhere now match?).2.held key = some (some q)) : ¬match? q := by
  rw [held_clearWhere] at h
  obtain ⟨v, -, hv⟩ := Option.map_eq_some_iff.1 h
  simpa using (Option.filter_eq_some_iff.1 hv).2

theorem Mute.Cache.not_held_follow_unenforce {c : Cache} {now : Moment} {p q : Punishment} {o : Options}
    {key : Visitor} (hmute : p.kind = .mute)
    (h : (c.follow now (.unenforce p o)).held key = some (some q)) : q.ref ≠ p.ref := by
  simp only [follow, hmute, if_true, clear] at h
  simpa using not_held_clearWhere h

theorem Mute.Cache.not_held_follow_unenforceById {c : Cache} {now : Moment} {ref : PunishmentRef} {q : Punishment}
    {o : Options} {key : Visitor} (hmute : ref.kind = .mute)
    (h : (c.follow now (.unenforceById ref o)).held key = some (some q)) : q.ref ≠ ref := by
  simp only [follow, hmute, if_true, clearId] at h
  rintro rfl
  exact not_held_clearWhere h (decide_eq_true rfl)

theorem Site.enforce_of_carryOut {σ : Type} {site : Site σ} {call : LocalCall} {s s' : σ} {r : Reception}
    (h : site.carryOut call s = (.ok r, s')) : r = .applied ∧ (site.enforce call s).2 = s' := by
  unfold carryOut at h
  rcases henforce : site.enforce call s with ⟨e | _, t⟩ <;> simp only [henforce, Prod.mk.injEq] at h
  · cases h.1
  · cases h.1
    exact ⟨rfl, h.2⟩

namespace Node

variable {M Link : Type} [Medium M Link]

/-! ## What a poll deals with -/

/-- The messages that a poll collects. -/
def collects (w : Surroundings) (m : M) (n : Node Link) : List Bytes :=
  ((Medium.poll w.now.wall m n.service.link).1.toOption).getD []

/-- What a poll does about the messages, one after the other. -/
def handlings (w : Surroundings) (m : M) (n : Node Link) : List Handling :=
  (handleAll n.service.self w.site (n.collects w m) n.state).1

/-- What the first `k` messages of a poll leave of a node's cache and platform. -/
def stateAfter (w : Surroundings) (m : M) (k : Nat) (n : Node Link) : Cached Platform :=
  (handleAll n.service.self w.site ((n.collects w m).take k) n.state).2

/-- A poll counts what it received, and leaves what its last message leaves. -/
theorem poll_eq (w : Surroundings) (m : M) (n : Node Link) :
    (n.poll w m).1 = (n.handlings w m).countP Handling.isReceived ∧
      (n.poll w m).2.state = n.stateAfter w m (n.collects w m).length := by
  unfold stateAfter handlings
  rw [List.take_length]
  unfold poll Service.poll collects
  rcases Medium.poll w.now.wall m n.service.link with ⟨_ | messages, link⟩ <;> exact ⟨rfl, rfl⟩

/-! ## Lifting a mute -/

/-- A node that hears that a mute is lifted. -/
theorem receive_lift {w : Surroundings} {c : Change} {s s' : Cached Platform} {r : Reception}
    (hmode : c.mode = .lift) (hmute : c.ref.kind = .mute) (h : w.site.receiveChange c s = (.ok r, s')) :
    if c.broadcasting = .none ∨ (w.store.fetch c.ref).isSome then
      r = .applied ∧ ∀ key q, s'.cache.held key = some (some q) → q.ref ≠ c.ref
    else r = .missing ∧ s' = s := by
  unfold Site.receiveChange at h
  by_cases hsilent : c.broadcasting = .none
  · rw [if_pos ⟨hmode, hsilent⟩] at h
    rw [if_pos (.inl hsilent)]
    obtain ⟨hr, rfl⟩ := Site.enforce_of_carryOut h
    refine ⟨hr, fun key q hq => ?_⟩
    rw [w.cache_enforce (by simp)] at hq
    exact Mute.Cache.not_held_follow_unenforceById hmute hq
  · rw [if_neg (fun h => hsilent h.2)] at h
    -- The store is asked, and answers.
    have hfetch : w.site.fetch c.ref s = (.ok (w.store.fetch c.ref), s) := rfl
    rw [hfetch] at h
    cases hp : w.store.fetch c.ref with
    | none =>
      simp only [hp, Prod.mk.injEq, Except.ok.injEq] at h
      simpa [hsilent] using ⟨h.1.symm, h.2.symm⟩
    | some p =>
      have hcall : Site.callOf c p = .unenforce p c.localOptions := by simp only [Site.callOf, hmode]
      simp only [hp, hcall] at h
      obtain ⟨hr, rfl⟩ := Site.enforce_of_carryOut h
      rw [if_pos (.inr rfl)]
      refine ⟨hr, fun key q hq => ?_⟩
      rw [w.cache_enforce (by simp)] at hq
      have href := Store.ref_of_fetch hp
      rw [← href]
      refine Mute.Cache.not_held_follow_unenforce ?_ hq
      exact (congrArg PunishmentRef.kind href).trans hmute

/-- A node revokes a mute and tells the others. Each of them that receives the message has forgotten the mute when
it has dealt with the message, if the mute is on record then or is lifted without being announced; otherwise it
misses the mute and is as it was before the message. The polls of the others count what they received, and leave what
their last message leaves. -/
theorem revocation_heard (a : Node Link) (w : Surroundings) (m : M) (p : Punishment) (o : Options) (call : LocalCall)
    (hmute : p.kind = .mute) (hcall : call = .unenforce p o ∨ call = .unenforceById p.ref o)
    (hdispatched : (a.give w call m).1 = .ok .dispatched) :
    ∃ message, call.packet.seal a.service.self = .ok message ∧
      Medium.send w.now.wall message m = .ok (a.give w call m).2.2 ∧
      ∀ (b : Node Link) (w' : Surroundings) (m' : M),
        ((b.poll w' m').1 = (b.handlings w' m').countP Handling.isReceived ∧
          (b.poll w' m').2.state = b.stateAfter w' m' (b.collects w' m').length) ∧
        ∀ (k : Nat) (r : Reception),
          (b.collects w' m')[k]? = some message → (b.handlings w' m')[k]? = some (.received r) →
          if o.broadcasting = .none ∨ (w'.store.fetch p.ref).isSome then
            r = .applied ∧ ∀ key q, (b.stateAfter w' m' (k + 1)).cache.held key = some (some q) → q.ref ≠ p.ref
          else r = .missing ∧ b.stateAfter w' m' (k + 1) = b.stateAfter w' m' k := by
  obtain ⟨message, hseal, hsend⟩ := sent_of_dispatched hdispatched
  refine ⟨message, hseal, hsend, fun b w' m' => ⟨b.poll_eq w' m', fun k r hk hr => ?_⟩⟩
  obtain ⟨hhandling, hstate⟩ := handleAll_take hk b.state
  have hreceived := Option.some.inj (hhandling.symm.trans hr)
  have hreceive := receive_of_received hseal hreceived
  have hpacket : call.packet = .change (.ofOptions p.ref .lift o) := by
    rcases hcall with rfl | rfl <;> rfl
  rw [hpacket, ← hstate] at hreceive
  exact receive_lift rfl hmute hreceive

/-- The mute that is revoked has been edited by the time the other node hears of it, and is forgotten there. -/
theorem edited_mute_forgotten :
    let key : Visitor := default
    let p : Punishment := ⟨1, .mute, .player key.user, .console, "spam", .global, 0, 0⟩
    let before : Surroundings := ⟨⟨0, 1000⟩, ({} : Store).insert p⟩
    let after : Surroundings := ⟨⟨10, 2000⟩, before.store.insert { p with reason := "flood" }⟩
    let call : LocalCall := .unenforceById p.ref .global
    let a := ofConfig {} default ({} : Cursor) .silent
    let b := ((ofConfig { muteCache := { variant := .onDemand } } ⟨List.replicate 16 1, rfl⟩
      ({ last := some 0 } : Cursor) .silent).consult before key).2
    let m := (a.give before call ({} : Mailbox)).2.2
    (a.give before call ({} : Mailbox)).1 = .ok .dispatched ∧ b.cache.held key = some (some p) ∧
      (b.handlings after m)[0]? = some (.received .applied) ∧
      (b.poll after m).1 = (b.handlings after m).countP Handling.isReceived ∧
      (b.poll after m).2.state = b.stateAfter after m (b.collects after m).length ∧
      ∀ key q, (b.stateAfter after m 1).cache.held key = some (some q) → q.ref ≠ p.ref := by
  intro key p before after call a b m
  have hdispatched : (a.give before call ({} : Mailbox)).1 = .ok .dispatched := by decide +kernel
  have hreceived : (b.handlings after m)[0]? = some (.received .applied) := by decide +kernel
  obtain ⟨message, hseal, -, hheard⟩ :=
    revocation_heard a before ({} : Mailbox) p .global call (by decide) (.inr rfl) hdispatched
  have hcollected : (b.collects after m)[0]? = (call.packet.seal a.service.self).toOption := by decide +kernel
  rw [hseal] at hcollected
  obtain ⟨⟨hcount, hstate⟩, hdealt⟩ := hheard b after m
  have hforgotten := hdealt 0 _ hcollected hreceived
  rw [if_pos (.inr (by decide +kernel))] at hforgotten
  exact ⟨hdispatched, by decide +kernel, hreceived, hcount, hstate, hforgotten.2⟩

/-- The mute that is revoked is off record by the time the other node hears of it, and stays in the cache there. -/
theorem revoked_mute_stays :
    let key : Visitor := default
    let p : Punishment := ⟨1, .mute, .player key.user, .console, "spam", .global, 0, 0⟩
    let before : Surroundings := ⟨⟨0, 1000⟩, ({} : Store).insert p⟩
    let after : Surroundings := ⟨⟨10, 2000⟩, before.store.erase p.id⟩
    let a := ofConfig {} default ({} : Cursor) .silent
    let b := ((ofConfig {} ⟨List.replicate 16 1, rfl⟩ ({ last := some 0 } : Cursor) .silent).welcome before key).2
    let given := a.give before (.unenforce p .global) ({} : Mailbox)
    given.1 = .ok .dispatched ∧ b.cache.ledger.pending = [] ∧ b.handlings after given.2.2 = [.received .missing] ∧
      (b.poll after given.2.2).1 = 1 ∧ (b.poll after given.2.2).2.cache.held key = some (some p) := by
  intro key p before after a b given
  exact ⟨by decide +kernel, by decide +kernel, by decide +kernel, by decide +kernel, by decide +kernel⟩

end Node

end Moderation
