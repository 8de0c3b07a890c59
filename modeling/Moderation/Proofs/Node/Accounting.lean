import Moderation.Proofs.Medium.Log
import Moderation.Proofs.Node.CachedSite
import Moderation.Proofs.Sync.Hearing
import Moderation.Sync.Archive
/-!
# What a command answers for

A command is carried out at the site, put into a message and sent, and each of these can fail. What it answers tells
how far it got and what it has left behind: the site stands where the call alone has brought it, and the medium has
one message more just when the answer says so. All of this is read off `Effect`, and said together in
`accounts_command`.
-/

namespace Moderation

/-- When changed details cannot be looked up, only the look-up was made. -/
theorem Site.enforce_of_unfetched {σ : Type} {site : Site σ} {now : Moment} {id : PunishmentId} {s : Cached σ}
    {e : StoreError} (h : (site.fetch ⟨id, .mute⟩ s.site).1 = .error e) :
    (site.withCache now).enforce (.refreshDetails id) s =
      (.error (.store e), { s with site := (site.fetch ⟨id, .mute⟩ s.site).2 }) := by
  simp only [withCache, enforceCached, refresh, Cached.behind, h]

/-- Why a packet does not get into the medium. -/
def Sync.Service.CannotSend {M Link : Type} [Medium M Link] (time : Timestamp) (packet : Packet) (v : Service Link)
    (m : M) : Error → Prop
  | .encode e => packet.seal v.self = .error e
  | .store e => ∃ message, packet.seal v.self = .ok message ∧ Medium.send time message m = .error e

namespace Node

open Medium (Log)
open Sync (Outcome Service)

variable {M Link σ : Type} [Medium M Link]

/-! ## What is read off an effect -/

namespace Effect

variable {time : Timestamp} {site : Site σ} {call : LocalCall} {v v' : Service Link} {m m' : M} {s s' : σ}
  {outcome : Except CommandError Outcome}

/-- Commands that are announced are counted, and no others. -/
theorem counted (h : Effect time site call v m s (outcome, v', m', s')) :
    v'.stats.dispatched = v.stats.dispatched + (if outcome = .ok .dispatched then 1 else 0) := by
  cases h with
  | announced => rfl
  | idle | refused | kept | unsealed | unsent => rfl

theorem announced_of_dispatched [Medium.Log M Link] (hopen : Log.Open m)
    (h : Effect time site call v m s (.ok .dispatched, v', m', s')) :
    ∃ message, call.packet.seal v.self = .ok message ∧ Log.messages m' = Log.messages m ++ [message] := by
  cases h with
  | announced _ _ hseal hsend => exact ⟨_, hseal, Log.messages_send hopen hsend⟩

/-- A command that is not announced leaves the medium alone. -/
theorem medium_of_quiet (h : Effect time site call v m s (outcome, v', m', s')) (hquiet : outcome ≠ .ok .dispatched) :
    m' = m := by
  cases h with
  | announced => exact absurd rfl hquiet
  | idle | refused | kept | unsealed | unsent => rfl

/-- The site stands where the call alone has brought it. -/
theorem state_of_active (h : Effect time site call v m s (outcome, v', m', s')) (hactive : ¬call.Idle) :
    s' = (site.enforce call s).2 := by
  cases h with
  | idle hidle => exact absurd hidle hactive
  | refused _ henforce | kept _ _ henforce | unsealed _ henforce | unsent _ henforce | announced _ henforce =>
    rw [henforce]

theorem eq_of_idle (h : Effect time site call v m s (outcome, v', m', s')) (hidle : call.Idle) :
    outcome = .ok .skipped ∧ v' = v ∧ m' = m ∧ s' = s := by
  obtain ⟨o, ho, hnone⟩ := hidle
  cases h with
  | idle => exact ⟨rfl, rfl, rfl, rfl⟩
  | refused hactive => exact absurd ⟨o, ho, hnone⟩ hactive
  | kept ho' hsingle =>
    obtain rfl := Option.some.inj (ho.symm.trans ho')
    cases hnone.symm.trans hsingle
  | unsealed hglobal | unsent hglobal | announced hglobal => cases hnone.symm.trans (hglobal o ho)

/-- What is for this node alone is skipped and counted when it has been carried out. -/
theorem eq_of_single (h : Effect time site call v m s (outcome, v', m', s')) {o : Options} (ho : o ∈ call.options?)
    (hsingle : o.enforcement = .singleServer) : m' = m ∧ s' = (site.enforce call s).2 ∧
      match (site.enforce call s).1 with
      | .ok () => outcome = .ok .skipped ∧ v' = { v with stats.skipped := v.stats.skipped + 1 }
      | .error e => outcome = .error (.enforcement e) ∧ v' = v := by
  cases h with
  | idle hidle =>
    obtain ⟨o', ho', hnone⟩ := hidle
    obtain rfl := Option.some.inj (ho.symm.trans ho')
    cases hsingle.symm.trans hnone
  | refused _ henforce | kept _ _ henforce =>
    rw [henforce]
    exact ⟨rfl, rfl, rfl, rfl⟩
  | unsealed hglobal | unsent hglobal | announced hglobal => cases hsingle.symm.trans (hglobal o ho)

theorem refused_iff (h : Effect time site call v m s (outcome, v', m', s')) {e : EnforcementError} :
    outcome = .error (.enforcement e) ↔ ¬call.Idle ∧ (site.enforce call s).1 = .error e := by
  cases h with
  | idle hidle => simp [hidle]
  | refused hactive henforce => simp [hactive, henforce, eq_comm]
  | kept _ _ henforce | unsealed _ henforce | unsent _ henforce | announced _ henforce => simp [henforce]

/-- A command that was not carried out or not announced leaves the service alone. -/
theorem service_of_error {e : CommandError} (h : Effect time site call v m s (.error e, v', m', s')) : v' = v := by
  cases h with
  | refused | unsealed | unsent => rfl

/-- What could not be announced has been carried out, and could not be put into a message or not be sent. -/
theorem carried_of_untold {e : Sync.Error} (h : Effect time site call v m s (.error (.sync e), v', m', s')) :
    site.enforce call s = (.ok (), s') ∧ v.CannotSend time call.packet m e := by
  cases h with
  | unsealed _ henforce hseal => exact ⟨henforce, hseal⟩
  | unsent _ henforce hseal hsend => exact ⟨henforce, _, hseal, hsend⟩

/-- Only what is not for other nodes is skipped. -/
theorem local_of_skipped (h : Effect time site call v m s (.ok .skipped, v', m', s')) :
    call.Idle ∨ ∃ o ∈ call.options?, o.enforcement = .singleServer := by
  cases h with
  | idle hidle => exact .inl hidle
  | kept ho hsingle => exact .inr ⟨_, ho, hsingle⟩

end Effect

/-! ## What a command answers for -/

/-- The outcome of a command at a site with a cache tells what has become of the service, the medium, the cache and
the platform. `carried` is what the call alone brings about at the site. -/
structure Accounts [Medium.Log M Link] {π : Type} (platform : σ → π) (time : Timestamp) (site : Site σ)
    (call : LocalCall) (v : Service Link) (m : M) (s : Cached σ) (carried : Except EnforcementError Unit × Cached σ)
    (outcome : Except CommandError Outcome) (v' : Service Link) (m' : M) (s' : Cached σ) : Prop where
  /-- A message is added just when the outcome is that the call was dispatched. -/
  gains_iff : (∃ message, Log.messages m' = Log.messages m ++ [message]) ↔ outcome = .ok .dispatched
  counts_iff : v'.stats.dispatched = v.stats.dispatched + 1 ↔ outcome = .ok .dispatched
  /-- The message is that of the call. -/
  announced : outcome = .ok .dispatched →
    ∃ message, call.packet.seal v.self = .ok message ∧ Log.messages m' = Log.messages m ++ [message]
  quiet : outcome ≠ .ok .dispatched → m' = m ∧ v'.stats.dispatched = v.stats.dispatched
  /-- Nothing is done at the site but what the call does there. -/
  at_site : ¬call.Idle → s' = carried.2
  /-- Without enforcement everything stays as it is. -/
  idle : call.Idle → outcome = .ok .skipped ∧ v' = v ∧ m' = m ∧ s' = s
  /-- What is for this node alone is skipped and counted when it has been carried out. -/
  single : ∀ o ∈ call.options?, o.enforcement = .singleServer → m' = m ∧ s' = carried.2 ∧
    match carried.1 with
    | .ok () => outcome = .ok .skipped ∧ v' = { v with stats.skipped := v.stats.skipped + 1 }
    | .error e => outcome = .error (.enforcement e) ∧ v' = v
  /-- The call could not be carried out, and nothing was announced. -/
  refused : ∀ e, outcome = .error (.enforcement e) → carried = (.error e, s') ∧ v' = v ∧ m' = m
  /-- The call was carried out, but could not be put into a message, or the message could not be sent. -/
  untold : ∀ e, outcome = .error (.sync e) → carried = (.ok (), s') ∧ v' = v ∧ m' = m ∧ v.CannotSend time call.packet m e
  skipped : outcome = .ok .skipped → call.Idle ∨ ∃ o ∈ call.options?, o.enforcement = .singleServer
  /-- When changed details cannot be looked up, nothing happens. -/
  unfetched : ∀ id e, call = .refreshDetails id → (site.fetch ⟨id, .mute⟩ s.site).1 = .error e →
    outcome = .error (.enforcement (.store e)) ∧ v' = v ∧ m' = m ∧ s'.cache = s.cache ∧
      platform s'.site = platform s.site

/-- Whatever fails at the site, in writing the message or in sending it, a command answers for all that it did, at a
node that is connected to the medium. The platform is a part of the site that look-ups leave alone. -/
theorem accounts_command [Medium.Log M Link] {π : Type} {platform : σ → π} {site : Site σ}
    (hfetch : ∀ ref s, platform (site.fetch ref s).2 = platform s) {m : M} (hopen : Log.Open m) (time : Timestamp)
    (now : Moment) (call : LocalCall) (v : Service Link) (s : Cached σ) :
    let r := command time (site.withCache now) call v m s
    Accounts platform time site call v m s ((site.withCache now).enforce call s) r.1 r.2.1 r.2.2.1 r.2.2.2 := by
  intro r
  have h : Effect time (site.withCache now) call v m s r := effect_command time (site.withCache now) call v m s
  clear_value r
  obtain ⟨outcome, v', m', s'⟩ := r
  have hquiet : outcome ≠ .ok .dispatched → v'.stats.dispatched = v.stats.dispatched := by
    intro hne
    rw [h.counted, if_neg hne, Nat.add_zero]
  constructor
  case gains_iff =>
    constructor
    · rintro ⟨message, hmessage⟩
      by_contra hne
      rw [h.medium_of_quiet hne] at hmessage
      exact absurd hmessage.symm (by simp)
    · rintro rfl
      obtain ⟨message, -, hmessage⟩ := h.announced_of_dispatched hopen
      exact ⟨message, hmessage⟩
  case counts_iff =>
    constructor
    · intro hcount
      by_contra hne
      rw [hquiet hne] at hcount
      omega
    · intro hdispatched
      rw [h.counted, if_pos hdispatched]
  case announced =>
    rintro rfl
    exact h.announced_of_dispatched hopen
  case quiet =>
    intro hne
    exact ⟨h.medium_of_quiet hne, hquiet hne⟩
  case at_site => exact h.state_of_active
  case idle => exact h.eq_of_idle
  case single =>
    intro o ho hsingle
    exact h.eq_of_single ho hsingle
  case refused =>
    rintro e rfl
    obtain ⟨hactive, hrefused⟩ := h.refused_iff.1 rfl
    exact ⟨Prod.ext hrefused (h.state_of_active hactive).symm, h.service_of_error, h.medium_of_quiet (by simp)⟩
  case untold =>
    rintro e rfl
    obtain ⟨hcarried, hfailed⟩ := h.carried_of_untold
    exact ⟨hcarried, h.service_of_error, h.medium_of_quiet (by simp), hfailed⟩
  case skipped =>
    rintro rfl
    exact h.local_of_skipped
  case unfetched =>
    rintro id e rfl hlookup
    have hcarried : (site.withCache now).enforce (.refreshDetails id) s = _ := Site.enforce_of_unfetched hlookup
    have hactive : ¬(LocalCall.refreshDetails id).Idle := by
      rintro ⟨o, ho, -⟩
      cases ho
    obtain rfl := h.refused_iff.2 ⟨hactive, congrArg Prod.fst hcarried⟩
    obtain rfl := h.state_of_active hactive
    rw [hcarried]
    exact ⟨rfl, h.service_of_error, h.medium_of_quiet (by simp), rfl, hfetch _ _⟩

/-- The mailbox cannot be written to and the archive cannot be read: a punishment is imposed here without being told,
and changed details are not taken over. -/
theorem accounts_of_failures :
    let p : Punishment := ⟨1, .mute, .player default, .console, "spam", .global, 0, 0⟩
    let now : Moment := ⟨0, 1000⟩
    let site := Sync.Archive.site.withCache now
    let s : Cached (Sync.Archive × Sync.Recorder) := ⟨.ofConfig {}, ({ failure := some (.unavailable "down") }, {})⟩
    let m : Mailbox := { writeFailure := some (.timeout 5) }
    let v : Service Cursor := { self := default, link := {} }
    let imposed := command 1000 site (.enforce p .global) v m s
    let changed := command 1000 site (.refreshDetails 1) v m s
    imposed.1 = .error (.sync (.store (.timeout 5))) ∧ imposed.2.2.2.site.2.calls = [.enforce p .global] ∧
      site.enforce (.enforce p .global) s = (.ok (), imposed.2.2.2) ∧ imposed.2.1 = v ∧ imposed.2.2.1 = m ∧
      changed.1 = .error (.enforcement (.store (.unavailable "down"))) ∧ changed.2.1 = v ∧ changed.2.2.1 = m ∧
      changed.2.2.2.cache = s.cache ∧ changed.2.2.2.site.2 = s.site.2 := by
  intro p now site s m v imposed changed
  have haccounts (call : LocalCall) : let r := command 1000 site call v m s
      Accounts Prod.snd 1000 Sync.Archive.site call v m s (site.enforce call s) r.1 r.2.1 r.2.2.1 r.2.2.2 :=
    accounts_command (fun _ _ => rfl) trivial 1000 now call v s
  have himposed : imposed.1 = .error (.sync (.store (.timeout 5))) := by decide +kernel
  obtain ⟨hcarried, hservice, hmedium, -⟩ := (haccounts (.enforce p .global)).untold _ himposed
  refine ⟨himposed, by decide +kernel, hcarried, hservice, hmedium, ?_⟩
  exact (haccounts (.refreshDetails 1)).unfetched 1 (.unavailable "down") rfl rfl

end Node

end Moderation
