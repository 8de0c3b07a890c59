import Moderation.Node.Command
import Moderation.Proofs.Packet.RoundTrip
import Moderation.Proofs.Sync.Handling
/-!
# What others hear of a command

`Node.Effect` is all that can come of a command. One that was announced is one message in the medium,
`sent_of_dispatched`. A node that collects it receives the packet in it, `receive_of_received`, in the state in which
the messages before it have left the node.
-/

namespace Moderation

/-- What is told to others of a call. -/
def LocalCall.packet : LocalCall → Packet
  | enforce p o => .change (.ofOptions p.ref .impose o)
  | unenforce p o => .change (.ofOptions p.ref .lift o)
  | unenforceById ref o => .change (.ofOptions ref .lift o)
  | clearExpunged id => .expunge id
  | refreshDetails id => .updateDetails id

variable {M Link σ : Type} [Medium M Link] {now : Timestamp}

/-! ## What comes of a command -/

theorem Sync.Service.announce_eq_send {call : LocalCall} (hglobal : ∀ o ∈ call.options?, o.enforcement = .global)
    {v : Service Link} {m : M} : v.announce now call m = v.send now call.packet m := by
  cases call with
  | enforce p o | unenforce p o | unenforceById ref o => exact if_pos (hglobal o rfl)
  | clearExpunged | refreshDetails => rfl

/-- What is not for all nodes is not announced. -/
theorem Sync.Service.announce_of_ne_global {call : LocalCall} {o : Options} (ho : o ∈ call.options?)
    (hlocal : o.enforcement ≠ .global) {v : Service Link} {m : M} :
    v.announce now call m = (.ok .skipped, { v with stats.skipped := v.stats.skipped + 1 }, m) := by
  cases call with
  | enforce p o' | unenforce p o' | unenforceById ref o' =>
    obtain rfl := Option.some.inj ho
    exact if_neg hlocal
  | clearExpunged | refreshDetails => cases ho

namespace Node

/-- All that can come of a command: its outcome, the service, the medium, and the state of the site. -/
inductive Effect (now : Timestamp) (site : Site σ) (call : LocalCall) (v : Sync.Service Link) (m : M) (s : σ) :
    Except CommandError Sync.Outcome × Sync.Service Link × M × σ → Prop
  | idle : call.Idle → Effect now site call v m s (.ok .skipped, v, m, s)
  | refused {e s'} : ¬call.Idle → site.enforce call s = (.error e, s') →
      Effect now site call v m s (.error (.enforcement e), v, m, s')
  /-- It was for this node alone. -/
  | kept {o s'} : o ∈ call.options? → o.enforcement = .singleServer → site.enforce call s = (.ok (), s') →
      Effect now site call v m s (.ok .skipped, { v with stats.skipped := v.stats.skipped + 1 }, m, s')
  | unsealed {e s'} : (∀ o ∈ call.options?, o.enforcement = .global) → site.enforce call s = (.ok (), s') →
      call.packet.seal v.self = .error e → Effect now site call v m s (.error (.sync (.encode e)), v, m, s')
  | unsent {message e s'} : (∀ o ∈ call.options?, o.enforcement = .global) → site.enforce call s = (.ok (), s') →
      call.packet.seal v.self = .ok message → Medium.send now message m = .error e →
      Effect now site call v m s (.error (.sync (.store e)), v, m, s')
  | announced {message m' s'} : (∀ o ∈ call.options?, o.enforcement = .global) →
      site.enforce call s = (.ok (), s') → call.packet.seal v.self = .ok message →
      Medium.send now message m = .ok m' → Effect now site call v m s
        (.ok .dispatched, { v with stats.dispatched := v.stats.dispatched + 1 }, m', s')

theorem effect_command (now : Timestamp) (site : Site σ) (call : LocalCall) (v : Sync.Service Link) (m : M) (s : σ) :
    Effect now site call v m s (command now site call v m s) := by
  unfold command
  by_cases hidle : call.Idle
  · rw [if_pos hidle]
    exact .idle hidle
  rw [if_neg hidle]
  rcases henforce : site.enforce call s with ⟨e | _, s'⟩
  · exact .refused hidle henforce
  by_cases hglobal : ∀ o ∈ call.options?, o.enforcement = .global
  · dsimp only
    rw [Sync.Service.announce_eq_send hglobal]
    unfold Sync.Service.send
    cases hseal : call.packet.seal v.self with
    | error e => exact .unsealed hglobal henforce hseal
    | ok message =>
      cases hsend : Medium.send now message m with
      | error e => simpa only [hsend] using .unsent hglobal henforce hseal hsend
      | ok m' => simpa only [hsend] using .announced hglobal henforce hseal hsend
  · obtain ⟨o, ho, hlocal⟩ : ∃ o ∈ call.options?, o.enforcement ≠ .global := by
      simpa only [not_forall, exists_prop] using hglobal
    dsimp only
    rw [Sync.Service.announce_of_ne_global ho hlocal]
    have hsingle : o.enforcement = .singleServer := by
      cases h : o.enforcement with
      | global => exact absurd h hlocal
      | singleServer => rfl
      | none => exact absurd ⟨o, ho, h⟩ hidle
    exact .kept ho hsingle henforce

end Node

namespace Sync

variable {v : Service Link} {m : M}

/-- A command that was announced was carried out before, is one message, and is counted. -/
theorem command_of_dispatched {site : Site σ} {call : LocalCall} {s : σ}
    (h : (Node.command now site call v m s).1 = .ok .dispatched) :
    ∃ message m', call.packet.seal v.self = .ok message ∧ Medium.send now message m = .ok m' ∧
      (Node.command now site call v m s).2 =
        ({ v with stats.dispatched := v.stats.dispatched + 1 }, m', (site.enforce call s).2) := by
  have heffect := Node.effect_command now site call v m s
  generalize Node.command now site call v m s = r at h heffect
  cases heffect with
  | announced hglobal henforce hseal hsend => exact ⟨_, _, hseal, hsend, by rw [henforce]⟩
  | idle | refused | kept | unsealed | unsent => cases h

/-- A command that was announced is one message. -/
theorem sent_of_dispatched {site : Site σ} {call : LocalCall} {s : σ}
    (h : (Node.command now site call v m s).1 = .ok .dispatched) :
    ∃ message, call.packet.seal v.self = .ok message ∧
      Medium.send now message m = .ok (Node.command now site call v m s).2.2.1 := by
  obtain ⟨message, m', hseal, hsend, hcommand⟩ := command_of_dispatched h
  rw [hcommand]
  exact ⟨message, hseal, hsend⟩

/-- What comes of a command for all nodes once it is carried out here hangs on the medium alone. -/
theorem command_of_seal {site : Site σ} {call : LocalCall} {s : σ} {message : Bytes}
    (hglobal : ∀ o ∈ call.options?, o.enforcement = .global) (hseal : call.packet.seal v.self = .ok message)
    (hcarried : (site.enforce call s).1 = .ok ()) :
    Node.command now site call v m s = match Medium.send now message m with
      | .ok m' => (.ok .dispatched, { v with stats.dispatched := v.stats.dispatched + 1 }, m', (site.enforce call s).2)
      | .error e => (.error (.sync (.store e)), v, m, (site.enforce call s).2) := by
  have heffect := Node.effect_command now site call v m s
  generalize Node.command now site call v m s = r at heffect ⊢
  cases heffect with
  | idle hidle =>
    obtain ⟨o, ho, hnone⟩ := hidle
    cases hnone.symm.trans (hglobal o ho)
  | refused _ henforce =>
    rw [henforce] at hcarried
    cases hcarried
  | kept ho hsingle => cases hsingle.symm.trans (hglobal _ ho)
  | unsealed _ _ hfailed => cases hseal.symm.trans hfailed
  | unsent _ henforce hsealed hsend | announced _ henforce hsealed hsend =>
    obtain rfl := Except.ok.inj (hseal.symm.trans hsealed)
    rw [henforce, hsend]

/-! ## Receiving -/

variable {self origin : Uuid} {site : Site σ} {s : σ}

/-- What a reception says of the message. -/
def Handling.ofReception : Except ReceiveError Reception → Handling
  | .ok r => .received r
  | .error e => .failed e

/-- What a node does about the message of another one: its site receives the packet that was put into it. -/
theorem handle_of_seal {packet : Packet} {message : Bytes} (hseal : packet.seal origin = .ok message)
    (hne : origin ≠ self) (site : Site σ) (s : σ) : handle self site message s =
      (.ofReception (site.receive packet.heard s).1, (site.receive packet.heard s).2) := by
  have hheard := Packet.hear_seal hseal hne []
  rw [List.append_nil] at hheard
  simp only [handle, hheard]
  rcases site.receive packet.heard s with ⟨e | r, s'⟩ <;> rfl

/-- Who receives anything in a message receives the packet that was put into it. -/
theorem receive_of_received {packet : Packet} {message : Bytes} (hseal : packet.seal origin = .ok message)
    {r : Reception} (h : (handle self site message s).1 = .received r) :
    site.receive packet.heard s = (.ok r, (handle self site message s).2) := by
  by_cases hown : origin = self
  · subst hown
    have hnot := (handle_of_not_heard (Packet.not_hear_seal hseal) site s).1
    rw [h] at hnot
    exact absurd trivial hnot
  · rw [handle_of_seal hseal hown] at h ⊢
    rcases hr : site.receive packet.heard s with ⟨e | r', s'⟩
    · simp [hr, Handling.ofReception] at h
    · obtain rfl : r' = r := by simpa [hr, Handling.ofReception] using h
      rfl

/-- A message is dealt with in the state in which those before it have left the site. -/
theorem handleAll_take {messages : List Bytes} {k : Nat} {message : Bytes} (h : messages[k]? = some message)
    (s : σ) : (handleAll self site messages s).1[k]? =
        some (handle self site message (handleAll self site (messages.take k) s).2).1 ∧
      (handleAll self site (messages.take (k + 1)) s).2 =
        (handle self site message (handleAll self site (messages.take k) s).2).2 := by
  induction messages generalizing k s with
  | nil => simp at h
  | cons first rest ih =>
    cases k with
    | zero =>
      obtain rfl : first = message := by simpa using h
      exact ⟨rfl, rfl⟩
    | succ k => exact ih (by simpa using h) (handle self site first s).2

end Sync

end Moderation
