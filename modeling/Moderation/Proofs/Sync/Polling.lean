import Moderation.Proofs.Packet.Canonical
import Moderation.Proofs.Sync.Requests
/-!
# What a poll answers for

A poll deals with the messages that it collects one after the other, whatever is in them and whatever fails at the
site. `Dealt` says what becomes of one message from what is in it and what the site does about that, and `DealtAll`
what becomes of several: each is dealt with in the state in which the one before it has left the site, and in no other
way do they meddle with one another. The counters, the calls and the answer of a poll are read off that in
`poll_accounts`.
-/

namespace Moderation

variable {σ : Type}

/-! ## One packet -/

/-- The call that a packet comes to at a site, and the state in which the site is by then. -/
inductive Site.Asks (site : Site σ) (s : σ) : Packet → LocalCall → σ → Prop
  | expunge (id : PunishmentId) : Asks site s (.expunge id) (.clearExpunged id) s
  | updateDetails (id : PunishmentId) : Asks site s (.updateDetails id) (.refreshDetails id) s
  | silent {c : Change} : c.Silent → Asks site s (.change c) (.unenforceById c.ref c.localOptions) s
  | found {c : Change} {p s'} : ¬c.Silent → site.fetch c.ref s = (.ok (some p), s') →
      Asks site s (.change c) (Site.callOf c p) s'

/-- What a site does about a packet: its answer, the calls that it carries out, and the state that this leaves. -/
inductive Site.Receives (site : Site σ) (s : σ) (packet : Packet) :
    Except ReceiveError Reception → List LocalCall → σ → Prop
  | applied {call s₁ s'} : site.Asks s packet call s₁ → site.enforce call s₁ = (.ok (), s') →
      Receives site s packet (.ok .applied) [call] s'
  | refused {call s₁ e s'} : site.Asks s packet call s₁ → site.enforce call s₁ = (.error e, s') →
      Receives site s packet (.error (.enforcement e)) [call] s'
  | missing {c s'} : packet = .change c → ¬c.Silent → site.fetch c.ref s = (.ok none, s') →
      Receives site s packet (.ok .missing) [] s'
  | unfetched {c e s'} : packet = .change c → ¬c.Silent → site.fetch c.ref s = (.error e, s') →
      Receives site s packet (.error (.fetch e)) [] s'

namespace Site

variable {site : Site σ} {s s₁ s' : σ} {packet : Packet} {call : LocalCall}

theorem Asks.exists_receives (h : site.Asks s packet call s₁) :
    ∃ answer made s', site.Receives s packet answer made s' := by
  rcases henforce : site.enforce call s₁ with ⟨e | _, s'⟩
  · exact ⟨_, _, _, .refused h henforce⟩
  · exact ⟨_, _, _, .applied h henforce⟩

theorem exists_receives (site : Site σ) (s : σ) (packet : Packet) :
    ∃ answer made s', site.Receives s packet answer made s' := by
  cases packet with
  | expunge id => exact (Asks.expunge id).exists_receives
  | updateDetails id => exact (Asks.updateDetails id).exists_receives
  | change c =>
    by_cases hsilent : c.Silent
    · exact (Asks.silent hsilent).exists_receives
    · rcases hfetch : site.fetch c.ref s with ⟨e | (_ | p), s'⟩
      · exact ⟨_, _, _, .unfetched rfl hsilent hfetch⟩
      · exact ⟨_, _, _, .missing rfl hsilent hfetch⟩
      · exact (Asks.found hsilent hfetch).exists_receives

theorem Asks.receive_traced (h : site.Asks s packet call s₁) (before : List LocalCall) :
    site.traced.receive packet (s, before) = site.traced.carryOut call (s₁, before) := by
  cases h with
  | expunge | updateDetails => rfl
  | silent hsilent => exact if_pos hsilent
  | found hsilent hfetch => simp only [receive, receiveChange, if_neg hsilent, traced, hfetch]

/-- The site does this and nothing else. -/
theorem Receives.receive_traced {answer : Except ReceiveError Reception} {made : List LocalCall}
    (h : site.Receives s packet answer made s') (before : List LocalCall) :
    site.traced.receive packet (s, before) = (answer, s', before ++ made) := by
  cases h with
  | applied hasks henforce | refused hasks henforce =>
    rw [hasks.receive_traced, carryOut]
    simp only [traced, henforce]
  | missing hchange hsilent hfetch | unfetched hchange hsilent hfetch =>
    subst hchange
    simp only [receive, receiveChange, if_neg hsilent, traced, hfetch, List.append_nil]

end Site

/-! ## One message -/

namespace Envelope

open Wire Wire.Reader

/-- Of a message of another version no more than the first byte is read. -/
theorem decode_of_foreign {version : UInt8} (h : version ≠ knownVersion) (rest : Bytes) :
    decode (version :: rest) = .ok (.unsupported version) := by
  have htake : take.runOn (version :: rest) = (.ok (.unsupported version), rest) := by
    refine (runOn_bind_ok (takeByte_cons "version" version rest) _).trans ?_
    rw [if_neg h]
    rfl
  exact congrArg Prod.fst htake

theorem foreign_of_decode {message : Bytes} {version : UInt8} (h : decode message = .ok (.unsupported version)) :
    ∃ rest, message = version :: rest ∧ version ≠ knownVersion := by
  obtain ⟨left, h⟩ : ∃ left, take.runOn message = (.ok (.unsupported version), left) :=
    ⟨(take.runOn message).2, Prod.ext h rfl⟩
  obtain ⟨first, b, rest, hb, rfl, h₁⟩ := (spells_byte "version").of_bind h
  cases hb
  split at h₁
  · obtain ⟨origin, _, -, h₂⟩ := runOn_bind_eq_ok h₁
    obtain ⟨packet, _, -, h₃⟩ := runOn_bind_eq_ok h₂
    cases h₃
  · next hforeign =>
    cases h₁
    exact ⟨left, rfl, hforeign⟩

end Envelope

namespace Sync

/-- What becomes of a message that a node deals with: the class into which it is put, the calls that it causes, and the
state in which it leaves the site. -/
inductive Dealt (self : Uuid) (site : Site σ) (message : Bytes) (s : σ) : Handling → List LocalCall → σ → Prop
  /-- It is of another version, which its first byte says. -/
  | foreign {version rest} : message = version :: rest → version ≠ Envelope.knownVersion →
      Dealt self site message s .ignored [] s
  | own {e} : Envelope.decode message = .ok (.supported e) → e.origin = self → Dealt self site message s .ignored [] s
  | malformed {err} : Envelope.decode message = .error err → Dealt self site message s .malformed [] s
  | received {e answer made s'} : Envelope.decode message = .ok (.supported e) → e.origin ≠ self →
      site.Receives s e.packet answer made s' → Dealt self site message s (.ofReception answer) made s'

variable {self : Uuid} {site : Site σ} {message : Bytes} {s s' : σ} {h : Handling} {made : List LocalCall}

theorem exists_dealt (self : Uuid) (site : Site σ) (message : Bytes) (s : σ) :
    ∃ h made s', Dealt self site message s h made s' := by
  rcases hdecode : Envelope.decode message with err | (e | version)
  · exact ⟨_, _, _, .malformed hdecode⟩
  · by_cases hown : e.origin = self
    · exact ⟨_, _, _, .own hdecode hown⟩
    · obtain ⟨answer, made, s', hreceives⟩ := site.exists_receives s e.packet
      exact ⟨_, _, _, .received hdecode hown hreceives⟩
  · obtain ⟨rest, hmessage, hforeign⟩ := Envelope.foreign_of_decode hdecode
    exact ⟨_, _, _, .foreign hmessage hforeign⟩

theorem hear_eq (self : Uuid) (message : Bytes) : Packet.hear self message =
    match Envelope.decode message with
    | .ok (.supported e) => .ok (if e.origin = self then none else some e.packet)
    | .ok (.unsupported _) => .ok none
    | .error err => .error err := by
  unfold Packet.hear
  rcases Envelope.decode message with err | (e | version) <;> rfl

/-- This becomes of the message and nothing else. -/
theorem Dealt.handle_traced (hdealt : Dealt self site message s h made s') (before : List LocalCall) :
    handle self site.traced message (s, before) = (h, s', before ++ made) := by
  cases hdealt with
  | foreign hmessage hforeign =>
    subst hmessage
    simp only [handle, hear_eq, Envelope.decode_of_foreign hforeign, List.append_nil]
  | own hdecode hown => simp only [handle, hear_eq, hdecode, if_pos hown, List.append_nil]
  | malformed hdecode => simp only [handle, hear_eq, hdecode, List.append_nil]
  | @received _ answer _ _ hdecode hother hreceives =>
    simp only [handle, hear_eq, hdecode, if_neg hother, hreceives.receive_traced before]
    cases answer <;> rfl

theorem Dealt.handle_eq (hdealt : Dealt self site message s h made s') : handle self site message s = (h, s') := by
  obtain ⟨hhandling, hstate⟩ := Sync.handle_traced self site message s []
  rw [hdealt.handle_traced []] at hhandling hstate
  exact Prod.ext hhandling.symm hstate.symm

/-! ## Several messages -/

/-- What becomes of messages that a node deals with one after the other: their classes, the calls that each of them
causes, and the state in which they leave the site. -/
inductive DealtAll (self : Uuid) (site : Site σ) :
    List Bytes → σ → List Handling → List (List LocalCall) → σ → Prop
  | nil {s : σ} : DealtAll self site [] s [] [] s
  | cons {message : Bytes} {rest : List Bytes} {s s₁ s' : σ} {h : Handling} {hs : List Handling} {made : List LocalCall}
      {mades : List (List LocalCall)} : Dealt self site message s h made s₁ →
      DealtAll self site rest s₁ hs mades s' → DealtAll self site (message :: rest) s (h :: hs) (made :: mades) s'

variable {messages : List Bytes} {hs : List Handling} {mades : List (List LocalCall)}

theorem exists_dealtAll (self : Uuid) (site : Site σ) (messages : List Bytes) (s : σ) :
    ∃ hs mades s', DealtAll self site messages s hs mades s' := by
  induction messages generalizing s with
  | nil => exact ⟨_, _, _, .nil⟩
  | cons message rest ih =>
    obtain ⟨h, made, s₁, hfirst⟩ := exists_dealt self site message s
    obtain ⟨hs, mades, s', hrest⟩ := ih s₁
    exact ⟨_, _, _, .cons hfirst hrest⟩

namespace DealtAll

theorem length_eq (hdealt : DealtAll self site messages s hs mades s') : hs.length = messages.length := by
  induction hdealt with
  | nil => rfl
  | cons _ _ ih => rw [List.length_cons, List.length_cons, ih]

theorem handleAll_eq (hdealt : DealtAll self site messages s hs mades s') :
    handleAll self site messages s = (hs, s') := by
  induction hdealt with
  | nil => rfl
  | cons hfirst _ ih => simp only [handleAll, hfirst.handle_eq, ih]

/-- The calls are made in the order of the messages. -/
theorem handleAll_traced (hdealt : DealtAll self site messages s hs mades s') (before : List LocalCall) :
    handleAll self site.traced messages (s, before) = (hs, s', before ++ mades.flatten) := by
  induction hdealt generalizing before with
  | nil => simp [handleAll]
  | cons hfirst _ ih => simp only [handleAll, hfirst.handle_traced, ih, List.flatten_cons, List.append_assoc]

end DealtAll

/-! ## What is counted -/

theorem countP_isReceived (hs : List Handling) :
    hs.countP Handling.isReceived = hs.count (.received .applied) + hs.count (.received .missing) := by
  induction hs with
  | nil => rfl
  | cons h hs ih =>
    rcases h with _ | _ | (_ | _) | e <;> simp [Handling.isReceived, List.countP_cons, ih] <;> omega

/-- A message is in one of the classes. -/
theorem count_classes (hs : List Handling) : hs.count .ignored + hs.count .malformed +
    hs.count (.received .applied) + hs.count (.received .missing) + hs.countP Handling.isFailed = hs.length := by
  induction hs with
  | nil => rfl
  | cons h hs ih =>
    rcases h with _ | _ | (_ | _) | e <;> simp [Handling.isFailed, List.countP_cons] <;> omega

/-! ## Polls -/

theorem Dealt.unique {h' : Handling} {made' : List LocalCall} {s'' : σ} (hdealt : Dealt self site message s h made s')
    (hdealt' : Dealt self site message s h' made' s'') : (h, made, s') = (h', made', s'') := by
  have htraced := (hdealt.handle_traced []).symm.trans (hdealt'.handle_traced [])
  cases htraced
  rfl

/-- A poll that cannot collect anything is counted and does nothing. What one collects is dealt with in order; each of
the classes of messages but the first has its counter, the poll answers with the number of those that were received, and
the calls are those of the messages one after the other. What becomes of a message depends on its bytes and on the state
in which it finds the site: of another version it is ignored, whatever follows the first byte, and with a packet that
cannot be read it is malformed, wherever it comes from. -/
theorem poll_accounts {M Link : Type} [Medium M Link] (now : Timestamp) (site : Site σ) (m : M) (v : Service Link)
    (s : σ) :
    (∀ e link, Medium.poll now m v.link = (.error e, link) →
      v.poll now site m s = (0, { v with link, stats.pollFailures := v.stats.pollFailures + 1 }, s)) ∧
    (∀ messages link, Medium.poll now m v.link = (.ok messages, link) →
      ∃ hs mades s', DealtAll v.self site messages s hs mades s' ∧
        hs.count .ignored + hs.count .malformed + hs.count (.received .applied) + hs.count (.received .missing) +
          hs.countP Handling.isFailed = messages.length ∧
        v.poll now site m s = (hs.count (.received .applied) + hs.count (.received .missing),
          { v with
            link
            stats := { v.stats with
              decodeFailures := v.stats.decodeFailures + hs.count .malformed
              applied := v.stats.applied + hs.count (.received .applied)
              missing := v.stats.missing + hs.count (.received .missing)
              receiveFailures := v.stats.receiveFailures + hs.countP Handling.isFailed } }, s') ∧
        (v.poll now site.traced m (s, [])).2.2 = (s', mades.flatten)) ∧
    (∀ message s, ∃! outcome : Handling × List LocalCall × σ,
      Dealt v.self site message s outcome.1 outcome.2.1 outcome.2.2) ∧
    (∀ version rest s, version ≠ Envelope.knownVersion → Dealt v.self site (version :: rest) s .ignored [] s) ∧
    ∀ (origin : Uuid) body err s, (Packet.take.runOn body).1 = .error err →
      Dealt v.self site (Envelope.knownVersion :: (origin.bytes ++ body)) s .malformed [] s := by
  refine ⟨fun e link hpoll => ?_, fun messages link hpoll => ?_, fun message s => ?_, fun version rest s hforeign => ?_,
    fun origin body err s hbody => ?_⟩
  · simp only [Service.poll, hpoll]
  · obtain ⟨hs, mades, s', hdealt⟩ := exists_dealtAll v.self site messages s
    refine ⟨hs, mades, s', hdealt, ?_, ?_, ?_⟩
    · rw [count_classes, hdealt.length_eq]
    · simp only [Service.poll, hpoll, hdealt.handleAll_eq, countP_isReceived, foldl_count]
    · simp only [Service.poll, hpoll, hdealt.handleAll_traced, List.nil_append]
  · obtain ⟨h, made, s', hdealt⟩ := exists_dealt v.self site message s
    exact ⟨(h, made, s'), hdealt, fun outcome houtcome => houtcome.unique hdealt⟩
  · exact .foreign rfl hforeign
  · have hdecode : Envelope.decode (Envelope.knownVersion :: (origin.bytes ++ body)) = .error err := by
      rw [Envelope.decode_append, hbody]
      rfl
    exact .malformed hdecode

/-- A site that has no punishment on record and cannot carry one call out. It counts the calls. -/
def picky : Site Nat where
  fetch _ n := (.ok none, n)
  enforce call n := (if call = .clearExpunged 9 then .error (.platform "not now") else .ok (), n + 1)

/-- Messages of all classes: of another version, of the node without a number itself, without a packet that can be read,
and of another node, of which one is carried out, one is about a punishment that is not there and one fails. -/
def assorted : List Bytes :=
  let number (n : UInt8) : Bytes := List.replicate 7 0 ++ [n]
  let other : Bytes := 1 :: List.replicate 16 9
  [[2], 1 :: (List.replicate 16 0 ++ 2 :: number 7), 1 :: (List.replicate 16 0 ++ [4]), other ++ 2 :: number 7,
    other ++ 1 :: number 8 ++ [1, 1, 0, 0, 0, 0], other ++ 2 :: number 9, other ++ 3 :: number 8, []]

/-- A node collects them from a bus, and another one cannot read its mailbox. -/
theorem poll_accounts_of_assorted :
    let b : Bus := { capacity := 8, frames := (assorted.map fun message => ⟨Bus.syncChannel, message⟩).toArray }
    let v : Service Subscription := { self := .nil, link := {}, stats.missing := 3 }
    let m : Mailbox := { readFailure := some (.timeout 5) }
    let w : Service Cursor := { self := .nil, link := ⟨some 0⟩ }
    (v.poll 5 picky b 0).2.1.stats = { decodeFailures := 2, applied := 2, missing := 4, receiveFailures := 1 } ∧
    (∃ hs mades, DealtAll .nil picky assorted 0 hs mades 3 ∧
      hs.count .malformed = 2 ∧ hs.count (.received .applied) = 2 ∧ hs.count (.received .missing) = 1 ∧
      hs.countP Handling.isFailed = 1 ∧ hs.count .ignored = 2 ∧
      mades.flatten = [.clearExpunged 7, .clearExpunged 9, .refreshDetails 8]) ∧
    w.poll 5 picky m 0 = (0, { w with link := ⟨some 5⟩, stats.pollFailures := 1 }, 0) := by
  intro b v m w
  obtain ⟨-, hcollected, -⟩ := poll_accounts 5 picky b v 0
  obtain ⟨hfailed, -⟩ := poll_accounts 5 picky m w 0
  have hmessages : (Medium.poll 5 b v.link).1 = .ok assorted := by decide +kernel
  obtain ⟨hs, mades, s', hdealt, hclasses, hpoll, hcalls⟩ := hcollected assorted _ (Prod.ext hmessages rfl)
  -- What the poll comes to is computed, and its classes and calls are read off that.
  have hstats : (v.poll 5 picky b 0).2.1.stats =
      { decodeFailures := 2, applied := 2, missing := 4, receiveFailures := 1 } := by decide +kernel
  have htraced : (v.poll 5 picky.traced b (0, [])).2.2 =
      (3, [.clearExpunged 7, .clearExpunged 9, .refreshDetails 8]) := by decide +kernel
  refine ⟨hstats, ?_, hfailed (.timeout 5) ⟨some 5⟩ rfl⟩
  rw [hpoll] at hstats
  obtain ⟨rfl, hmade⟩ := Prod.mk.inj (hcalls.symm.trans htraced)
  simp only [v, Stats.mk.injEq] at hstats
  obtain ⟨-, -, happlied, hmissing, hmalformed, hfailed, -⟩ := hstats
  have hlength : assorted.length = 8 := rfl
  exact ⟨hs, mades, hdealt, by omega, by omega, by omega, by omega, by omega, hmade⟩

end Sync

end Moderation
