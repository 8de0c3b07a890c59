import Mathlib.Algebra.BigOperators.Group.List.Basic
import Mathlib.Algebra.Order.Ring.Nat
import Mathlib.Data.List.Permutation
import Moderation.Proofs.Medium.Log
import Moderation.Proofs.Sync.Handling
import Moderation.Proofs.Sync.Telling
/-!
# Fleets

A fleet is any number of nodes that share a medium. They give commands, tell each other of changes and
poll, in any order; stores, platforms and clocks may be others at each step, and the medium fails as it
likes. Each member remembers the places of the messages that it sent, what it did with those that it
collected, and the calls that its polls made. `no_echo` says that no message comes of a message, that none
causes anything where it was sent, and that each comes to a member once.
-/

namespace Moderation.Sync

open Medium.Log

/-- A node of a fleet, and what it remembers. -/
structure Member (Link σ : Type) where
  service : Service Link
  state : σ
  /-- The places of the messages that it sent. -/
  sent : List Nat := []
  /-- What it did with the messages that it collected. -/
  receipts : List Receipt := []
  /-- The calls that its polls made, as the site wrote them down. -/
  calls : List LocalCall := []

structure Fleet (M Link σ : Type) where
  medium : M
  members : List (Member Link σ) := []

variable {M Link σ : Type} [Medium M Link] [Medium.Log M Link]

namespace Member

/-- The member after it told the others, if it did. -/
def told (service : Service Link) (m m' : M) (state : σ) (p : Member Link σ) : Member Link σ :=
  { p with service, state, sent := p.sent ++ placed m m' }

def command (now : Timestamp) (site : Site σ) (call : LocalCall) (m : M) (p : Member Link σ) :
    Member Link σ × M :=
  let (_, service, m', state) := Node.command now site call p.service m p.state
  (p.told service m m' state, m')

def tell (now : Timestamp) (notice : Notice) (m : M) (p : Member Link σ) : Member Link σ × M :=
  let (_, service, m') := p.service.tell now notice m
  (p.told service m m' p.state, m')

def newReceipts (now : Timestamp) (site : Site σ) (m : M) (p : Member Link σ) : List Receipt :=
  match (Medium.poll now m p.service.link).1 with
  | .error _ => []
  | .ok messages => Sync.receipts p.service.self site ((due now m p.service.link).zip messages) p.state

/-- The calls that its poll makes. -/
def newCalls (now : Timestamp) (site : Site σ) (m : M) (p : Member Link σ) : List LocalCall :=
  (p.service.poll now site.traced m (p.state, [])).2.2.2

def poll (now : Timestamp) (site : Site σ) (m : M) (p : Member Link σ) : Member Link σ :=
  let (_, service, state) := p.service.poll now site m p.state
  { p with
    service
    state
    receipts := p.receipts ++ p.newReceipts now site m
    calls := p.calls ++ p.newCalls now site m }

end Member

namespace Fleet

inductive Step (σ : Type) where
  | join (self : Uuid) (state : σ)
  | command (i : Nat) (now : Timestamp) (site : Site σ) (call : LocalCall)
  | tell (i : Nat) (now : Timestamp) (notice : Notice)
  | poll (i : Nat) (now : Timestamp) (site : Site σ)
  /-- The state of the `i`-th node's site changes by itself. -/
  | change (i : Nat) (state : σ)
  /-- The medium stops to work, or works again. -/
  | disturb (read write : Option StoreError)

/-- Lets a member do something with the medium. -/
def act (i : Nat) (f : M → Member Link σ → Member Link σ × M) (g : Fleet M Link σ) : Fleet M Link σ :=
  match g.members[i]? with
  | none => g
  | some p =>
    let (p, medium) := f g.medium p
    { medium, members := g.members.set i p }

def step (g : Fleet M Link σ) : Step σ → Fleet M Link σ
  | .join self state =>
    let (link, medium) := Medium.connect g.medium
    { medium, members := g.members ++ [{ service := { self, link }, state }] }
  | .command i now site call => g.act i (Member.command now site call)
  | .tell i now notice => g.act i (Member.tell now notice)
  | .poll i now site => g.act i fun m p => (p.poll now site m, m)
  | .change i state => g.act i fun m p => ({ p with state }, m)
  | .disturb read write => { g with medium := disturbed read write g.medium }

def run (g : Fleet M Link σ) (steps : List (Step σ)) : Fleet M Link σ := steps.foldl step g

def start (m : M) : Fleet M Link σ := { medium := m }

end Fleet

/-! ## What a member remembers -/

namespace Member

/-- What the member remembers agrees with the medium and with its service. -/
structure Sound (m : M) (p : Member Link σ) : Prop where
  nodup : (p.receipts.map Receipt.place).Nodup
  passed : ∀ r ∈ p.receipts, Passed m p.service.link r.place
  collected : ∀ r ∈ p.receipts, ∃ message,
    (messages m)[r.place]? = some message ∧ r.IsOf σ p.service.self message
  sealed : ∀ k ∈ p.sent, ∃ packet message, Packet.seal p.service.self packet = .ok message ∧
    (messages m)[k]? = some message
  counted : p.sent.length = p.service.stats.dispatched
  /-- Its polls made the calls of its receipts and no others. -/
  calls : p.calls = p.receipts.flatMap Receipt.calls
  tallies : p.service.stats.Tallies (p.receipts.map Receipt.handling)

namespace Sound

variable {m m' : M} {p : Member Link σ}

theorem new (m : M) (self : Uuid) (link : Link) (state : σ) :
    ({ service := { self, link }, state } : Member Link σ).Sound m where
  nodup := List.nodup_nil
  passed := by simp
  collected := by simp
  sealed := by simp
  counted := rfl
  calls := rfl
  tallies := ⟨rfl, rfl, rfl, rfl⟩

theorem mono (h : p.Sound m) (hgrows : Grows m m') : p.Sound m' where
  nodup := h.nodup
  passed r hr := by
    obtain ⟨_, hk, -⟩ := h.collected r hr
    exact hgrows.passed (List.getElem?_eq_some_iff.1 hk).1 (h.passed r hr)
  collected r hr := by
    obtain ⟨message, hk, hof⟩ := h.collected r hr
    exact ⟨message, hgrows.getElem? hk, hof⟩
  sealed k hk := by
    obtain ⟨packet, message, hseal, hmessage⟩ := h.sealed k hk
    exact ⟨packet, message, hseal, hgrows.getElem? hmessage⟩
  counted := h.counted
  calls := h.calls
  tallies := h.tallies

/-- A member's own messages cause nothing. -/
theorem not_handed (h : p.Sound m) {r : Receipt} (hr : r ∈ p.receipts) (hsent : r.place ∈ p.sent) :
    ¬r.handling.Handed ∧ r.calls = [] := by
  obtain ⟨message, hk, hof⟩ := h.collected r hr
  obtain ⟨packet, message', hseal, hk'⟩ := h.sealed _ hsent
  -- The message collected at the place is the one that was sealed and put there.
  obtain rfl := Option.some.inj (hk.symm.trans hk')
  exact hof.not_handed hseal

end Sound

/-- What is taken from the due places are the messages there, each place once. -/
theorem places_newReceipts (now : Timestamp) (site : Site σ) (m : M) (p : Member Link σ) :
    ((p.newReceipts now site m).map Receipt.place).Sublist (due now m p.service.link) := by
  unfold newReceipts
  split
  · exact List.nil_sublist _
  · next messages hpoll =>
    rw [map_place_receipts, List.map_fst_zip (length_due hpoll).le]

theorem isOf_of_mem_newReceipts {now : Timestamp} {site : Site σ} {m : M} {p : Member Link σ} {r : Receipt}
    (h : r ∈ p.newReceipts now site m) :
    ∃ message, (messages m)[r.place]? = some message ∧ r.IsOf σ p.service.self message := by
  unfold newReceipts at h
  split at h
  · simp at h
  · next collected hpoll =>
    obtain ⟨message, hmem, hof⟩ := isOf_of_mem_receipts h
    refine ⟨message, ?_, hof⟩
    -- The `j`-th message collected comes from the `j`-th place that was due.
    obtain ⟨j, hj⟩ := List.mem_iff_getElem?.1 hmem
    have hplace := congrArg (·[j]?) (poll_due hpoll)
    rw [List.getElem?_zip_eq_some] at hj
    simpa [hj.1, hj.2, eq_comm] using hplace

/-- A poll deals with the messages as the new receipts say: these have its calls, and its counters count them. -/
theorem newReceipts_spec (now : Timestamp) (site : Site σ) (m : M) (p : Member Link σ) :
    p.newCalls now site m = (p.newReceipts now site m).flatMap Receipt.calls ∧
      ∀ hs, p.service.stats.Tallies hs → (p.poll now site m).service.stats.Tallies
        (hs ++ (p.newReceipts now site m).map Receipt.handling) := by
  simp only [newCalls, newReceipts, Member.poll, Service.poll]
  rcases hpoll : Medium.poll now m p.service.link with ⟨e | messages, link⟩
  · refine ⟨rfl, fun hs htallies => ?_⟩
    rw [List.map_nil, List.append_nil]
    exact htallies.others _ _ _
  · have hmessages : ((due now m p.service.link).zip messages).map Prod.snd = messages :=
      List.map_snd_zip (length_due (congrArg Prod.fst hpoll)).ge
    obtain ⟨hhandlings, hcalls⟩ := handleAll_receipts p.service.self site
      ((due now m p.service.link).zip messages) p.state []
    rw [hmessages] at hhandlings hcalls
    refine ⟨by simpa only [List.nil_append] using hcalls, fun hs htallies => ?_⟩
    dsimp only
    rw [hhandlings]
    exact htallies.counted _

theorem Sound.poll {m : M} {p : Member Link σ} (h : p.Sound m) (now : Timestamp) (site : Site σ) :
    (p.poll now site m).Sound m := by
  obtain ⟨hself, hlink, hdispatched⟩ := p.service.poll_spec now m site p.state
  have hplaces := p.places_newReceipts now site m
  obtain ⟨hcalls, htallies⟩ := p.newReceipts_spec now site m
  constructor
  · simp only [Member.poll, List.map_append]
    -- What was collected before has been passed, and no passed place is due.
    refine h.nodup.append (hplaces.nodup (nodup_due _ _ _)) fun k hk hk' => ?_
    obtain ⟨r, hr, rfl⟩ := List.mem_map.1 hk
    exact not_passed_of_due (hplaces.subset hk') (h.passed r hr)
  · intro r hr
    simp only [Member.poll, hlink] at hr ⊢
    rcases List.mem_append.1 hr with hr | hr
    · exact passed_poll (h.passed r hr)
    · exact passed_of_due (hplaces.subset (List.mem_map_of_mem hr))
  · intro r hr
    simp only [Member.poll, hself] at hr ⊢
    rcases List.mem_append.1 hr with hr | hr
    · exact h.collected r hr
    · exact isOf_of_mem_newReceipts hr
  · simpa only [Member.poll, hself] using h.sealed
  · simpa only [Member.poll, hdispatched] using h.counted
  · simp only [Member.poll, List.flatMap_append, h.calls, hcalls]
  · simpa only [Member.poll, List.map_append] using htallies _ h.tallies

/-- What a member does with the medium: it puts messages behind those that are there, and remembers them. -/
structure Acts (m : M) (p : Member Link σ) (m' : M) (p' : Member Link σ) : Prop where
  grows : Grows m m'
  sent : p'.sent = p.sent ++ placed m m'
  sound : p.Sound m → p'.Sound m'

/-- A member that sends nothing. -/
theorem Acts.quiet {m : M} {p p' : Member Link σ} (hsent : p'.sent = p.sent)
    (hsound : p.Sound m → p'.Sound m) : Acts m p m p' :=
  ⟨.refl m, by simp [placed, hsent], hsound⟩

theorem acts_poll (now : Timestamp) (site : Site σ) (m : M) (p : Member Link σ) :
    Acts m p m (p.poll now site m) :=
  .quiet rfl fun h => h.poll now site

theorem acts_change (m : M) (p : Member Link σ) (state : σ) : Acts m p m { p with state } :=
  .quiet rfl fun h => ⟨h.nodup, h.passed, h.collected, h.sealed, h.counted, h.calls, h.tallies⟩

theorem acts_told {now : Timestamp} {v : Service Link} {m m' : M} {p : Member Link σ} (hopen : Open m)
    (h : Service.Tells now p.service m v m') (state : σ) : Acts m p m' (p.told v m m' state) := by
  cases h with
  | quiet skipped =>
    have hsent : (p.told { p.service with stats.skipped := skipped } m m state).sent = p.sent := by
      simp [told, placed]
    refine .quiet hsent fun hp => ?_
    exact {
      nodup := hp.nodup
      passed := hp.passed
      collected := hp.collected
      sealed := hsent ▸ hp.sealed
      counted := hsent ▸ hp.counted
      calls := hp.calls
      tallies := hp.tallies.others _ _ _ }
  | @sent packet message m' hseal hsend =>
    have hgrows := Grows.send hopen hsend
    refine ⟨hgrows, rfl, fun hp => ?_⟩
    have hmessages := messages_send hopen hsend
    have hplaced : placed m m' = [(messages m).length] := by simp [placed, hmessages]
    constructor
    · exact hp.nodup
    · exact (hp.mono hgrows).passed
    · exact (hp.mono hgrows).collected
    · intro k hk
      simp only [told, hplaced, List.mem_append, List.mem_singleton] at hk
      rcases hk with hk | rfl
      · exact (hp.mono hgrows).sealed k hk
      · exact ⟨packet, message, hseal, by simp [hmessages]⟩
    · simp [told, hplaced, hp.counted]
    · exact hp.calls
    · exact hp.tallies.others _ _ _

theorem acts_command {m : M} (now : Timestamp) (site : Site σ) (call : LocalCall) (p : Member Link σ)
    (hopen : Open m) : Acts m p (p.command now site call m).2 (p.command now site call m).1 :=
  acts_told hopen (p.service.tells_command now m site call p.state) _

theorem acts_tell {m : M} (now : Timestamp) (notice : Notice) (p : Member Link σ) (hopen : Open m) :
    Acts m p (p.tell now notice m).2 (p.tell now notice m).1 :=
  acts_told hopen (p.service.tells_tell now m notice) _

end Member

/-! ## What the members send -/

namespace Fleet

open Member

/-- Since the medium was `m` the members have sent what was put there, and they remember it. -/
structure Sound (m : M) (g : Fleet M Link σ) : Prop where
  messages : messages m <+: messages g.medium
  sent : (g.members.flatMap Member.sent).Perm (placed m g.medium)
  members : ∀ p ∈ g.members, Open g.medium ∧ p.Sound g.medium

namespace Sound

variable {m : M} {g : Fleet M Link σ}

theorem start (m : M) : (start m : Fleet M Link σ).Sound m where
  messages := List.prefix_rfl
  sent := by simp [Fleet.start, placed]
  members := by simp [Fleet.start]

theorem join (h : g.Sound m) (self : Uuid) (state : σ) : (g.step (.join self state)).Sound m where
  messages := h.messages.trans (Grows.connect g.medium).messages
  sent := by simpa [step, placed, messages_connect] using h.sent
  members p hp := by
    refine ⟨open_connect g.medium, ?_⟩
    simp only [step, List.mem_append, List.mem_singleton] at hp
    rcases hp with hp | rfl
    · exact (h.members p hp).2.mono (.connect g.medium)
    · exact .new _ _ _ _

theorem disturb (h : g.Sound m) (read write : Option StoreError) :
    (g.step (.disturb read write)).Sound m where
  messages := h.messages.trans (Grows.disturbed read write g.medium).messages
  sent := by simpa [step, placed, messages_disturbed] using h.sent
  members p hp := ⟨open_disturbed (h.members p hp).1, (h.members p hp).2.mono (.disturbed read write g.medium)⟩

theorem act (h : g.Sound m) (i : Nat) {f : M → Member Link σ → Member Link σ × M}
    (hf : ∀ p ∈ g.members, Open g.medium → Acts g.medium p (f g.medium p).2 (f g.medium p).1) :
    (g.act i f).Sound m := by
  unfold Fleet.act
  split
  · exact h
  · next p hp =>
    obtain ⟨hi, hget⟩ := List.getElem?_eq_some_iff.1 hp
    have hmem : p ∈ g.members := hget ▸ List.getElem_mem hi
    obtain ⟨hgrows, hsent, hsound⟩ := hf p hmem (h.members p hmem).1
    refine ⟨h.messages.trans hgrows.messages, ?_, fun q hq => ?_⟩
    · obtain ⟨before, behind, hmembers, -, hset⟩ :=
        @List.exists_of_set _ _ (f g.medium p).1 g.members hi
      -- What the member sends now can be listed behind all that was sent before.
      have hbefore := h.sent
      rw [hmembers, hget] at hbefore
      simp only [List.flatMap_append, List.flatMap_cons] at hbefore
      simp only [hset, List.flatMap_append, List.flatMap_cons, hsent]
      rw [← placed_append h.messages hgrows.messages]
      refine List.Perm.trans ?_ (hbefore.append_right _)
      simp only [List.append_assoc]
      exact (List.perm_append_comm.append_left _).append_left _
    · have hopen := hgrows.stays_open (h.members p hmem).1
      rcases List.mem_or_eq_of_mem_set hq with hq | rfl
      · exact ⟨hopen, (h.members q hq).2.mono hgrows⟩
      · exact ⟨hopen, hsound (h.members p hmem).2⟩

theorem step (h : g.Sound m) (a : Step σ) : (g.step a).Sound m := by
  cases a with
  | join self state => exact h.join self state
  | command i now site call =>
    exact h.act (f := Member.command now site call) i fun p _ => p.acts_command now site call
  | tell i now notice => exact h.act (f := Member.tell now notice) i fun p _ => p.acts_tell now notice
  | poll i now site =>
    exact h.act (f := fun m p => (p.poll now site m, m)) i fun p _ _ => acts_poll now site g.medium p
  | change i state =>
    exact h.act (f := fun m p => ({ p with state }, m)) i fun p _ _ => acts_change g.medium p state
  | disturb read write => exact h.disturb read write

theorem run (h : g.Sound m) (steps : List (Step σ)) : (g.run steps).Sound m := by
  induction steps generalizing g with
  | nil => exact h
  | cons a steps ih => exact ih (h.step a)

/-- As many messages were put there as the members count. -/
theorem length_messages (h : g.Sound m) : (Medium.Log.messages g.medium).length =
    (Medium.Log.messages m).length + (g.members.map fun p => p.service.stats.dispatched).sum := by
  have hcounted : (g.members.flatMap Member.sent).length =
      (g.members.map fun p => p.service.stats.dispatched).sum := by
    rw [List.length_flatMap]
    exact congrArg List.sum (List.map_congr_left fun p hp => (h.members p hp).2.counted)
  have hle := h.messages.length_le
  rw [← hcounted, h.sent.length_eq, length_placed]
  omega

end Sound

theorem medium_step_poll (g : Fleet M Link σ) (i : Nat) (now : Timestamp) (site : Site σ) :
    (g.step (.poll i now site)).medium = g.medium := by
  simp only [step, act]
  split <;> rfl

/-- Whatever the nodes of a fleet do in whatever order, and whatever fails: a poll puts no message into the
medium, and what was put there are the messages that the members count and remember, each sent by one of
them. A member takes each message at most once, and its own messages it neither deals with nor carries out.
All that its polls did is in its receipts: the calls that they made are those of the receipts, one after the
other, and the counters of its service are those of the receipts. To write the calls down changes nothing else
about a poll. -/
theorem no_echo (m : M) (steps : List (Step σ)) :
    let g : Fleet M Link σ := (start m).run steps
    (∀ (g : Fleet M Link σ) i now site, (g.step (.poll i now site)).medium = g.medium) ∧
    (messages g.medium).length =
      (messages m).length + (g.members.map fun p => p.service.stats.dispatched).sum ∧
    (g.members.flatMap Member.sent).Perm (placed m g.medium) ∧
    (∀ (v : Service Link) (m : M) now (site : Site σ) s, v.poll now site m s =
      ((v.poll now site.traced m (s, [])).1, (v.poll now site.traced m (s, [])).2.1,
        (v.poll now site.traced m (s, [])).2.2.1)) ∧
    ∀ p ∈ g.members,
      p.calls = p.receipts.flatMap Receipt.calls ∧
      p.service.stats.Tallies (p.receipts.map Receipt.handling) ∧
      p.sent.length = p.service.stats.dispatched ∧
      (p.receipts.map Receipt.place).Nodup ∧
      (∀ r ∈ p.receipts, ∃ message, (messages g.medium)[r.place]? = some message ∧
        r.IsOf σ p.service.self message) ∧
      ∀ r ∈ p.receipts, r.place ∈ p.sent → ¬r.handling.Handed ∧ r.calls = [] := by
  intro g
  have hsound : g.Sound m := (Sound.start m).run steps
  refine ⟨medium_step_poll, hsound.length_messages, hsound.sent,
    fun v m now site s => poll_traced now site m v s, fun p hp => ?_⟩
  have hmember := (hsound.members p hp).2
  exact ⟨hmember.calls, hmember.tallies, hmember.counted, hmember.nodup, hmember.collected,
    fun r hr => hmember.not_handed hr⟩

/-- A site that carries everything out. -/
def willing : Site Unit := { fetch := fun _ s => (.ok none, s), enforce := fun _ s => (.ok (), s) }

/-- Two nodes tell each other of changes while the mailbox cannot be written to and then not be read, and
then by a bus. Each carries out what the other one told, once, and nothing of what it told itself. -/
theorem no_echo_of_exchange :
    let steps : List (Step Unit) := [.join .nil (), .join ⟨List.replicate 16 1, rfl⟩ (), .poll 0 5 willing,
      .poll 1 5 willing, .command 0 6 willing (.clearExpunged 7), .poll 1 6 willing, .poll 0 6 willing,
      .disturb none (some (.timeout 5)), .tell 1 7 (.expunge 3), .disturb none none, .tell 1 8 (.update 9),
      .poll 0 8 willing, .poll 1 8 willing, .disturb (some (.timeout 5)) none, .tell 0 9 (.expunge 8),
      .poll 1 9 willing, .poll 0 9 willing, .disturb none none, .poll 1 10 willing]
    let taken (p : Member Cursor Unit) := (p.sent, p.receipts.map fun r => (r.place, r.calls), p.calls)
    let received (p : Member Subscription Unit) := (p.sent, p.receipts.map fun r => (r.place, r.calls), p.calls)
    (∃ p, ((start {} : Fleet Mailbox Cursor Unit).run steps).members[1]? = some p ∧
      p.calls = p.receipts.flatMap Receipt.calls ∧ p.service.stats.Tallies (p.receipts.map Receipt.handling) ∧
      (p.receipts.map Receipt.place).Nodup ∧
      ∀ r ∈ p.receipts, r.place ∈ p.sent → ¬r.handling.Handed ∧ r.calls = []) ∧
    (∃ p, ((start { capacity := 2 } : Fleet Bus Subscription Unit).run steps).members[0]? = some p ∧
      p.calls = p.receipts.flatMap Receipt.calls ∧ p.service.stats.Tallies (p.receipts.map Receipt.handling) ∧
      (p.receipts.map Receipt.place).Nodup ∧
      ∀ r ∈ p.receipts, r.place ∈ p.sent → ¬r.handling.Handed ∧ r.calls = []) ∧
    ((start {} : Fleet Mailbox Cursor Unit).run steps).members.map taken =
      [([0, 2], [(0, []), (1, [.refreshDetails 9])], [.refreshDetails 9]),
        ([1], [(0, [.clearExpunged 7]), (1, [])], [.clearExpunged 7])] ∧
    ((start { capacity := 2 } : Fleet Bus Subscription Unit).run steps).members.map received =
      [([0, 3], [(0, []), (1, [.clearExpunged 3]), (2, [.refreshDetails 9]), (3, [])],
          [.clearExpunged 3, .refreshDetails 9]),
        ([1, 2], [(0, [.clearExpunged 7]), (1, []), (2, []), (3, [.clearExpunged 8])],
          [.clearExpunged 7, .clearExpunged 8])] := by
  intro steps taken received
  have hlength : 1 < ((start {} : Fleet Mailbox Cursor Unit).run steps).members.length := by decide +kernel
  have hlength' : 0 < ((start { capacity := 2 } : Fleet Bus Subscription Unit).run steps).members.length := by
    decide +kernel
  obtain ⟨-, -, -, -, hmembers⟩ := no_echo ({} : Mailbox) steps
  obtain ⟨hcalls, htallies, -, hnodup, -, hown⟩ := hmembers _ (List.getElem_mem hlength)
  obtain ⟨-, -, -, -, hmembers'⟩ := no_echo ({ capacity := 2 } : Bus) steps
  obtain ⟨hcalls', htallies', -, hnodup', -, hown'⟩ := hmembers' _ (List.getElem_mem hlength')
  exact ⟨⟨_, List.getElem?_eq_getElem hlength, hcalls, htallies, hnodup, hown⟩,
    ⟨_, List.getElem?_eq_getElem hlength', hcalls', htallies', hnodup', hown'⟩, by decide +kernel, by decide +kernel⟩

end Fleet

end Moderation.Sync
