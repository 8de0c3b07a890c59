import Moderation.Proofs.Packet.Origin
import Moderation.Sync.Service
/-!
# What comes of a message

A site can be made to write down the calls that are carried out there, which changes nothing else, so for
each message that a node deals with one can tell the calls that it causes (`handleAll_receipts`). A node's
own messages cause none: `handle_of_not_heard`.
-/

namespace Moderation

variable {σ τ : Type}

/-! ## Sites seen through their state -/

/-- Through `view`, the first site is seen to do what the second one does. -/
structure Site.SeenAs (site : Site τ) (view : τ → σ) (seen : Site σ) : Prop where
  fetch : ∀ ref t, seen.fetch ref (view t) = ((site.fetch ref t).1, view (site.fetch ref t).2)
  enforce : ∀ call t, seen.enforce call (view t) = ((site.enforce call t).1, view (site.enforce call t).2)

namespace Site.SeenAs

variable {site : Site τ} {view : τ → σ} {seen : Site σ}

theorem carryOut (h : site.SeenAs view seen) (call : LocalCall) (t : τ) :
    seen.carryOut call (view t) = ((site.carryOut call t).1, view (site.carryOut call t).2) := by
  unfold Site.carryOut
  rw [h.enforce]
  rcases site.enforce call t with ⟨e | _, t'⟩ <;> rfl

theorem receive (h : site.SeenAs view seen) (packet : Packet) (t : τ) :
    seen.receive packet (view t) = ((site.receive packet t).1, view (site.receive packet t).2) := by
  cases packet with
  | expunge id => exact h.carryOut (.clearExpunged id) t
  | updateDetails id => exact h.carryOut (.refreshDetails id) t
  | change c =>
    simp only [Site.receive, receiveChange]
    split
    · exact h.carryOut _ t
    · rw [h.fetch]
      rcases site.fetch c.ref t with ⟨e | (_ | p), t'⟩
      · rfl
      · rfl
      · exact h.carryOut _ t'

theorem handle (h : site.SeenAs view seen) (self : Uuid) (message : Bytes) (t : τ) :
    Sync.handle self seen message (view t) =
      ((Sync.handle self site message t).1, view (Sync.handle self site message t).2) := by
  unfold Sync.handle
  rcases Packet.hear self message with e | (_ | packet)
  · rfl
  · rfl
  · simp only [h.receive packet t]
    rcases site.receive packet t with ⟨e | r, t'⟩ <;> rfl

theorem handleAll (h : site.SeenAs view seen) (self : Uuid) (messages : List Bytes) (t : τ) :
    Sync.handleAll self seen messages (view t) =
      ((Sync.handleAll self site messages t).1, view (Sync.handleAll self site messages t).2) := by
  induction messages generalizing t with
  | nil => rfl
  | cons message rest ih => simp only [Sync.handleAll, h.handle, ih]

theorem poll {M Link : Type} [Medium M Link] (h : site.SeenAs view seen) (now : Timestamp) (m : M)
    (v : Sync.Service Link) (t : τ) : v.poll now seen m (view t) =
      ((v.poll now site m t).1, (v.poll now site m t).2.1, view (v.poll now site m t).2.2) := by
  unfold Sync.Service.poll
  rcases Medium.poll now m v.link with ⟨e | messages, link⟩
  · rfl
  · simp only [h.handleAll]

end Site.SeenAs

namespace Site

/-- The site, which also writes down the calls. -/
def traced (site : Site σ) : Site (σ × List LocalCall) where
  fetch ref s := ((site.fetch ref s.1).1, (site.fetch ref s.1).2, s.2)
  enforce call s := ((site.enforce call s.1).1, (site.enforce call s.1).2, s.2 ++ [call])

theorem seenAs_traced (site : Site σ) : site.traced.SeenAs Prod.fst site where
  fetch _ _ := rfl
  enforce _ _ := rfl

/-- It goes on behind what is written down already. -/
theorem seenAs_traced_behind (site : Site σ) (before : List LocalCall) :
    site.traced.SeenAs (fun t => (t.1, before ++ t.2)) site.traced where
  fetch _ _ := rfl
  enforce _ _ := by simp only [traced, List.append_assoc]

end Site

namespace Sync

/-- Writing the calls down changes nothing else. -/
theorem handle_traced (self : Uuid) (site : Site σ) (message : Bytes) (s : σ) (calls : List LocalCall) :
    (handle self site.traced message (s, calls)).1 = (handle self site message s).1 ∧
      (handle self site.traced message (s, calls)).2.1 = (handle self site message s).2 := by
  have hseen := site.seenAs_traced.handle self message (s, calls)
  exact ⟨congrArg Prod.fst hseen.symm, congrArg Prod.snd hseen.symm⟩

theorem poll_traced {M Link : Type} [Medium M Link] (now : Timestamp) (site : Site σ) (m : M)
    (v : Service Link) (s : σ) : v.poll now site m s = ((v.poll now site.traced m (s, [])).1,
      (v.poll now site.traced m (s, [])).2.1, (v.poll now site.traced m (s, [])).2.2.1) :=
  site.seenAs_traced.poll now m v (s, [])

/-- The message was handed to the site. -/
def Handling.Handed : Handling → Prop
  | .received _ | .failed _ => True
  | .ignored | .malformed => False

/-- A message in which the node hears no packet is not handed on, and causes no call. -/
theorem handle_of_not_heard {self : Uuid} {message : Bytes} (h : ∀ q, Packet.hear self message ≠ .ok (some q))
    (site : Site σ) (s : σ) :
    ¬(handle self site message s).1.Handed ∧ (handle self site message s).2 = s := by
  unfold handle
  rcases hheard : Packet.hear self message with e | (_ | packet)
  · exact ⟨id, rfl⟩
  · exact ⟨id, rfl⟩
  · exact absurd hheard (h packet)

/-! ## What is counted -/

/-- The site failed in doing what the message asks. -/
def Handling.isFailed : Handling → Bool
  | failed _ => true
  | _ => false

/-- Each class but the first has its counter. -/
theorem foldl_count (hs : List Handling) (stats : Stats) : hs.foldl Stats.count stats =
    { stats with
      decodeFailures := stats.decodeFailures + hs.count .malformed
      applied := stats.applied + hs.count (.received .applied)
      missing := stats.missing + hs.count (.received .missing)
      receiveFailures := stats.receiveFailures + hs.countP Handling.isFailed } := by
  induction hs generalizing stats with
  | nil => rfl
  | cons h hs ih =>
    rw [List.foldl_cons, ih]
    rcases h with _ | _ | (_ | _) | e <;>
      simp [Stats.count, Handling.isFailed, List.countP_cons, Nat.add_assoc, Nat.add_comm 1]

/-- The counters are those of messages that were dealt with in these ways, and of no others. -/
structure Stats.Tallies (stats : Stats) (hs : List Handling) : Prop where
  malformed : stats.decodeFailures = hs.count .malformed
  applied : stats.applied = hs.count (.received .applied)
  missing : stats.missing = hs.count (.received .missing)
  failed : stats.receiveFailures = hs.countP Handling.isFailed

theorem Stats.Tallies.counted {stats : Stats} {hs : List Handling} (h : stats.Tallies hs)
    (more : List Handling) : (more.foldl Stats.count stats).Tallies (hs ++ more) := by
  rw [foldl_count]
  constructor
  · rw [List.count_append, ← h.malformed]
  · rw [List.count_append, ← h.applied]
  · rw [List.count_append, ← h.missing]
  · rw [List.countP_append, ← h.failed]

/-- The other counters are of no matter. -/
theorem Stats.Tallies.others {stats : Stats} {hs : List Handling} (h : stats.Tallies hs)
    (dispatched skipped pollFailures : Nat) :
    ({ stats with dispatched, skipped, pollFailures } : Stats).Tallies hs :=
  ⟨h.malformed, h.applied, h.missing, h.failed⟩

/-! ## Receipts -/

/-- What a node did with a message that it collected. -/
structure Receipt where
  place : Nat
  handling : Handling
  calls : List LocalCall

/-- Deals with messages, given with their places, and writes down what became of them. -/
def receipts (self : Uuid) (site : Site σ) : List (Nat × Bytes) → σ → List Receipt
  | [], _ => []
  | (place, message) :: rest, s =>
    let (handling, s, calls) := handle self site.traced message (s, [])
    { place, handling, calls } :: receipts self site rest s

/-- The receipts are of what the node does, and leave no call out that it makes. -/
theorem handleAll_receipts (self : Uuid) (site : Site σ) (messages : List (Nat × Bytes)) (s : σ)
    (before : List LocalCall) :
    (handleAll self site (messages.map Prod.snd) s).1 =
        (receipts self site messages s).map Receipt.handling ∧
      (handleAll self site.traced (messages.map Prod.snd) (s, before)).2.2 =
        before ++ (receipts self site messages s).flatMap Receipt.calls := by
  induction messages generalizing s before with
  | nil => exact ⟨rfl, (List.append_nil before).symm⟩
  | cons m rest ih =>
    obtain ⟨hhandling, hstate⟩ := handle_traced self site m.2 s []
    obtain ⟨hhandlings, -⟩ := ih (handle self site m.2 s).2 []
    have hcalls := (ih (handle self site m.2 s).2 (before ++ (handle self site.traced m.2 (s, [])).2.2)).2
    have hbehind := (site.seenAs_traced_behind before).handle self m.2 (s, [])
    simp only [List.append_nil] at hbehind
    constructor
    · simp only [receipts, handleAll, List.map_cons, hhandlings, hhandling, hstate]
    · simp only [receipts, handleAll, List.map_cons, List.flatMap_cons, hbehind, hstate, hcalls,
        List.append_assoc]

theorem map_place_receipts (self : Uuid) (site : Site σ) (messages : List (Nat × Bytes)) (s : σ) :
    (receipts self site messages s).map Receipt.place = messages.map Prod.fst := by
  induction messages generalizing s with
  | nil => rfl
  | cons m messages ih => simp only [receipts, List.map_cons, ih]

/-- The receipt says what the node did with a message, at some site. -/
def Receipt.IsOf (σ : Type) (self : Uuid) (message : Bytes) (r : Receipt) : Prop :=
  ∃ (site : Site σ) (s : σ), r.handling = (handle self site message s).1 ∧
    r.calls = (handle self site.traced message (s, [])).2.2

theorem isOf_of_mem_receipts {self : Uuid} {site : Site σ} {messages : List (Nat × Bytes)} {s : σ} {r : Receipt}
    (h : r ∈ receipts self site messages s) :
    ∃ message, (r.place, message) ∈ messages ∧ r.IsOf σ self message := by
  induction messages generalizing s with
  | nil => simp [receipts] at h
  | cons m messages ih =>
    rcases List.mem_cons.1 h with rfl | h
    · exact ⟨m.2, List.mem_cons_self, site, s, (handle_traced self site m.2 s []).1, rfl⟩
    · obtain ⟨message, hmem, hof⟩ := ih h
      exact ⟨message, List.mem_cons_of_mem _ hmem, hof⟩

/-- A node's receipts of its own messages are of nothing. -/
theorem Receipt.IsOf.not_handed {self : Uuid} {packet : Packet} {message : Bytes} {r : Receipt}
    (h : r.IsOf σ self message) (hseal : packet.seal self = .ok message) :
    ¬r.handling.Handed ∧ r.calls = [] := by
  obtain ⟨site, s, hhandling, hcalls⟩ := h
  have hnot := Packet.not_hear_seal hseal
  rw [hhandling, hcalls, (handle_of_not_heard hnot site.traced (s, [])).2]
  exact ⟨(handle_of_not_heard hnot site s).1, rfl⟩

end Sync

end Moderation
