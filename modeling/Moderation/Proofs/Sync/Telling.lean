import Moderation.Node.Command
/-!
# Telling others

What a service can tell the other nodes, and what that does to the service and to the medium: nothing, or
one message is sent and counted (`Service.Tells`). Commands tell as their calls do, and polls tell nothing.
-/

namespace Moderation

namespace Sync

/-- What a service can tell the other nodes. -/
inductive Notice where
  | change (ref : PunishmentRef) (mode : Mode) (o : Options)
  | expunge (id : PunishmentId)
  | update (id : PunishmentId)
deriving DecidableEq

namespace Service

variable {M Link : Type} [Medium M Link]

def tell (now : Timestamp) (notice : Notice) (v : Service Link) (m : M) :
    Except Error Outcome × Service Link × M :=
  match notice with
  | .change ref mode o => v.dispatchChange now ref mode o m
  | .expunge id => v.dispatchExpunge now id m
  | .update id => v.dispatchUpdate now id m

/-- What becomes of a service and the medium when others are told: nothing is sent, which may be counted, or one
message, which is. -/
inductive Tells (now : Timestamp) (v : Service Link) (m : M) : Service Link → M → Prop
  | quiet (skipped : Nat) : Tells now v m { v with stats.skipped := skipped } m
  | sent {packet message m'} : Packet.seal v.self packet = .ok message → Medium.send now message m = .ok m' →
      Tells now v m { v with stats.dispatched := v.stats.dispatched + 1 } m'

variable (now : Timestamp) (v : Service Link) (m : M)

theorem tells_send (packet : Packet) : Tells now v m (v.send now packet m).2.1 (v.send now packet m).2.2 := by
  unfold send
  cases hseal : packet.seal v.self with
  | error e => exact .quiet v.stats.skipped
  | ok message =>
    cases hsend : Medium.send now message m with
    | error e => simpa only [hsend] using .quiet v.stats.skipped
    | ok m' => simpa only [hsend] using .sent hseal hsend

theorem tells_dispatchChange (ref : PunishmentRef) (mode : Mode) (o : Options) :
    Tells now v m (v.dispatchChange now ref mode o m).2.1 (v.dispatchChange now ref mode o m).2.2 := by
  unfold dispatchChange
  split
  · exact v.tells_send now m _
  · exact .quiet (v.stats.skipped + 1)

theorem tells_tell (notice : Notice) : Tells now v m (v.tell now notice m).2.1 (v.tell now notice m).2.2 := by
  cases notice with
  | change ref mode o => exact v.tells_dispatchChange now m ref mode o
  | expunge | update => exact v.tells_send now m _

theorem tells_announce (call : LocalCall) :
    Tells now v m (v.announce now call m).2.1 (v.announce now call m).2.2 := by
  cases call with
  | enforce | unenforce | unenforceById => exact v.tells_dispatchChange now m _ _ _
  | clearExpunged | refreshDetails => exact v.tells_send now m _

theorem tells_command {σ : Type} (site : Site σ) (call : LocalCall) (s : σ) :
    Tells now v m (Node.command now site call v m s).2.1 (Node.command now site call v m s).2.2.1 := by
  unfold Node.command
  split
  · exact .quiet v.stats.skipped
  · rcases site.enforce call s with ⟨e | _, s'⟩
    · exact .quiet v.stats.skipped
    · exact v.tells_announce now m call

/-- Polling counts nothing as sent. -/
theorem poll_spec {σ : Type} (site : Site σ) (s : σ) :
    (v.poll now site m s).2.1.self = v.self ∧ (v.poll now site m s).2.1.link = (Medium.poll now m v.link).2 ∧
      (v.poll now site m s).2.1.stats.dispatched = v.stats.dispatched := by
  have hcount (hs : List Handling) (stats : Stats) :
      (hs.foldl Stats.count stats).dispatched = stats.dispatched := by
    induction hs generalizing stats with
    | nil => rfl
    | cons h hs ih =>
      rw [List.foldl_cons, ih]
      rcases h with _ | _ | (_ | _) | _ <;> rfl
  unfold poll
  split <;> simp [*]

end Service

end Sync

end Moderation
