import Moderation.Sync.Service
/-!
# Commands

A command is a call that is carried out at the node where it is given and then announced to the other
nodes. Nothing is announced that failed here, and nothing is undone when the announcement fails.
-/

namespace Moderation

namespace LocalCall

/-- The call is to have no effect anywhere. -/
def Idle (call : LocalCall) : Prop := ∃ o ∈ call.options?, o.enforcement = .none

instance (call : LocalCall) : Decidable call.Idle :=
  inferInstanceAs (Decidable (∃ o ∈ call.options?, o.enforcement = .none))

end LocalCall

namespace Sync.Service

variable {M Link : Type} [Medium M Link]

def announce (now : Timestamp) (call : LocalCall) (v : Service Link) (m : M) :
    Except Error Outcome × Service Link × M :=
  match call with
  | .enforce p o => v.dispatchChange now p.ref .impose o m
  | .unenforce p o => v.dispatchChange now p.ref .lift o m
  | .unenforceById ref o => v.dispatchChange now ref .lift o m
  | .clearExpunged id => v.dispatchExpunge now id m
  | .refreshDetails id => v.dispatchUpdate now id m

end Sync.Service

namespace Node

inductive CommandError where
  | enforcement (e : EnforcementError)
  /-- It was carried out here, but could not be announced. -/
  | sync (e : Sync.Error)
deriving DecidableEq

instance : ToString CommandError where
  toString
    | .enforcement e => s!"Local enforcement failed: {e}"
    | .sync e => s!"Dispatch failed: {e}"

variable {M Link σ : Type} [Medium M Link]

def command (now : Timestamp) (site : Site σ) (call : LocalCall) (v : Sync.Service Link) (m : M)
    (s : σ) : Except CommandError Sync.Outcome × Sync.Service Link × M × σ :=
  if call.Idle then (.ok .skipped, v, m, s)
  else
    match site.enforce call s with
    | (.error e, s) => (.error (.enforcement e), v, m, s)
    | (.ok (), s) =>
      let (outcome, v, m) := v.announce now call m
      (outcome.mapError .sync, v, m, s)

end Node

end Moderation
