import Moderation.Enforcement.Options
import Moderation.Failure
/-!
# Sites

A site is what a node acts on: it looks punishments up and carries changes out where the node is.
Both may change the site's state, and both may fail.
-/

namespace Moderation

inductive LocalCall where
  | enforce (p : Punishment) (o : Options)
  | unenforce (p : Punishment) (o : Options)
  /-- Lift a punishment of which only the name is known. -/
  | unenforceById (ref : PunishmentRef) (o : Options)
  /-- Forget a punishment that is gone for good. -/
  | clearExpunged (id : PunishmentId)
  /-- Take over changed details. -/
  | refreshDetails (id : PunishmentId)
deriving DecidableEq

def LocalCall.options? : LocalCall → Option Options
  | enforce _ o | unenforce _ o | unenforceById _ o => some o
  | clearExpunged _ | refreshDetails _ => none

/-- What carries calls out, changing a state `σ`. -/
abbrev Enforcer (σ : Type) := LocalCall → σ → Except EnforcementError Unit × σ

/-- What looks punishments up, changing a state `σ`. -/
abbrev Selector (σ : Type) := PunishmentRef → σ → Except StoreError (Option Punishment) × σ

structure Site (σ : Type) where
  fetch : Selector σ
  enforce : Enforcer σ

end Moderation
