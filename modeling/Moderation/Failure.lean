/-!
# Failures of the surroundings

What can go wrong in the punishment store and on the platform that carries an enforcement out.
-/

namespace Moderation

inductive StoreError where
  | unavailable (reason : String)
  | timeout (ms : UInt64)
  | queryFailed (reason : String)
deriving DecidableEq

instance : ToString StoreError where
  toString
    | .unavailable reason => s!"Store unavailable: {reason}"
    | .timeout ms => s!"Store query timed out after {ms}ms"
    | .queryFailed reason => s!"Store query failed: {reason}"

inductive EnforcementError where
  | store (e : StoreError)
  | platform (reason : String)
deriving DecidableEq

instance : ToString EnforcementError where
  toString
    | .store e => s!"Store error during enforcement: {e}"
    | .platform reason => s!"Platform failed to apply enforcement: {reason}"

end Moderation
