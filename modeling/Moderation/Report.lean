import Moderation.Medium.Bus
import Moderation.Node.Command
import Moderation.Node.Config
/-!
# Reports of errors

An error is reported by the name of its cause and by a message. Causes within a cause show in the
message only.
-/

namespace Moderation

class Reportable (ε : Type) extends ToString ε where
  cause : ε → String

def Reportable.report {ε : Type} [Reportable ε] (e : ε) : List (String × Json) :=
  [("error", .string (cause e)), ("message", .string (toString e))]

instance : Reportable Wire.DecodeError where
  cause
    | .truncated _ _ => "Truncated"
    | .unknownPacketType _ => "UnknownPacketType"
    | .unknownOrdinal _ _ => "UnknownOrdinal"
    | .invalidBoolean _ => "InvalidBoolean"
    | .invalidUtf8 _ => "InvalidUtf8"

instance : Reportable Wire.EncodeError where
  cause
    | .stringTooLong _ _ => "StringTooLong"

instance : Reportable StoreError where
  cause
    | .unavailable _ => "Unavailable"
    | .timeout _ => "Timeout"
    | .queryFailed _ => "QueryFailed"

instance : Reportable EnforcementError where
  cause
    | .store _ => "Store"
    | .platform _ => "Platform"

instance : Reportable SubscriptionError where
  cause
    | .closed => "Closed"

instance : Reportable Sync.Error where
  cause
    | .encode _ => "Encode"
    | .store _ => "Store"

instance : Reportable ReceiveError where
  cause
    | .fetch _ => "Fetch"
    | .enforcement _ => "Enforcement"

instance : Reportable Node.CommandError where
  cause
    | .enforcement _ => "Enforcement"
    | .sync _ => "Sync"

instance : Reportable Sync.ConfigError where
  cause
    | .pollIntervalOutOfRange _ => "PollIntervalOutOfRange"

instance : Reportable Mute.ConfigError where
  cause
    | .tooShort _ _ _ => "TooShort"

instance : Reportable Node.ConfigError where
  cause
    | .sync _ => "Sync"
    | .muteCache _ => "MuteCache"
    | .invalidEnv _ _ => "InvalidEnv"

end Moderation
