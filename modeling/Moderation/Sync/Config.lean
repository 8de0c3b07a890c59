import Moderation.Json.Record
import Moderation.Punishment.Json
/-!
# Settings of synchronization

How often a node asks for messages, and by which medium the nodes exchange them.
-/

namespace Moderation

inductive MediumKind where
  | mailbox
  | bus
deriving DecidableEq, Repr

namespace MediumKind

def name : MediumKind → String
  | mailbox => "mailbox"
  | bus => "bus"

def ofJson? : Json → Option MediumKind :=
  Json.toChoice? ([mailbox, bus].map fun k => (k.name, k))

def toJson (k : MediumKind) : Json := .string k.name

end MediumKind

namespace Sync

/-- The least time between two polls, in milliseconds. -/
def minPollInterval : UInt64 := 100

/-- The greatest time between two polls, in milliseconds. -/
def maxPollInterval : UInt64 := 60000

structure Config where
  /-- The time between two polls, in milliseconds. -/
  pollInterval : UInt64 := 4000
  medium : MediumKind := .mailbox
deriving DecidableEq

inductive ConfigError where
  | pollIntervalOutOfRange (value : UInt64)
deriving DecidableEq

instance : ToString ConfigError where
  toString
    | .pollIntervalOutOfRange value =>
      s!"Poll interval {value}ms outside [{minPollInterval}, {maxPollInterval}]"

namespace Config

/-- Accepts the settings if the time between two polls is within its bounds. -/
def validate (c : Config) : Except ConfigError Unit :=
  if minPollInterval ≤ c.pollInterval ∧ c.pollInterval ≤ maxPollInterval then .ok ()
  else .error (.pollIntervalOutOfRange c.pollInterval)

def ofJson? (v : Json) : Option Config := do
  let [pollInterval, medium] ← v.fields? ["poll_interval_ms", "transport"] | none
  let d : Config := {}
  return {
    pollInterval := ← pollInterval.default d.pollInterval Json.toUInt64?
    medium := ← medium.default d.medium MediumKind.ofJson? }

def toJson (c : Config) : Json :=
  .object [("poll_interval_ms", Json.ofUInt64 c.pollInterval), ("transport", c.medium.toJson)]

end Config

end Sync

end Moderation
