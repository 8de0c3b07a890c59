import Moderation.Clock
import Moderation.Json.Record
import Moderation.Punishment.Json
/-!
# Settings of the mute cache

Which of the two caches a node keeps, and when its entries are old.
-/

namespace Moderation.Mute

inductive Variant where
  /-- Holds an answer for everyone who is online, and refreshes it behind their backs. -/
  | alwaysAvailable
  | onDemand
deriving DecidableEq, Repr

namespace Variant

def all : List Variant := [alwaysAvailable, onDemand]

def name : Variant → String
  | alwaysAvailable => "always-available"
  | onDemand => "on-demand"

def ofName? (s : String) : Option Variant := all.find? fun v => v.name == s

def ofJson? : Json → Option Variant := Json.toChoice? (all.map fun v => (v.name, v))

def toJson (v : Variant) : Json := .string v.name

end Variant

/-- How long an answer that was asked for is kept, in milliseconds. -/
inductive ExpirationPolicy where
  | write (ms : UInt64)
  | access (ms : UInt64)
deriving DecidableEq

namespace ExpirationPolicy

/-- An answer asked for at `written` and last wanted at `accessed` is not to be used any more. -/
def Expired (policy : ExpirationPolicy) (written accessed now : Timestamp) : Prop :=
  match policy with
  | write ms => ms.toNat ≤ now.since written
  | access ms => ms.toNat ≤ now.since accessed

instance (policy : ExpirationPolicy) (written accessed now : Timestamp) :
    Decidable (policy.Expired written accessed now) :=
  match policy with
  | write ms => inferInstanceAs (Decidable (ms.toNat ≤ now.since written))
  | access ms => inferInstanceAs (Decidable (ms.toNat ≤ now.since accessed))

def ofJson? (v : Json) : Option ExpirationPolicy :=
  match v.alternative? with
  | some ("Write", some ms) => ms.toUInt64?.map write
  | some ("Access", some ms) => ms.toUInt64?.map access
  | _ => none

def toJson : ExpirationPolicy → Json
  | write ms => .object [("Write", Json.ofUInt64 ms)]
  | access ms => .object [("Access", Json.ofUInt64 ms)]

end ExpirationPolicy

structure Config where
  variant : Variant := .alwaysAvailable
  /-- How long an answer is fresh, in milliseconds. -/
  expiration : UInt64 := 60000
  expireAfterAccess : Bool := false
  /-- The time between two sweeps, in milliseconds. -/
  purgeInterval : UInt64 := 60000
  /-- How long the answer for someone who has left is kept, in milliseconds. -/
  gracePeriod : UInt64 := 240000
deriving DecidableEq

inductive ConfigError where
  | tooShort (field : String) (value least : UInt64)
deriving DecidableEq

instance : ToString ConfigError where
  toString
    | .tooShort field value least => s!"{field} must be at least {least}ms, got {value}ms"

namespace Config

/-- The least time for which an answer is fresh, in milliseconds. -/
def minExpiration : UInt64 := 1000

/-- The least time between two sweeps, in milliseconds. -/
def minPurgeInterval : UInt64 := 1000

def validate (c : Config) : Except ConfigError Unit :=
  if c.expiration < minExpiration then
    .error (.tooShort "expiration_ms" c.expiration minExpiration)
  else if c.purgeInterval < minPurgeInterval then
    .error (.tooShort "purge_interval_ms" c.purgeInterval minPurgeInterval)
  else .ok ()

def policy (c : Config) : ExpirationPolicy :=
  if c.expireAfterAccess then .access c.expiration else .write c.expiration

def ofJson? (v : Json) : Option Config := do
  let names := ["variant", "expiration_ms", "expire_after_access", "purge_interval_ms",
    "grace_period_ms"]
  let [variant, expiration, expireAfterAccess, purgeInterval, gracePeriod] ← v.fields? names | none
  let d : Config := {}
  return {
    variant := ← variant.default d.variant Variant.ofJson?
    expiration := ← expiration.default d.expiration Json.toUInt64?
    expireAfterAccess := ← expireAfterAccess.default d.expireAfterAccess Json.toBool?
    purgeInterval := ← purgeInterval.default d.purgeInterval Json.toUInt64?
    gracePeriod := ← gracePeriod.default d.gracePeriod Json.toUInt64? }

def toJson (c : Config) : Json :=
  .object [("variant", c.variant.toJson), ("expiration_ms", Json.ofUInt64 c.expiration),
    ("expire_after_access", .bool c.expireAfterAccess),
    ("purge_interval_ms", Json.ofUInt64 c.purgeInterval),
    ("grace_period_ms", Json.ofUInt64 c.gracePeriod)]

end Config

end Moderation.Mute
