import Moderation.Json.Reader
import Moderation.Mute.Config
import Moderation.Sync.Config
import Moderation.Text.Blank
import Moderation.Text.Numeral
import Moderation.Text.Quoted
/-!
# The configuration of a node

Three layers: defaults, a configuration file over them, and variables of the environment over both.
Each variable sets one field. They are applied in a fixed order up to the first whose value is of no
use, and what was applied before it stays.
-/

namespace Moderation.Node

structure Config where
  sync : Sync.Config := {}
  muteCache : Mute.Config := {}
deriving DecidableEq

inductive ConfigError where
  | sync (e : Sync.ConfigError)
  | muteCache (e : Mute.ConfigError)
  | invalidEnv (name value : String)
deriving DecidableEq

instance : ToString ConfigError where
  toString
    | .sync e => s!"Invalid synchronization config: {e}"
    | .muteCache e => s!"Invalid mute cache config: {e}"
    | .invalidEnv name value => "Invalid value " ++ Quoted.quote value ++ " for " ++ name

namespace Config

/-- Accepts the configuration if both groups of settings are accepted, synchronization first. -/
def validate (c : Config) : Except ConfigError Unit := do
  c.sync.validate.mapError .sync
  c.muteCache.validate.mapError .muteCache

def ofJson? (v : Json) : Option Config := do
  let [sync, muteCache] ← v.fields? ["sync", "mute_cache"] | none
  return {
    sync := ← sync.default {} Sync.Config.ofJson?
    muteCache := ← muteCache.default {} Mute.Config.ofJson? }

def toJson (c : Config) : Json :=
  .object [("sync", c.sync.toJson), ("mute_cache", c.muteCache.toJson)]

end Config

/-! ## Variables of the environment -/

/-- What the variables are set to. One whose value is not Unicode text counts as not set, one that is empty is set. -/
abbrev Environment := String → Option String

structure Setting where
  name : String
  /-- Sets the field to what the trimmed value says, if it says anything. -/
  assign? : List Char → Config → Option Config

namespace Setting

/-- A variable whose value is a time in milliseconds. -/
def millis (name : String) (assign : UInt64 → Config → Config) : Setting where
  name := name
  assign? cs c := (Numeral.word? cs).map fun ms => assign ms c

/-- The variables, in the order in which they are applied. -/
def all : List Setting :=
  [millis "MODSYNC_POLL_INTERVAL_MS" fun ms c => { c with sync.pollInterval := ms },
    millis "MODSYNC_MUTE_EXPIRATION_MS" fun ms c => { c with muteCache.expiration := ms },
    millis "MODSYNC_PURGE_INTERVAL_MS" fun ms c => { c with muteCache.purgeInterval := ms },
    millis "MODSYNC_GRACE_PERIOD_MS" fun ms c => { c with muteCache.gracePeriod := ms },
    { name := "MODSYNC_MUTE_CACHE"
      assign? cs c :=
        (Mute.Variant.ofName? (String.ofList cs)).map fun v => { c with muteCache.variant := v } }]

def apply (env : Environment) (s : Setting) (c : Config) : Except ConfigError Config :=
  match env s.name with
  | none => .ok c
  | some value =>
    match s.assign? (Blank.trim value.toList) c with
    | some c => .ok c
    | none => .error (.invalidEnv s.name value)

/-- Applies variables in order, up to the first whose value is of no use. -/
def applyAll (env : Environment) : List Setting → Config → Except ConfigError Unit × Config
  | [], c => (.ok (), c)
  | s :: rest, c =>
    match s.apply env c with
    | .ok c => applyAll env rest c
    | .error e => (.error e, c)

end Setting

namespace Config

/-- Applies the variables of the environment; the configuration is as it was left, error or not. -/
def applyOverrides (env : Environment) (c : Config) : Except ConfigError Unit × Config :=
  Setting.applyAll env Setting.all c

def fileVariable : String := "MODSYNC_CONFIG"

inductive LoadError where
  | unreadable
  | malformed
  | refused (e : ConfigError)

def ofFile (text? : Option String) : Except LoadError Config :=
  match text? with
  | none => .error .unreadable
  | some text =>
    match (Json.parse? text).bind ofJson? with
    | some c => .ok c
    | none => .error .malformed

/-- The file's configuration, or the defaults if the environment names no file. -/
def base (env : Environment) (readFile : String → Option String) : Except LoadError Config :=
  match env fileVariable with
  | some path => ofFile (readFile path)
  | none => .ok {}

def load (env : Environment) (readFile : String → Option String) : Except LoadError Config := do
  let c ← base env readFile
  let (outcome, c) := c.applyOverrides env
  outcome.mapError .refused
  c.validate.mapError .refused
  return c

end Config

end Moderation.Node
