import Moderation.Punishment.Json
import Moderation.Sync.Service
/-!
# Synchronization in JSON

Reading of failures that a site is told to have, and writing of what a service and a site have done.
-/

namespace Moderation

def StoreError.ofJson? (v : Json) : Option StoreError :=
  match v.alternative? with
  | some ("Unavailable", some reason) => reason.toText?.map unavailable
  | some ("Timeout", some ms) => ms.toUInt64?.map timeout
  | some ("QueryFailed", some reason) => reason.toText?.map queryFailed
  | _ => none

def EnforcementError.ofJson? (v : Json) : Option EnforcementError :=
  match v.alternative? with
  | some ("Store", some e) => (StoreError.ofJson? e).map store
  | some ("Platform", some reason) => reason.toText?.map platform
  | _ => none

def LocalCall.toJson : LocalCall → Json
  | enforce p _ => .object [("Enforce", p.summary)]
  | unenforce p _ => .object [("Unenforce", p.summary)]
  | unenforceById ref _ => .object [("UnenforceById", ref.toJson)]
  | clearExpunged id => .object [("ClearExpunged", Json.ofInt64 id)]
  | refreshDetails id => .object [("RefreshDetails", Json.ofInt64 id)]

namespace Sync

def Stats.toJson (s : Stats) : Json :=
  .object [("dispatched", Json.ofNat s.dispatched), ("skipped", Json.ofNat s.skipped),
    ("applied", Json.ofNat s.applied), ("missing", Json.ofNat s.missing),
    ("decode_failures", Json.ofNat s.decodeFailures),
    ("receive_failures", Json.ofNat s.receiveFailures),
    ("poll_failures", Json.ofNat s.pollFailures)]

def Outcome.toJson : Outcome → Json
  | dispatched => .string "Dispatched"
  | skipped => .string "Skipped"

end Sync

end Moderation
