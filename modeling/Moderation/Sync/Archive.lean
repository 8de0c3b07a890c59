import Moderation.Sync.Site
import Moderation.Table
/-!
# Archives and recorders

Plain sites: an archive holds punishments under their names and counts how often it is asked, and a
recorder carries calls out by writing them down. Either can be told to fail.
-/

namespace Moderation.Sync

structure Archive where
  punishments : Table PunishmentRef Punishment := ∅
  fetches : Nat := 0
  failure : Option StoreError := none

namespace Archive

def insert (a : Archive) (p : Punishment) : Archive :=
  { a with punishments := a.punishments.insert p.ref p }

def erase (a : Archive) (ref : PunishmentRef) : Archive :=
  { a with punishments := a.punishments.erase ref }

def fetch (ref : PunishmentRef) (a : Archive) : Except StoreError (Option Punishment) × Archive :=
  let answer := match a.failure with
    | some e => .error e
    | none => .ok (a.punishments.get? ref)
  (answer, { a with fetches := a.fetches + 1 })

end Archive

structure Recorder where
  calls : List LocalCall := []
  collected : Nat := 0
  failure : Option EnforcementError := none

namespace Recorder

def enforce : Enforcer Recorder := fun call r =>
  let outcome := match r.failure with
    | some e => .error e
    | none => .ok ()
  (outcome, { r with calls := r.calls ++ [call] })

def collect (r : Recorder) : List LocalCall × Recorder :=
  (r.calls.drop r.collected, { r with collected := r.calls.length })

def lastOptions? (r : Recorder) : Option Options := (r.calls.filterMap LocalCall.options?).getLast?

end Recorder

/-- The site of a node with an archive that it shares and a recorder of its own. -/
def Archive.site : Site (Archive × Recorder) where
  fetch ref s :=
    let (answer, a) := s.1.fetch ref
    (answer, (a, s.2))
  enforce call s :=
    let (outcome, r) := Recorder.enforce call s.2
    (outcome, (s.1, r))

end Moderation.Sync
