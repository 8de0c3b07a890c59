import Moderation.Packet.Basic
import Moderation.Sync.Site
/-!
# Receiving packets

What a site does about a packet from another node. A punishment that is imposed or lifted is looked
up first, unless it is lifted without being announced: then its name is enough.
-/

namespace Moderation

inductive Reception where
  | applied
  /-- Its punishment is not in the store. -/
  | missing
deriving DecidableEq

inductive ReceiveError where
  | fetch (e : StoreError)
  | enforcement (e : EnforcementError)
deriving DecidableEq

instance : ToString ReceiveError where
  toString
    | .fetch e => s!"Failed to fetch punishment: {e}"
    | .enforcement e => s!"Local enforcement failed: {e}"

namespace Site

variable {σ : Type}

def carryOut (site : Site σ) (call : LocalCall) (s : σ) : Except ReceiveError Reception × σ :=
  match site.enforce call s with
  | (.ok (), s) => (.ok .applied, s)
  | (.error e, s) => (.error (.enforcement e), s)

/-- What a change asks of a site that has the punishment at hand. -/
def callOf (c : Change) (p : Punishment) : LocalCall :=
  match c.mode with
  | .impose => .enforce p c.localOptions
  | .lift => .unenforce p c.localOptions

def receiveChange (site : Site σ) (c : Change) (s : σ) : Except ReceiveError Reception × σ :=
  if c.mode = .lift ∧ c.broadcasting = .none then
    site.carryOut (.unenforceById c.ref c.localOptions) s
  else
    match site.fetch c.ref s with
    | (.error e, s) => (.error (.fetch e), s)
    | (.ok none, s) => (.ok .missing, s)
    | (.ok (some p), s) => site.carryOut (callOf c p) s

def receive (site : Site σ) (packet : Packet) (s : σ) : Except ReceiveError Reception × σ :=
  match packet with
  | .change c => site.receiveChange c s
  | .expunge id => site.carryOut (.clearExpunged id) s
  | .updateDetails id => site.carryOut (.refreshDetails id) s

end Site

end Moderation
