import Moderation.Medium.Basic
import Moderation.Packet.Wire
import Moderation.Sync.Receiver
/-!
# Synchronization

Each node has a service that tells the other nodes of its changes and carries theirs out. What a node
hears it never tells again: handling a message does not touch the medium.
-/

namespace Moderation.Sync

structure Stats where
  dispatched : Nat := 0
  /-- Changes that were not for other nodes. -/
  skipped : Nat := 0
  applied : Nat := 0
  /-- Packets about punishments that are not in the store. -/
  missing : Nat := 0
  decodeFailures : Nat := 0
  receiveFailures : Nat := 0
  pollFailures : Nat := 0
deriving DecidableEq

structure Service (Link : Type) where
  self : Uuid
  link : Link
  stats : Stats := {}

inductive Outcome where
  | dispatched
  | skipped
deriving DecidableEq

inductive Error where
  | encode (e : Wire.EncodeError)
  | store (e : StoreError)
deriving DecidableEq

instance : ToString Error where
  toString
    | .encode e => s!"Encoding error: {e}"
    | .store e => s!"Transport store error: {e}"

inductive Handling where
  /-- It is the node's own, or of another version. -/
  | ignored
  | malformed
  | received (r : Reception)
  | failed (e : ReceiveError)
deriving DecidableEq

namespace Stats

def count (stats : Stats) : Handling → Stats
  | .ignored => stats
  | .malformed => { stats with decodeFailures := stats.decodeFailures + 1 }
  | .received .applied => { stats with applied := stats.applied + 1 }
  | .received .missing => { stats with missing := stats.missing + 1 }
  | .failed _ => { stats with receiveFailures := stats.receiveFailures + 1 }

end Stats

namespace Handling

def isReceived : Handling → Bool
  | received _ => true
  | _ => false

end Handling

/-- Deals with a message at the site of the node `self`. -/
def handle {σ : Type} (self : Uuid) (site : Site σ) (message : Bytes) (s : σ) : Handling × σ :=
  match Packet.hear self message with
  | .error _ => (.malformed, s)
  | .ok none => (.ignored, s)
  | .ok (some packet) =>
    match site.receive packet s with
    | (.ok r, s) => (.received r, s)
    | (.error e, s) => (.failed e, s)

def handleAll {σ : Type} (self : Uuid) (site : Site σ) : List Bytes → σ → List Handling × σ
  | [], s => ([], s)
  | message :: rest, s =>
    let (h, s) := handle self site message s
    let (hs, s) := handleAll self site rest s
    (h :: hs, s)

namespace Service

variable {M Link : Type} [Medium M Link]

def send (now : Timestamp) (packet : Packet) (v : Service Link) (m : M) :
    Except Error Outcome × Service Link × M :=
  match packet.seal v.self with
  | .error e => (.error (.encode e), v, m)
  | .ok message =>
    match Medium.send now message m with
    | .error e => (.error (.store e), v, m)
    | .ok m =>
      (.ok .dispatched, { v with stats.dispatched := v.stats.dispatched + 1 }, m)

/-- Tells the other nodes that a punishment is imposed or lifted, if that is to happen on all. -/
def dispatchChange (now : Timestamp) (ref : PunishmentRef) (mode : Mode) (o : Options)
    (v : Service Link) (m : M) : Except Error Outcome × Service Link × M :=
  if o.enforcement = .global then v.send now (.change (Change.ofOptions ref mode o)) m
  else (.ok .skipped, { v with stats.skipped := v.stats.skipped + 1 }, m)

def dispatchExpunge (now : Timestamp) (id : PunishmentId) (v : Service Link) (m : M) :
    Except Error Outcome × Service Link × M :=
  v.send now (.expunge id) m

def dispatchUpdate (now : Timestamp) (id : PunishmentId) (v : Service Link) (m : M) :
    Except Error Outcome × Service Link × M :=
  v.send now (.updateDetails id) m

/-- Collects the messages since the last time and deals with them; gives the number dealt with. -/
def poll {σ : Type} (now : Timestamp) (site : Site σ) (m : M) (v : Service Link) (s : σ) :
    Nat × Service Link × σ :=
  match Medium.poll now m v.link with
  | (.error _, link) =>
    (0, { v with link, stats.pollFailures := v.stats.pollFailures + 1 }, s)
  | (.ok messages, link) =>
    let (hs, s) := handleAll v.self site messages s
    (hs.countP Handling.isReceived, { v with link, stats := hs.foldl Stats.count v.stats }, s)

end Service

end Moderation.Sync
