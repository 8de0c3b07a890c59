import Moderation.Schedule
import Moderation.Sync.Archive
import Moderation.Sync.Service
/-!
# Networks

Nodes that share a medium, a wall clock and an archive. Each can poll by hand or in a loop; the loops
run on a time of their own, apart from the wall clock.
-/

namespace Moderation.Sync

structure Peer (Link : Type) where
  service : Service Link
  recorder : Recorder := {}
  loop : Option Ticker := none

def Peer.passed {Link : Type} (upTo : Nat) (p : Peer Link) : Peer Link :=
  { p with loop := p.loop.map fun t => t.passed upTo }

structure Network (M Link : Type) where
  medium : M
  clock : Timestamp
  /-- The time of the loops. -/
  elapsed : Nat := 0
  archive : Archive := {}
  peers : Array (Peer Link) := #[]

namespace Network

variable {M Link : Type} [Medium M Link]

def join (n : Network M Link) (self : Uuid) : Network M Link :=
  let (link, medium) := Medium.connect n.medium
  { n with medium, peers := n.peers.push { service := { self, link } } }

def modifyPeer (n : Network M Link) (i : Nat) (f : Peer Link → Peer Link) : Network M Link :=
  { n with peers := n.peers.modify i f }

def dispatch (n : Network M Link) (i : Nat)
    (tell : Service Link → M → Except Error Outcome × Service Link × M) :
    Option (Except Error Outcome × Network M Link) :=
  n.peers[i]?.map fun p =>
    let (outcome, service, medium) := tell p.service n.medium
    (outcome, ({ n with medium }).modifyPeer i fun p => { p with service })

def receive (n : Network M Link) (i : Nat) (packet : Packet) :
    Option (Except ReceiveError Reception × Network M Link) :=
  n.peers[i]?.map fun p =>
    let (outcome, archive, recorder) := Archive.site.receive packet (n.archive, p.recorder)
    (outcome, ({ n with archive }).modifyPeer i fun p => { p with recorder })

def poll (n : Network M Link) (i : Nat) : Option (Nat × Network M Link) :=
  n.peers[i]?.map fun p =>
    let (handled, service, archive, recorder) :=
      p.service.poll n.clock Archive.site n.medium (n.archive, p.recorder)
    (handled, ({ n with archive }).modifyPeer i fun p => { p with service, recorder })

def collect (n : Network M Link) (i : Nat) :
    Option (Except StoreError (List Bytes) × Network M Link) :=
  n.peers[i]?.map fun p =>
    let (messages, link) := Medium.poll n.clock n.medium p.service.link
    (messages, n.modifyPeer i fun p => { p with service.link := link })

/-! ## Poll loops -/

def pollAll (n : Network M Link) (nodes : List Nat) : Network M Link :=
  nodes.foldl (fun n i => ((n.poll i).map Prod.snd).getD n) n

def loops (n : Network M Link) : List (Nat × Ticker) :=
  n.peers.toList.zipIdx.filterMap fun p => p.1.loop.map fun t => (p.2, t)

def sleep (n : Network M Link) (ms : Nat) : Network M Link :=
  let upTo := n.elapsed + ms
  let due := Schedule.firings n.loops upTo
  let n := { n with elapsed := upTo, peers := n.peers.map (Peer.passed upTo) }
  n.pollAll due

/-- Starts a node's poll loop, which polls at once. -/
def run (n : Network M Link) (i : Nat) (interval : Nat) : Network M Link :=
  (n.modifyPeer i fun p => { p with loop := some (Ticker.start n.elapsed 0 interval) }).sleep 0

def halt (n : Network M Link) (i : Nat) : Network M Link :=
  n.modifyPeer i fun p => { p with loop := p.loop.map Ticker.stop }

end Network

end Moderation.Sync
