import Moderation.Medium.Bus
import Moderation.Medium.Mailbox
import Moderation.Sync.Config
/-!
# Media

What nodes need of the medium by which they exchange messages, for any of them: to be connected, to
send a message to everyone, and to collect the messages since the last time.
-/

namespace Moderation

/-- A medium `M`, and what a node keeps in order to read from it. -/
class Medium (M : Type) (Link : outParam Type) where
  kind : MediumKind
  connect : M → Link × M
  send : Timestamp → Bytes → M → Except StoreError M
  /-- Collects the messages since the last time. The medium stays as it is. -/
  poll : Timestamp → M → Link → Except StoreError (List Bytes) × Link

/-- Messages go into the mailbox with the time at which they are sent. -/
instance : Medium Mailbox Cursor where
  kind := .mailbox
  connect m := ({}, m)
  send now message m := m.insert now message
  poll now m c := c.poll now m

instance : Medium Bus Subscription where
  kind := .bus
  connect b := b.subscribe [Bus.syncChannel]
  send _ message b := .ok (b.publish ⟨Bus.syncChannel, message⟩).2
  poll _ b s :=
    let (frames, s) := s.drain b
    (.ok (frames.map Frame.payload), s)

end Moderation
