import Moderation.Clock
import Moderation.Failure
import Moderation.Text.Hex
/-!
# Mailboxes

A mailbox is a table of stamped messages that all nodes write to and read from. A node reads the
messages of one window of time after the other: each window begins where the last one ended, excludes
its beginning and includes its end.
-/

namespace Moderation

structure Letter where
  time : Timestamp
  payload : Bytes
deriving DecidableEq

structure Mailbox where
  /-- The messages, in the order in which they were put there. -/
  letters : List Letter := []
  readFailure : Option StoreError := none
  writeFailure : Option StoreError := none

structure Window where
  after : Timestamp
  upTo : Timestamp
deriving DecidableEq

namespace Window

/-- The instant lies in the window. -/
def Holds (w : Window) (t : Timestamp) : Prop := w.after < t ∧ t ≤ w.upTo

instance (w : Window) (t : Timestamp) : Decidable (w.Holds t) :=
  inferInstanceAs (Decidable (_ ∧ _))

end Window

namespace Mailbox

def insert (m : Mailbox) (time : Timestamp) (payload : Bytes) : Except StoreError Mailbox :=
  match m.writeFailure with
  | some e => .error e
  | none => .ok { m with letters := m.letters ++ [⟨time, payload⟩] }

/-- The messages of a window by time, and of one time in the order of insertion. -/
def inWindow (m : Mailbox) (w : Window) : List Letter :=
  (m.letters.filter fun l => w.Holds l.time).mergeSort fun a b => a.time ≤ b.time

def select (m : Mailbox) (w : Window) : Except StoreError (List Letter) :=
  match m.readFailure with
  | some e => .error e
  | none => .ok (m.inWindow w)

/-- Removes the messages from before `cutoff`, and counts them. -/
def prune (m : Mailbox) (cutoff : Timestamp) : Nat × Mailbox :=
  let kept := m.letters.filter fun l => cutoff ≤ l.time
  (m.letters.length - kept.length, { m with letters := kept })

end Mailbox

/-- A node's place in a mailbox: the end of the last window it read, if it has read at all. -/
structure Cursor where
  last : Option Timestamp := none
deriving DecidableEq

namespace Cursor

/-- Claims the window from the last one to now. The first reading only sets the place, and a clock
that has not moved on claims nothing. -/
def claim (c : Cursor) (now : Timestamp) : Option Window × Cursor :=
  match c.last with
  | none => (none, ⟨some now⟩)
  | some last => if now ≤ last then (none, c) else (some ⟨last, now⟩, ⟨some now⟩)

/-- Reads the messages since the last reading. A window that was claimed stays claimed when the
mailbox cannot be read. -/
def poll (c : Cursor) (now : Timestamp) (m : Mailbox) : Except StoreError (List Bytes) × Cursor :=
  match c.claim now with
  | (none, c) => (.ok [], c)
  | (some w, c) => ((m.select w).map fun letters => letters.map Letter.payload, c)

end Cursor

end Moderation
