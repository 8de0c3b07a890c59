import Moderation.Enforcement.Options
/-!
# Packets

What one node tells the others: that a punishment is to be imposed or lifted, that it is gone for
good, or that its details have changed.
-/

namespace Moderation

structure Change where
  ref : PunishmentRef
  mode : Mode
  broadcasting : Broadcasting
  /-- The target as the command named it. -/
  target : Option String
  /-- Who lifts the punishment. -/
  lifter : Option Operator
deriving DecidableEq

namespace Change

def ofOptions (ref : PunishmentRef) (mode : Mode) (o : Options) : Change where
  ref := ref
  mode := mode
  broadcasting := o.broadcasting
  target := nonempty o.target
  lifter := o.lifter

/-- The options under which a node carries out a change that another node made: here only. -/
def localOptions (c : Change) : Options where
  enforcement := .singleServer
  broadcasting := c.broadcasting
  target := c.target
  lifter := c.lifter

end Change

inductive Packet where
  | change (c : Change)
  | expunge (id : PunishmentId)
  | updateDetails (id : PunishmentId)
deriving DecidableEq

namespace Packet

def discriminant : Packet → UInt8
  | change _ => 1
  | expunge _ => 2
  | updateDetails _ => 3

def punishmentId : Packet → PunishmentId
  | change c => c.ref.id
  | expunge id => id
  | updateDetails id => id

end Packet

end Moderation
