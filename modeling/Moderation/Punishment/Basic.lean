import Moderation.Clock
import Moderation.Identity.Address
import Moderation.Identity.Uuid
import Moderation.Punishment.Kind
/-!
# Punishments

A punishment has a victim, which may be a player, an address or both, and ends at a second of the
wall clock or never. Ends are ordered with "never" as the latest.
-/

namespace Moderation

structure Visitor where
  user : Uuid
  address : Address
deriving DecidableEq, Inhabited

instance : ToString Visitor where
  toString v := s!"{v.user}@{v.address}"

inductive Victim where
  | player (user : Uuid)
  | address (address : Address)
  | composite (user : Uuid) (address : Address)
deriving DecidableEq

namespace Victim

def Covers : Victim → Visitor → Prop
  | player u, v => u = v.user
  | address a, v => a = v.address
  | composite u a, v => u = v.user ∨ a = v.address

instance : ∀ (x : Victim) (v : Visitor), Decidable (x.Covers v)
  | player u, v => inferInstanceAs (Decidable (u = v.user))
  | address a, v => inferInstanceAs (Decidable (a = v.address))
  | composite u a, v => inferInstanceAs (Decidable (u = v.user ∨ a = v.address))

end Victim

inductive Operator where
  | console
  | player (user : Uuid)
deriving DecidableEq

namespace Operator

def toUuid : Operator → Uuid
  | console => Uuid.nil
  | player u => u

def ofUuid (u : Uuid) : Operator := if u = Uuid.nil then console else player u

@[simp] theorem toUuid_ofUuid (u : Uuid) : (ofUuid u).toUuid = u := by
  unfold ofUuid
  split
  · rename_i h
    exact h.symm
  · rfl

end Operator

inductive Scope where
  | global
  | server (name : String)
  | category (name : String)
deriving DecidableEq

abbrev PunishmentId := Int64

structure PunishmentRef where
  id : PunishmentId
  kind : Kind
deriving DecidableEq

instance : ToString PunishmentRef where
  toString r := toString r.kind ++ "#" ++ toString r.id

structure Punishment where
  id : PunishmentId
  kind : Kind
  victim : Victim
  operator : Operator
  reason : String
  scope : Scope
  starts : Seconds
  /-- The second at which it ends; zero for never. -/
  ends : Seconds
deriving DecidableEq

namespace Punishment

def ref (p : Punishment) : PunishmentRef := ⟨p.id, p.kind⟩

def Permanent (p : Punishment) : Prop := p.ends = 0

instance (p : Punishment) : Decidable p.Permanent := inferInstanceAs (Decidable (p.ends = 0))

/-- The punishment is over at the second `now`: at its end it is. -/
def ExpiredAt (p : Punishment) (now : Seconds) : Prop := ¬p.Permanent ∧ p.ends ≤ now

instance (p : Punishment) (now : Seconds) : Decidable (p.ExpiredAt now) :=
  inferInstanceAs (Decidable (_ ∧ _))

/-- The punishment ends strictly later than `q`. -/
def Outlasts (p q : Punishment) : Prop := ¬q.Permanent ∧ (p.Permanent ∨ q.ends < p.ends)

instance (p q : Punishment) : Decidable (p.Outlasts q) := inferInstanceAs (Decidable (_ ∧ _))

/-- Of a punishment that is held and a new one, the one that ends later; the held one if neither
does. -/
def later (held : Option Punishment) (new : Punishment) : Punishment :=
  match held with
  | some p => if new.Outlasts p then new else p
  | none => new

end Punishment

/-- The punishment, unless it is over at the second `now`. -/
def unexpired (now : Seconds) (p : Option Punishment) : Option Punishment :=
  p.filter fun p => !decide (p.ExpiredAt now)

end Moderation
