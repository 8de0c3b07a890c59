import Moderation.Identity.Uuid
/-!
# Rosters

The players who are online.
-/

namespace Moderation.Mute

structure Roster where
  users : List Uuid := []
  distinct : users.Nodup := by simp

namespace Roster

def isOnline (r : Roster) (user : Uuid) : Bool := r.users.contains user

def count (r : Roster) : Nat := r.users.length

def disconnect (r : Roster) (user : Uuid) : Roster where
  users := r.users.filter fun u => !decide (u = user)
  distinct := r.distinct.sublist List.filter_sublist

def connect (r : Roster) (user : Uuid) : Roster :=
  if h : user ∈ r.users then r
  else
    { users := user :: r.users
      distinct := List.nodup_cons.2 ⟨h, r.distinct⟩ }

def set (r : Roster) (user : Uuid) (online : Bool) : Roster :=
  if online then r.connect user else r.disconnect user

end Roster

end Moderation.Mute
