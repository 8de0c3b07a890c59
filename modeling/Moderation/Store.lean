import Moderation.Sync.Site
import Moderation.Table
/-!
# Punishment stores

The punishments on record, by number. Any punishment can be looked up by its name, and for a visitor
the store knows the mute that applies: of all that are not over and cover the visitor, one that no
other outlasts.
-/

namespace Moderation

structure Store where
  punishments : Table PunishmentId Punishment := ∅
  numbered : ∀ id p, punishments.get? id = some p → p.id = id := by
    intro _ _ h
    exact absurd h (by simp)

/-- Of several punishments, the first that none of the others outlasts. -/
def Punishment.latest (ps : List Punishment) : Option Punishment :=
  ps.foldl (fun held p => some (Punishment.later held p)) none

namespace Store

def get? (s : Store) (id : PunishmentId) : Option Punishment := s.punishments.get? id

def fetch (s : Store) (ref : PunishmentRef) : Option Punishment :=
  (s.get? ref.id).filter fun p => p.kind = ref.kind

/-- Puts a punishment on record, in the place of one with the same number. -/
def insert (s : Store) (p : Punishment) : Store where
  punishments := s.punishments.insert p.id p
  numbered := by
    intro id q h
    rw [Table.get?_insert] at h
    split at h
    · rename_i hid
      rw [← Option.some.inj h, hid]
    · exact s.numbered id q h

def erase (s : Store) (id : PunishmentId) : Store where
  punishments := s.punishments.erase id
  numbered := by
    intro id' q h
    rw [Table.get?_erase] at h
    split at h
    · exact absurd h (by simp)
    · exact s.numbered id' q h

/-- The punishment is a mute that holds for the visitor at the second `now`. -/
def Applies (now : Seconds) (key : Visitor) (p : Punishment) : Prop :=
  p.kind = .mute ∧ ¬p.ExpiredAt now ∧ p.victim.Covers key

instance (now : Seconds) (key : Visitor) (p : Punishment) : Decidable (Applies now key p) :=
  inferInstanceAs (Decidable (_ ∧ _))

/-- The mute that applies to a visitor at the second `now`. -/
def applicableMute (s : Store) (now : Seconds) (key : Visitor) : Option Punishment :=
  Punishment.latest (s.punishments.values.filter fun p => Applies now key p)

def selector {σ : Type} (s : Store) : Selector σ := fun ref st => (.ok (s.fetch ref), st)

end Store

end Moderation
