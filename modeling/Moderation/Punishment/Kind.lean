/-!
# Kinds of punishment and how they are announced

Both are enumerations whose members have a number, their ordinal, by which messages name them.
-/

namespace Moderation

inductive Kind where
  | ban
  | mute
  | warn
  | kick
deriving DecidableEq, Repr

namespace Kind

def all : List Kind := [ban, mute, warn, kick]

def ordinal : Kind → UInt8
  | ban => 0
  | mute => 1
  | warn => 2
  | kick => 3

def ofOrdinal? (n : UInt8) : Option Kind := all.find? fun k => k.ordinal = n

def name : Kind → String
  | ban => "Ban"
  | mute => "Mute"
  | warn => "Warn"
  | kick => "Kick"

instance : ToString Kind where
  toString
    | ban => "ban"
    | mute => "mute"
    | warn => "warn"
    | kick => "kick"

theorem ofOrdinal?_ordinal (k : Kind) : ofOrdinal? k.ordinal = some k := by
  cases k <;> decide

theorem ofOrdinal?_eq_some_iff {n : UInt8} {k : Kind} : ofOrdinal? n = some k ↔ n = k.ordinal := by
  constructor
  · intro h
    have h : k.ordinal = n := by simpa using List.find?_some h
    exact h.symm
  · rintro rfl
    exact ofOrdinal?_ordinal k

end Kind

inductive Broadcasting where
  | normal
  | silent
  | none
deriving DecidableEq, Repr

namespace Broadcasting

def all : List Broadcasting := [normal, silent, none]

def ordinal : Broadcasting → UInt8
  | normal => 0
  | silent => 1
  | none => 2

def ofOrdinal? (n : UInt8) : Option Broadcasting := all.find? fun b => b.ordinal = n

def name : Broadcasting → String
  | normal => "Normal"
  | silent => "Silent"
  | none => "None"

theorem ofOrdinal?_ordinal (b : Broadcasting) : ofOrdinal? b.ordinal = some b := by
  cases b <;> decide

theorem ofOrdinal?_eq_some_iff {n : UInt8} {b : Broadcasting} :
    ofOrdinal? n = some b ↔ n = b.ordinal := by
  constructor
  · intro h
    have h : b.ordinal = n := by simpa using List.find?_some h
    exact h.symm
  · rintro rfl
    exact ofOrdinal?_ordinal b

end Broadcasting

end Moderation
