import Moderation.Json.Record
/-!
# Fields of records

What a record says of a field is the member of that name if it is an object, and the element in that place if it is an
array. `given?_fields?` says that of all fields that are taken from a record. A field that it says nothing of has its default
(`Filled`).
-/

namespace Moderation.Json

/-- What the record with fields of those names says of one of them. -/
def at? (names : List String) (name : String) : Json → Option Json
  | object members => members.lookup name
  | array elems => elems[names.idxOf name]?
  | _ => none

namespace Field

def given? : Field → Option Json
  | given v => some v
  | missing | cut => none

end Field

/-- What was read of the value, or the default where there is none. -/
def Filled {α : Type} (read : Json → Option α) (d : α) : Option Json → α → Prop
  | some v, a => read v = some a
  | none, a => a = d

theorem Field.filled_of_default {α : Type} {d a : α} {read : Json → Option α} {f : Field}
    (h : f.default d read = some a) : Filled read d f.given? a := by
  cases f with
  | given v => exact h
  | missing | cut => exact (Option.some.inj h).symm

/-- A part of a record that is filled from a larger one, if each is read off it as a part should be. -/
theorem Filled.part {α β : Type} {read : Json → Option α} {d a : α} {v? : Option Json} (h : Filled read d v? a)
    {readPart : Json → Option β} {part : α → β} {at? : Json → Option Json}
    (hpart : ∀ v a, read v = some a → Filled readPart (part d) (at? v) (part a)) :
    Filled readPart (part d) (v?.bind at?) (part a) := by
  cases v? with
  | none => exact congrArg part h
  | some v => exact hpart v a h

theorem lookup_eq_head?_filter (members : List (String × Json)) (name : String) :
    members.lookup name = (members.filter fun m => m.1 == name).head?.map Prod.snd := by
  induction members with
  | nil => rfl
  | cons m members ih =>
    obtain ⟨key, v⟩ := m
    rw [List.lookup_cons]
    by_cases hname : name = key
    · subst hname
      rw [beq_self_eq_true, List.filter_cons_of_pos (by simp)]
      rfl
    · rw [beq_false_of_ne hname, List.filter_cons_of_neg (by simpa using Ne.symm hname)]
      exact ih

theorem given?_mapM {names : List String} {member : String → Option Field} {value : String → Option Json}
    (hmember : ∀ name f, member name = some f → f.given? = value name) {fs : List Field}
    (h : names.mapM member = some fs) : fs.map Field.given? = names.map value := by
  induction names generalizing fs with
  | nil =>
    cases h
    rfl
  | cons name names ih =>
    rw [List.mapM_cons] at h
    obtain ⟨f, hf, h⟩ := Option.bind_eq_some_iff.1 h
    obtain ⟨rest, hrest, h⟩ := Option.bind_eq_some_iff.1 h
    cases h
    rw [List.map_cons, List.map_cons, hmember name f hf, ih hrest]

theorem given?_elems {names : List String} (hnames : names.Nodup) {elems : List Json} (h : elems.length ≤ names.length) :
    (elems.map Field.given ++ List.replicate (names.length - elems.length) Field.cut).map Field.given? =
      names.map fun name => elems[names.idxOf name]? := by
  apply List.ext_getElem
  · simp only [List.length_map, List.length_append, List.length_replicate]
    omega
  · intro i _ hi
    rw [List.length_map] at hi
    simp only [List.getElem_map, hnames.idxOf_getElem i hi]
    by_cases hlt : i < elems.length
    · rw [List.getElem_append_left (by simpa using hlt), List.getElem?_eq_getElem hlt, List.getElem_map]
      rfl
    · rw [List.getElem_append_right (by simpa using hlt), List.getElem?_eq_none (Nat.le_of_not_lt hlt),
        List.getElem_replicate]
      rfl

/-- The fields that are taken from a record are what it says of them. -/
theorem given?_fields? {names : List String} (hnames : names.Nodup) {v : Json} {fs : List Field}
    (h : v.fields? names = some fs) : fs.map Field.given? = names.map (v.at? names) := by
  cases v with
  | object members =>
    refine given?_mapM (fun name f hf => ?_) h
    rw [at?, lookup_eq_head?_filter]
    split at hf
    · next hnone =>
      cases hf
      rw [hnone]
      rfl
    · next hone =>
      cases hf
      rw [hone]
      rfl
    · cases hf
  | array elems =>
    simp only [fields?] at h
    split at h
    · cases h
    · next hle =>
      cases h
      exact given?_elems hnames (Nat.le_of_not_lt hle)
  | _ => cases h

/-- What is made of the fields of a record is made of what it says of them. -/
theorem exists_given {α : Type} {names : List String} (hnames : names.Nodup) {v : Json} {make : List Field → Option α}
    {a : α} (h : (v.fields? names).bind make = some a) :
    ∃ fs, fs.map Field.given? = names.map (v.at? names) ∧ make fs = some a := by
  obtain ⟨fs, hfs, hmake⟩ := Option.bind_eq_some_iff.1 h
  exact ⟨fs, given?_fields? hnames hfs, hmake⟩

end Moderation.Json
