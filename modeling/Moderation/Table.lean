/-!
# Tables keyed by distinct keys

A `Table κ α` is a finite map whose rows keep the order in which their keys first appeared. That no
key occurs twice is part of the type, so every operation preserves it. Main statements: `get?_insert`,
`get?_erase`, `get?_mapRows` and `get?_filter` say what each operation does to the look-up.
-/

namespace Moderation

/-- A finite map in order of first insertion. -/
structure Table (κ α : Type) where
  rows : List (κ × α) := []
  distinct : (rows.map Prod.fst).Nodup := by simp

namespace Table

variable {κ α β : Type}

instance : EmptyCollection (Table κ α) where
  emptyCollection := { rows := [] }

instance : Inhabited (Table κ α) where
  default := ∅

def keys (t : Table κ α) : List κ := t.rows.map Prod.fst

def values (t : Table κ α) : List α := t.rows.map Prod.snd

def size (t : Table κ α) : Nat := t.rows.length

def isEmpty (t : Table κ α) : Bool := t.rows.isEmpty

def mapRows (f : κ → α → β) (t : Table κ α) : Table κ β where
  rows := t.rows.map fun r => (r.1, f r.1 r.2)
  distinct := by
    have := t.distinct
    rw [List.map_map]
    exact this

def filter (p : κ → α → Bool) (t : Table κ α) : Table κ α where
  rows := t.rows.filter fun r => p r.1 r.2
  distinct := t.distinct.sublist (List.Sublist.map _ List.filter_sublist)

instance : Membership κ (Table κ α) where
  mem t k := k ∈ t.keys

theorem mem_def {t : Table κ α} {k : κ} : k ∈ t ↔ k ∈ t.keys := Iff.rfl

@[simp] theorem keys_mapRows (f : κ → α → β) (t : Table κ α) : (t.mapRows f).keys = t.keys := by
  simp only [keys, mapRows, List.map_map]
  rfl

theorem eq_of_rows {t u : Table κ α} (h : t.rows = u.rows) : t = u := by
  obtain ⟨rows, distinct⟩ := t
  obtain rfl : rows = u.rows := h
  rfl

@[simp] theorem size_mapRows (f : κ → α → β) (t : Table κ α) : (t.mapRows f).size = t.size := by
  simp only [size, mapRows, List.length_map]

theorem mapRows_mapRows {γ : Type} (f : κ → α → β) (g : κ → β → γ) (t : Table κ α) :
    (t.mapRows f).mapRows g = t.mapRows fun k a => g k (f k a) := by
  apply eq_of_rows
  simp only [mapRows, List.map_map]
  rfl

theorem mapRows_filter {f : κ → α → β} {p : κ → α → Bool} {q : κ → β → Bool}
    (h : ∀ k a, q k (f k a) = p k a) (t : Table κ α) : (t.filter p).mapRows f = (t.mapRows f).filter q := by
  apply eq_of_rows
  simp only [mapRows, filter, List.filter_map]
  congr 1
  apply List.filter_congr
  intro r _
  exact (h r.1 r.2).symm

/-- Changes each value in turn, handing a state from one row to the next. -/
def scanRows {σ : Type} (f : κ → α → σ → β × σ) : List (κ × α) → σ → List (κ × β) × σ
  | [], s => ([], s)
  | (k, a) :: rest, s =>
    let (b, s) := f k a s
    let (rest, s) := scanRows f rest s
    ((k, b) :: rest, s)

theorem map_fst_scanRows {σ : Type} (f : κ → α → σ → β × σ) (rows : List (κ × α)) (s : σ) :
    (scanRows f rows s).1.map Prod.fst = rows.map Prod.fst := by
  induction rows generalizing s with
  | nil => rfl
  | cons r rows ih => simp [scanRows, ih]

theorem scanRows_congr {σ : Type} {f g : κ → α → σ → β × σ} {rows : List (κ × α)}
    (h : ∀ r ∈ rows, ∀ s, f r.1 r.2 s = g r.1 r.2 s) (s : σ) : scanRows f rows s = scanRows g rows s := by
  induction rows generalizing s with
  | nil => rfl
  | cons r rows ih =>
    simp only [scanRows, h r (by simp), ih fun r hr => h r (List.mem_cons_of_mem _ hr)]

/-- Changes each value in turn, keys and order kept, handing a state along. -/
def scan {σ : Type} (f : κ → α → σ → β × σ) (t : Table κ α) (s : σ) : Table κ β × σ :=
  ({ rows := (scanRows f t.rows s).1
     distinct := by rw [map_fst_scanRows]; exact t.distinct }, (scanRows f t.rows s).2)

@[simp] theorem keys_scan {σ : Type} (f : κ → α → σ → β × σ) (t : Table κ α) (s : σ) :
    (t.scan f s).1.keys = t.keys := map_fst_scanRows f t.rows s

variable [DecidableEq κ]

def get? (t : Table κ α) (k : κ) : Option α :=
  (t.rows.find? fun r => r.1 = k).map Prod.snd

def contains (t : Table κ α) (k : κ) : Bool := t.rows.any fun r => r.1 = k

instance (k : κ) (t : Table κ α) : Decidable (k ∈ t) :=
  inferInstanceAs (Decidable (k ∈ t.keys))

/-- Changes the value under `k`, if there is one. -/
def modify (t : Table κ α) (k : κ) (f : α → α) : Table κ α :=
  t.mapRows fun k' a => if k' = k then f a else a

def erase (t : Table κ α) (k : κ) : Table κ α :=
  t.filter fun k' _ => !decide (k' = k)

/-- Sets the value under `k`: in place if the key is there, at the end otherwise. -/
def insert (t : Table κ α) (k : κ) (a : α) : Table κ α :=
  if h : k ∈ t.rows.map Prod.fst then t.modify k fun _ => a
  else
    { rows := t.rows ++ [(k, a)]
      distinct := by
        rw [List.map_append, List.nodup_append]
        refine ⟨t.distinct, by simp, ?_⟩
        intro x hx y hy
        simp only [List.map_cons, List.map_nil, List.mem_singleton] at hy
        subst hy
        rintro rfl
        exact h hx }

/-- The table of the pairs, a later pair replacing an earlier one of the same key. -/
def ofList (l : List (κ × α)) : Table κ α :=
  l.foldl (fun t r => t.insert r.1 r.2) (∅ : Table κ α)

/-! ## What each operation does to the look-up -/

theorem get?_eq_some_iff {t : Table κ α} {k : κ} {a : α} :
    t.get? k = some a ↔ (k, a) ∈ t.rows := by
  obtain ⟨rows, distinct⟩ := t
  simp only [get?]
  induction rows with
  | nil => simp
  | cons r rows ih =>
    simp only [List.map_cons, List.nodup_cons] at distinct
    rw [List.find?_cons]
    by_cases h : r.1 = k
    · subst h
      have hr : ∀ b, (r.1, b) ∉ rows := fun b hb =>
        distinct.1 (List.mem_map.2 ⟨_, hb, rfl⟩)
      simp only [decide_true, Option.map_some, Option.some.injEq, List.mem_cons, hr, or_false]
      constructor
      · rintro rfl; rfl
      · intro h; rw [← h]
    · have hne : ¬ ((k, a) = r) := fun e => h (by rw [← e])
      simp only [h, decide_false, ih distinct.2, List.mem_cons, hne, false_or]

theorem get?_eq_none_iff {t : Table κ α} {k : κ} : t.get? k = none ↔ k ∉ t := by
  simp only [get?, mem_def, keys, Option.map_eq_none_iff, List.find?_eq_none, List.mem_map,
    decide_eq_true_eq, not_exists, not_and]

@[simp] theorem get?_empty (k : κ) : (∅ : Table κ α).get? k = none := rfl

@[simp] theorem get?_mapRows (f : κ → α → β) (t : Table κ α) (k : κ) :
    (t.mapRows f).get? k = (t.get? k).map (f k) := by
  obtain ⟨rows, distinct⟩ := t
  simp only [get?, mapRows]
  clear distinct
  induction rows with
  | nil => rfl
  | cons r rows ih =>
    rw [List.map_cons, List.find?_cons, List.find?_cons]
    by_cases h : r.1 = k
    · simp [h]
    · simp only [h, decide_false]
      exact ih

/-- A value is changed with the state that the rows before it left. -/
theorem exists_get?_scan {σ : Type} (f : κ → α → σ → β × σ) (t : Table κ α) (s : σ) (k : κ) :
    ∃ s', (t.scan f s).1.get? k = (t.get? k).map fun a => (f k a s').1 := by
  obtain ⟨rows, distinct⟩ := t
  simp only [get?, scan]
  clear distinct
  induction rows generalizing s with
  | nil => exact ⟨s, rfl⟩
  | cons r rows ih =>
    simp only [scanRows, List.find?_cons]
    by_cases h : r.1 = k
    · exact ⟨s, by simp [h]⟩
    · simp only [h, decide_false]
      exact ih _

theorem mapRows_congr {t : Table κ α} {f g : κ → α → β} (h : ∀ k a, t.get? k = some a → f k a = g k a) :
    t.mapRows f = t.mapRows g := by
  obtain ⟨rows, distinct⟩ := t
  simp only [mapRows, mk.injEq]
  apply List.map_congr_left
  intro r hr
  rw [h r.1 r.2 (get?_eq_some_iff.2 hr)]

theorem scan_congr {σ : Type} {t : Table κ α} {f g : κ → α → σ → β × σ}
    (h : ∀ k a, t.get? k = some a → ∀ s, f k a s = g k a s) (s : σ) : t.scan f s = t.scan g s := by
  have hrows : scanRows f t.rows s = scanRows g t.rows s :=
    scanRows_congr (fun r hr => h r.1 r.2 (get?_eq_some_iff.2 hr)) s
  simp only [scan, hrows]

theorem mapRows_eq_self {t : Table κ α} {f : κ → α → α} (h : ∀ k a, t.get? k = some a → f k a = a) :
    t.mapRows f = t := by
  refine (mapRows_congr h).trans (eq_of_rows ?_)
  exact List.map_id _

theorem scan_eq_self {σ : Type} {t : Table κ α} {f : κ → α → σ → α × σ}
    (h : ∀ k a, t.get? k = some a → ∀ s, f k a s = (a, s)) (s : σ) : t.scan f s = (t, s) := by
  have hrows (rows : List (κ × α)) : scanRows (fun _ a s => (a, s)) rows s = (rows, s) := by
    induction rows with
    | nil => rfl
    | cons r rows ih => simp only [scanRows, ih]
  obtain ⟨hsame, hstate⟩ := Prod.mk.inj (hrows t.rows)
  rw [scan_congr h]
  exact Prod.ext (eq_of_rows hsame) hstate

/-- What is counted among the values depends on what is said of those that are there. -/
theorem countP_values_congr {t : Table κ α} {p q : α → Bool} (h : ∀ k a, t.get? k = some a → p a = q a) :
    t.values.countP p = t.values.countP q := by
  apply List.countP_congr
  intro a ha
  obtain ⟨r, hr, rfl⟩ := List.mem_map.1 ha
  rw [h r.1 r.2 (get?_eq_some_iff.2 hr)]

theorem mem_of_get?_eq_some {t : Table κ α} {k : κ} {a : α} (h : t.get? k = some a) : k ∈ t := by
  have := get?_eq_none_iff (t := t) (k := k)
  grind

theorem get?_modify (t : Table κ α) (k : κ) (f : α → α) (k' : κ) :
    (t.modify k f).get? k' = if k' = k then (t.get? k').map f else t.get? k' := by
  rw [modify, get?_mapRows]
  split <;> simp

theorem get?_filter (p : κ → α → Bool) (t : Table κ α) (k : κ) :
    (t.filter p).get? k = (t.get? k).filter (p k) := by
  ext a
  rw [get?_eq_some_iff, Option.filter_eq_some_iff, get?_eq_some_iff]
  simp [filter]

theorem get?_erase (t : Table κ α) (k k' : κ) :
    (t.erase k).get? k' = if k' = k then none else t.get? k' := by
  rw [erase, get?_filter]
  by_cases h : k' = k
  · subst h
    cases t.get? k' <;> simp
  · cases t.get? k' <;> simp [h]

theorem get?_insert (t : Table κ α) (k : κ) (a : α) (k' : κ) :
    (t.insert k a).get? k' = if k' = k then some a else t.get? k' := by
  unfold insert
  split
  · rename_i h
    rw [get?_modify]
    split
    · subst k'
      have : t.get? k ≠ none := fun e => get?_eq_none_iff.1 e h
      cases ht : t.get? k <;> simp_all
    · rfl
  · rename_i h
    ext b
    have hk : ∀ c, (k, c) ∉ t.rows := fun c hc => h (List.mem_map.2 ⟨_, hc, rfl⟩)
    rw [get?_eq_some_iff]
    by_cases e : k' = k
    · subst e
      simp [hk, eq_comm]
    · simp [e, get?_eq_some_iff]

theorem mem_insert {t : Table κ α} {k k' : κ} {a : α} : k' ∈ t.insert k a ↔ k' = k ∨ k' ∈ t := by
  have h₁ := get?_eq_none_iff (t := t.insert k a) (k := k')
  have h₂ := get?_eq_none_iff (t := t) (k := k')
  rw [get?_insert] at h₁
  by_cases e : k' = k <;> grind

/-! ## What is done to one value among others -/

/-- To change all values and then that of one key is to change them in the other order. -/
theorem mapRows_insert (f : κ → α → β) (t : Table κ α) (k : κ) (a : α) :
    (t.insert k a).mapRows f = (t.mapRows f).insert k (f k a) := by
  have hkeys : (t.mapRows f).rows.map Prod.fst = t.rows.map Prod.fst := keys_mapRows f t
  apply eq_of_rows
  unfold insert
  by_cases h : k ∈ t.rows.map Prod.fst
  · rw [dif_pos h, dif_pos (hkeys ▸ h)]
    simp only [modify, mapRows, List.map_map]
    apply List.map_congr_left
    intro r hr
    by_cases hk : r.1 = k
    · subst hk
      simp
    · simp [hk]
  · rw [dif_neg h, dif_neg (hkeys ▸ h)]
    simp only [mapRows, List.map_append, List.map_cons, List.map_nil]

/-- Nothing changes when a key is given the value that it has. -/
theorem insert_of_get? {t : Table κ α} {k : κ} {a : α} (h : t.get? k = some a) : t.insert k a = t := by
  have hmem : k ∈ t.rows.map Prod.fst := mem_of_get?_eq_some h
  apply eq_of_rows
  unfold insert
  rw [dif_pos hmem]
  refine (List.map_congr_left fun r hr => ?_).trans (List.map_id _)
  by_cases hk : r.1 = k
  · subst hk
    -- A key has but one value.
    have hvalue := h.symm.trans (get?_eq_some_iff.2 hr)
    simp only [Option.some.injEq] at hvalue
    simp [hvalue]
  · simp [hk]

theorem keys_insert_of_mem {t : Table κ α} {k : κ} (h : k ∈ t) (a : α) : (t.insert k a).keys = t.keys := by
  have hmem : k ∈ t.rows.map Prod.fst := h
  unfold insert
  rw [dif_pos hmem]
  exact keys_mapRows _ t

theorem contains_iff {t : Table κ α} {k : κ} : t.contains k = true ↔ k ∈ t := by
  simp [contains, mem_def, keys]

/-! ## What is removed -/

section Filter

variable {t : Table κ α} {p : κ → α → Bool} {gone : κ → Bool} (h : ∀ k a, t.get? k = some a → gone k = !p k a)

include h

/-- As many rows are removed as there are keys whose rows are to be removed. -/
theorem size_sub_size_filter : t.size - (t.filter p).size = t.keys.countP gone := by
  have hgone : t.keys.countP gone = t.rows.countP fun r => !p r.1 r.2 := by
    rw [keys, List.countP_map]
    apply List.countP_congr
    intro r hr
    rw [Function.comp, h r.1 r.2 (get?_eq_some_iff.2 hr)]
  have hall := List.length_eq_countP_add_countP (fun r => p r.1 r.2) (l := t.rows)
  simp only [Bool.not_eq_true, Bool.decide_eq_false] at hall
  rw [hgone, size, hall, size, filter, ← List.countP_eq_length_filter]
  omega

/-- The other rows stay as they are. -/
theorem get?_filter_of_gone (k : κ) : (t.filter p).get? k = if gone k then none else t.get? k := by
  rw [get?_filter]
  cases ha : t.get? k with
  | none => simp
  | some a => cases hp : p k a <;> simp [h k a ha, hp, Option.filter_some]

end Filter

end Table

end Moderation
