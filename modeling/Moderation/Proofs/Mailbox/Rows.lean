import Mathlib.Data.List.Permutation
import Moderation.Medium.Mailbox
/-!
# The rows of a mailbox

Two letters may say the same at the same time, so a letter is told from all others by its place: the
number of letters that were put into the mailbox before it. A row is a letter with its place.
`rowsIn_sorted` and `mem_rowsIn` say what a reading gives: every row of its window, by time, and of
one time in the order of insertion.
-/

namespace Moderation

/-- A letter with its place. -/
structure Row where
  /-- How many letters were put there before it. -/
  place : Nat
  letter : Letter
deriving DecidableEq

namespace Row

def time (r : Row) : Timestamp := r.letter.time

/-- The row comes before another one: it is older, or as old and was put there earlier. -/
def Before (r s : Row) : Prop := r.time < s.time ∨ r.time = s.time ∧ r.place < s.place

instance (r s : Row) : Decidable (r.Before s) := inferInstanceAs (Decidable (_ ∨ _))

theorem Before.irrefl (r : Row) : ¬r.Before r := by
  rintro (h | ⟨-, h⟩)
  · exact UInt64.lt_irrefl _ h
  · exact Nat.lt_irrefl _ h

end Row

namespace Mailbox

/-- The rows, in the order in which they were put there. -/
def rows (m : Mailbox) : List Row := m.letters.zipIdx.map fun l => ⟨l.2, l.1⟩

/-- The mailbox when it had only its first `n` letters. -/
def first (n : Nat) (m : Mailbox) : Mailbox := { m with letters := m.letters.take n }

/-- The rows of a window, as a reading gives them. -/
def rowsIn (m : Mailbox) (w : Window) : List Row :=
  (m.rows.filter fun r => w.Holds r.time).mergeSort fun r s => r.time ≤ s.time

/-! ## Rows and letters -/

theorem mem_rows {m : Mailbox} {r : Row} : r ∈ m.rows ↔ m.letters[r.place]? = some r.letter := by
  obtain ⟨place, letter⟩ := r
  simp only [rows, List.mem_map, Row.mk.injEq, Prod.exists]
  constructor
  · rintro ⟨l, i, h, rfl, rfl⟩
    exact List.mk_mem_zipIdx_iff_getElem?.1 h
  · exact fun h => ⟨letter, place, List.mk_mem_zipIdx_iff_getElem?.2 h, rfl, rfl⟩

/-- At a place there is one row. -/
theorem eq_of_place {m : Mailbox} {r s : Row} (hr : r ∈ m.rows) (hs : s ∈ m.rows)
    (h : r.place = s.place) : r = s := by
  obtain ⟨place, letter⟩ := r
  obtain ⟨place', letter'⟩ := s
  obtain rfl : place = place' := h
  have hletter : some letter = some letter' := (mem_rows.1 hr).symm.trans (mem_rows.1 hs)
  rw [Option.some.inj hletter]

theorem nodup_places {m : Mailbox} {rs : List Row} (h : rs.Nodup) (hrs : ∀ r ∈ rs, r ∈ m.rows) :
    (rs.map Row.place).Nodup :=
  h.map_on fun r hr s hs hplace => eq_of_place (hrs r hr) (hrs s hs) hplace

theorem mem_rows_first {m : Mailbox} {n : Nat} {r : Row} :
    r ∈ (m.first n).rows ↔ r ∈ m.rows ∧ r.place < n := by
  simp only [mem_rows, first, List.getElem?_take]
  split <;> simp_all

theorem first_length (m : Mailbox) : m.first m.letters.length = m := by
  simp only [first, List.take_length]

/-- The letters that come later do not change what the mailbox was. -/
theorem inWindow_first_mono {m m' : Mailbox} {n : Nat} (hn : n ≤ m.letters.length)
    (h : m.letters <+: m'.letters) (w : Window) :
    (m'.first n).inWindow w = (m.first n).inWindow w := by
  obtain ⟨t, ht⟩ := h
  simp only [inWindow, first, ← ht, List.take_append_of_le_length hn]

theorem pairwise_rows (m : Mailbox) : m.rows.Pairwise fun r s => r.place < s.place := by
  rw [rows, List.pairwise_map, ← List.pairwise_map (f := Prod.snd), List.zipIdx_map_snd]
  exact List.pairwise_lt_range'

theorem nodup_rows (m : Mailbox) : m.rows.Nodup :=
  (pairwise_rows m).imp fun {r s} h => by
    rintro rfl
    exact Nat.lt_irrefl _ h

/-- The rows with a reading's letters are the letters of the reading. -/
theorem map_letter_rowsIn (m : Mailbox) (w : Window) :
    (m.rowsIn w).map Row.letter = m.inWindow w := by
  have hrows : m.rows.map Row.letter = m.letters := by
    rw [rows, List.map_map]
    exact List.zipIdx_map_fst 0 m.letters
  rw [rowsIn, inWindow, List.map_mergeSort (s := fun a b => decide (a.time ≤ b.time))]
  · rw [← hrows, List.filter_map]
    rfl
  · intro a _ b _
    rfl

/-! ## What a reading gives -/

theorem mem_rowsIn {m : Mailbox} {w : Window} {r : Row} :
    r ∈ m.rowsIn w ↔ r ∈ m.rows ∧ w.Holds r.time := by
  simp only [rowsIn, List.mem_mergeSort, List.mem_filter, decide_eq_true_eq]

theorem nodup_rowsIn (m : Mailbox) (w : Window) : (m.rowsIn w).Nodup :=
  (List.mergeSort_perm _ _).nodup_iff.2 ((nodup_rows m).sublist List.filter_sublist)

private theorem timeLE_trans (a b c : Row) (h : decide (a.time ≤ b.time) = true)
    (h' : decide (b.time ≤ c.time) = true) : decide (a.time ≤ c.time) = true := by
  simp only [decide_eq_true_eq] at *
  exact UInt64.le_trans h h'

private theorem timeLE_total (a b : Row) :
    (decide (a.time ≤ b.time) || decide (b.time ≤ a.time)) = true := by
  simpa using UInt64.le_total a.time b.time

theorem pairwise_time_rowsIn (m : Mailbox) (w : Window) :
    (m.rowsIn w).Pairwise fun r s => r.time ≤ s.time :=
  (List.pairwise_mergeSort timeLE_trans timeLE_total _).imp fun h => by simpa using h

/-- The rows of one time are read in the order of insertion: the sort does not exchange them. -/
theorem filter_time_rowsIn (m : Mailbox) (w : Window) (t : Timestamp) :
    (m.rowsIn w).filter (fun r => r.time = t) =
      (m.rows.filter fun r => w.Holds r.time).filter fun r => r.time = t := by
  let l := m.rows.filter fun r => w.Holds r.time
  -- The rows of one time are in order among themselves, so the sort has them as a sublist; and it has no more.
  have hsame : (l.filter fun r => r.time = t).Pairwise fun r s => decide (r.time ≤ s.time) = true := by
    refine List.pairwise_of_forall_mem_list fun r hr s hs => ?_
    have hr' : r.time = t := by simpa using (List.mem_filter.1 hr).2
    have hs' : s.time = t := by simpa using (List.mem_filter.1 hs).2
    simp [hr', hs']
  have hsub : (l.filter fun r => r.time = t).Sublist ((m.rowsIn w).filter fun r => r.time = t) := by
    have := (List.sublist_mergeSort timeLE_trans timeLE_total hsame List.filter_sublist).filter
      fun r => decide (r.time = t)
    simp only [List.filter_filter, Bool.and_self] at this
    exact this
  exact (hsub.eq_of_length (((List.mergeSort_perm l _).filter _).length_eq.symm)).symm

/-- A reading is in order. -/
theorem rowsIn_sorted (m : Mailbox) (w : Window) : (m.rowsIn w).Pairwise Row.Before := by
  rw [List.pairwise_iff_forall_sublist]
  intro r s hrs
  have hle : r.time ≤ s.time :=
    List.pairwise_iff_forall_sublist.1 (pairwise_time_rowsIn m w) hrs
  rcases UInt64.lt_or_eq_of_le hle with hlt | heq
  · exact .inl hlt
  · refine .inr ⟨heq, ?_⟩
    -- Of one time, the two rows stand as they were put there.
    have h := hrs.filter fun q => decide (q.time = s.time)
    rw [filter_time_rowsIn] at h
    simp only [heq, decide_true, List.filter_cons_of_pos, List.filter_nil] at h
    exact List.pairwise_iff_forall_sublist.1 ((pairwise_rows m).filter _ |>.filter _) h

end Mailbox

end Moderation
