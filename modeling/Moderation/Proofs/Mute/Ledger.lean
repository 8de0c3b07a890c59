import Mathlib.Data.List.Basic
import Moderation.Mute.Inquiry
/-!
# Answers to inquiries

What each operation on the ledger does to an inquiry. `inquiries_completeAll` is about a store that
answers at once: afterwards every inquiry has the answer it had, or the store's.
-/

namespace Moderation.Mute

/-- The inquiry with the store's answer, if it had none. -/
def Inquiry.answered (store : Visitor → Option Punishment) (i : Inquiry) : Inquiry :=
  { i with answer := some (i.answer.getD (store i.key)) }

namespace Ledger

variable {l : Ledger} {q : InquiryId} {key : Visitor} {store : Visitor → Option Punishment}

theorem answer?_of_getElem? {i : Inquiry} (h : l.inquiries[q]? = some i) : l.answer? q = i.answer := by
  rw [answer?, h]
  rfl

theorem getElem?_start (l : Ledger) (key : Visitor) (purpose : Purpose) (q : InquiryId) :
    (l.start key purpose).2.inquiries[q]? = if q = l.size then some { key, purpose } else l.inquiries[q]? :=
  Array.getElem?_push

theorem inquiries_start (l : Ledger) (key : Visitor) (purpose : Purpose) :
    (l.start key purpose).2.inquiries[(l.start key purpose).1]? = some { key, purpose } :=
  Array.getElem?_push_size

theorem inquiries_complete (l : Ledger) (q : InquiryId) (v : Option Punishment) (q' : InquiryId) :
    (l.complete q v).inquiries[q']? =
      if q = q' then (l.inquiries[q']?).map fun i => { i with answer := some (i.answer.getD v) }
      else l.inquiries[q']? := by
  rw [complete, Array.getElem?_modify]

/-- The inquiry was made and has no answer yet. -/
def Awaits (l : Ledger) (q : InquiryId) : Prop := ∃ i ∈ l.inquiries[q]?, i.answer = none

instance (l : Ledger) (q : InquiryId) : Decidable (l.Awaits q) :=
  inferInstanceAs (Decidable (∃ i ∈ l.inquiries[q]?, i.answer = none))

/-- An inquiry that is made has no answer yet. -/
theorem answer?_start (l : Ledger) (key : Visitor) (purpose : Purpose) (q : InquiryId) :
    (l.start key purpose).2.answer? q = l.answer? q := by
  simp only [answer?, start, Array.getElem?_push, size]
  split
  · next hq =>
    subst hq
    simp
  · rfl

theorem answer?_complete (l : Ledger) (q : InquiryId) (v : Option Punishment) (q' : InquiryId) :
    (l.complete q v).answer? q' = if q = q' ∧ l.Awaits q then some v else l.answer? q' := by
  simp only [answer?, inquiries_complete]
  by_cases hq : q = q'
  · subst hq
    cases hi : l.inquiries[q]? with
    | none => simp [Awaits, hi]
    | some i => cases hanswer : i.answer <;> simp [Awaits, hi, hanswer]
  · simp [hq]

theorem Awaits.answer? {l : Ledger} {q : InquiryId} (h : l.Awaits q) : l.answer? q = none := by
  obtain ⟨i, hi, hanswer⟩ := h
  rw [answer?_of_getElem? hi, hanswer]

theorem answer?_size (l : Ledger) : l.answer? l.size = none := by
  rw [answer?, size, Array.getElem?_size]
  rfl

/-- An inquiry is made and answered. -/
theorem answer?_start_complete (l : Ledger) (key : Visitor) (purpose : Purpose) (v : Option Punishment)
    (q : InquiryId) : ((l.start key purpose).2.complete l.size v).answer? q =
      if q = l.size then some v else l.answer? q := by
  have hawaits : (l.start key purpose).2.Awaits l.size := ⟨_, l.inquiries_start key purpose, rfl⟩
  rw [answer?_complete, answer?_start]
  simp only [hawaits, and_true, eq_comm]

theorem mem_pending :
    (q, key) ∈ l.pending ↔ ∃ i, l.inquiries[q]? = some i ∧ i.answer = none ∧ i.key = key := by
  simp only [pending, List.mem_filterMap, Prod.exists, Option.ite_none_right_eq_some,
    Option.isNone_iff_eq_none, Option.some.injEq, Prod.mk.injEq, List.mk_mem_zipIdx_iff_getElem?,
    Array.getElem?_toList]
  constructor
  · rintro ⟨i, _, hi, ha, rfl, rfl⟩
    exact ⟨i, hi, ha, rfl⟩
  · rintro ⟨i, hi, ha, rfl⟩
    exact ⟨i, q, hi, ha, rfl, rfl⟩

/-- An answer that is written in for the visitor that the inquiry is about. -/
theorem inquiries_complete_store (h : ∀ i, l.inquiries[q]? = some i → i.key = key) (q' : InquiryId) :
    (l.complete q (store key)).inquiries[q']? =
      (l.inquiries[q']?).map fun i => if q' = q then i.answered store else i := by
  rw [inquiries_complete]
  by_cases hq : q' = q
  · subst hq
    cases hi : l.inquiries[q']? with
    | none => simp
    | some i => simp [Inquiry.answered, h i hi]
  · simp [hq, Ne.symm hq]

theorem inquiries_foldl_complete (ps : List (InquiryId × Visitor)) {l : Ledger}
    (h : ∀ p ∈ ps, ∀ i, l.inquiries[p.1]? = some i → i.key = p.2) (q : InquiryId) :
    (ps.foldl (fun l p => l.complete p.1 (store p.2)) l).inquiries[q]? =
      (l.inquiries[q]?).map fun i => if q ∈ ps.map Prod.fst then i.answered store else i := by
  induction ps generalizing l with
  | nil => simp
  | cons p ps ih =>
    have hp (q : InquiryId) : (l.complete p.1 (store p.2)).inquiries[q]? =
        (l.inquiries[q]?).map fun i => if q = p.1 then i.answered store else i :=
      inquiries_complete_store (h p List.mem_cons_self) q
    rw [List.foldl_cons, ih, hp]
    · rw [Option.map_map]
      congr 1
      funext i
      simp only [Function.comp, List.map_cons, List.mem_cons]
      by_cases hq : q = p.1 <;> by_cases hps : q ∈ ps.map Prod.fst <;> simp [hq, hps, Inquiry.answered]
    · intro p' hp' i hi
      rw [hp, Option.map_eq_some_iff] at hi
      obtain ⟨j, hj, rfl⟩ := hi
      have hkey := h p' (List.mem_cons_of_mem _ hp') j hj
      split <;> exact hkey

/-- When the store has answered, every inquiry has its answer. -/
theorem inquiries_completeAll (store : Visitor → Option Punishment) (l : Ledger) (q : InquiryId) :
    (l.completeFirst store l.pending.length).inquiries[q]? =
      (l.inquiries[q]?).map (Inquiry.answered store) := by
  rw [completeFirst, List.take_length, inquiries_foldl_complete]
  · cases hi : l.inquiries[q]? with
    | none => rfl
    | some i =>
      by_cases hq : q ∈ l.pending.map Prod.fst
      · simp [hq]
      -- An inquiry that is not pending has its answer, which is kept.
      · have ha : i.answer.isSome := by
          refine Option.isSome_iff_ne_none.2 fun ha => hq ?_
          exact List.mem_map.2 ⟨(q, i.key), mem_pending.2 ⟨i, hi, ha, rfl⟩, rfl⟩
        obtain ⟨v, hv⟩ := Option.isSome_iff_exists.1 ha
        simp only [hq, if_false, Option.map_some, Inquiry.answered, hv, Option.getD_some]
        rw [← hv]
  · intro p hp i hi
    obtain ⟨j, hj, -, hkey⟩ := mem_pending.1 hp
    rw [hi, Option.some.injEq] at hj
    exact hj ▸ hkey

theorem answer?_completeAll {i : Inquiry} (h : l.inquiries[q]? = some i) :
    (l.completeFirst store l.pending.length).answer? q = some (i.answer.getD (store i.key)) := by
  refine answer?_of_getElem? (i := i.answered store) ?_
  rw [inquiries_completeAll, h]
  rfl

end Ledger

end Moderation.Mute
