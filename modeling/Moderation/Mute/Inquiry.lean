import Moderation.Punishment.Basic
/-!
# Inquiries

A cache asks the store which mute applies to a visitor, and goes on before the answer is there. The
ledger holds every inquiry that was made; its answer is written in once, when the store has given it.
-/

namespace Moderation.Mute

inductive Purpose where
  | entry
  /-- For one caller only. -/
  | caller
deriving DecidableEq

structure Inquiry where
  key : Visitor
  purpose : Purpose
  answer : Option (Option Punishment) := none

abbrev InquiryId := Nat

structure Ledger where
  inquiries : Array Inquiry := #[]

namespace Ledger

def size (l : Ledger) : Nat := l.inquiries.size

def start (l : Ledger) (key : Visitor) (purpose : Purpose) : InquiryId × Ledger :=
  (l.size, { inquiries := l.inquiries.push { key, purpose } })

def answer? (l : Ledger) (q : InquiryId) : Option (Option Punishment) :=
  l.inquiries[q]?.bind Inquiry.answer

/-- Writes the answer to an inquiry in, unless there is one already. -/
def complete (l : Ledger) (q : InquiryId) (v : Option Punishment) : Ledger where
  inquiries := l.inquiries.modify q fun i => { i with answer := some (i.answer.getD v) }

/-- The inquiries without an answer, with the visitors that they are about. -/
def pending (l : Ledger) : List (InquiryId × Visitor) :=
  l.inquiries.toList.zipIdx.filterMap fun i => if i.1.answer.isNone then some (i.2, i.1.key) else none

/-- Writes in the answers that `store` gives to the first `n` inquiries without one. -/
def completeFirst (store : Visitor → Option Punishment) (n : Nat) (l : Ledger) : Ledger :=
  (l.pending.take n).foldl (fun l i => l.complete i.1 (store i.2)) l

end Ledger

inductive Waiting where
  /-- It wants the answer, unless that is over at the given second. -/
  | handle (inquiry : InquiryId) (second : Option Seconds)
  /-- It reads the value of an entry for a visitor, and may read again so many times if the value is
  over at the given second. -/
  | reading (inquiry : InquiryId) (key : Visitor) (entry : Nat) (second : Seconds) (again : Nat)
deriving DecidableEq

def Waiting.inquiry : Waiting → InquiryId
  | handle q _ => q
  | reading q _ _ _ _ => q

inductive Reply where
  | value (v : Option Punishment)
  | later (w : Waiting)
deriving DecidableEq

end Moderation.Mute
