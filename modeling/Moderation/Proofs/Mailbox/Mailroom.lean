import Moderation.Proofs.Mailbox.Recipient
/-!
# Mailrooms

A mailroom is a mailbox with a clock that anyone may move and with the nodes that read the mailbox and
put letters there. A node stamps a letter before it puts it there, and other steps can come between; where none
do, this is what the medium offers (`Mailroom.Whole`). `partitions_of_run` says that after any steps every
recipient's windows partition time, and that it was given the letters of its windows.
-/

namespace Moderation

/-- A mailbox, its clock and those who use it. -/
structure Mailroom where
  mailbox : Mailbox
  clock : Timestamp
  /-- The letters that have their time and are not in the mailbox yet. -/
  stamped : List Letter := []
  recipients : List Recipient

namespace Mailroom

inductive Step where
  /-- A letter with any time is put there. -/
  | put (letter : Letter)
  | move (c : ClockStep)
  /-- The mailbox stops to work, or works again. -/
  | fail (read write : Option StoreError)
  | stamp (payload : Bytes)
  /-- The `i`-th of the stamped letters is put there. -/
  | post (i : Nat)
  /-- A poll of the `b`-th recipient looks at the clock. -/
  | look (b : Nat)
  /-- A poll of the `b`-th recipient comes to the cursor, the `i`-th of those on their way. -/
  | claim (b i : Nat)
  /-- The `b`-th recipient reads the `i`-th of its windows. -/
  | read (b i : Nat)
deriving DecidableEq

/-- The mailroom after a letter was put there, if it could be. -/
def put (letter : Letter) (s : Mailroom) : Mailroom :=
  match s.mailbox.insert letter.time letter.payload with
  | .ok m => { s with mailbox := m }
  | .error _ => s

def onRecipient (b : Nat) (f : Recipient → Recipient) (s : Mailroom) : Mailroom :=
  { s with recipients := s.recipients.modify b f }

def step (s : Mailroom) : Step → Mailroom
  | .put letter => s.put letter
  | .move c => { s with clock := c.apply s.clock }
  | .fail read write =>
    { s with mailbox := { s.mailbox with readFailure := read, writeFailure := write } }
  | .stamp payload => { s with stamped := s.stamped ++ [⟨s.clock, payload⟩] }
  | .post i =>
    match s.stamped[i]? with
    | none => s
    | some letter => { s.put letter with stamped := s.stamped.eraseIdx i }
  | .look b => s.onRecipient b (Recipient.look s.clock)
  | .claim b i => s.onRecipient b (Recipient.claim i)
  | .read b i => s.onRecipient b (Recipient.read s.mailbox i)

def run (s : Mailroom) (steps : List Step) : Mailroom := steps.foldl step s

/-- A mailroom in which `n` nodes have not polled yet. -/
def opened (m : Mailbox) (clock : Timestamp) (n : Nat) : Mailroom :=
  { mailbox := m, clock, recipients := List.replicate n {} }

theorem run_nil (s : Mailroom) : s.run [] = s := rfl

theorem run_cons (s : Mailroom) (a : Step) (steps : List Step) :
    s.run (a :: steps) = (s.step a).run steps := rfl

theorem run_append (s : Mailroom) (steps more : List Step) :
    s.run (steps ++ more) = (s.run steps).run more := List.foldl_append

/-! ## What a step does to the mailbox and to a recipient -/

/-- Nobody takes a letter out of the mailbox. -/
theorem put_letters (s : Mailroom) (letter : Letter) :
    (s.put letter).mailbox.letters =
      s.mailbox.letters ++ if s.mailbox.writeFailure = none then [letter] else [] := by
  unfold put Mailbox.insert
  cases s.mailbox.writeFailure <;> simp

theorem letters_prefix_step (s : Mailroom) (a : Step) : s.mailbox.letters <+: (s.step a).mailbox.letters := by
  cases a with
  | put letter => exact put_letters s letter ▸ List.prefix_append _ _
  | post i =>
    simp only [step]
    split
    · exact List.prefix_rfl
    · exact put_letters s _ ▸ List.prefix_append _ _
  | _ => exact List.prefix_rfl

/-- What a step makes of the `b`-th recipient. -/
def stepOf (s : Mailroom) (b : Nat) : Step → Recipient → Recipient
  | .look b' => if b' = b then Recipient.look s.clock else id
  | .claim b' i => if b' = b then Recipient.claim i else id
  | .read b' i => if b' = b then Recipient.read s.mailbox i else id
  | _ => id

theorem recipients_step (s : Mailroom) (a : Step) (b : Nat) :
    (s.step a).recipients[b]? = s.recipients[b]?.map (s.stepOf b a) := by
  have hput (letter : Letter) : (s.put letter).recipients = s.recipients := by
    unfold put
    split <;> rfl
  cases a with
  | put letter => simp [step, stepOf, hput]
  | post i =>
    simp only [step, stepOf]
    split <;> simp [hput]
  | look | claim | read =>
    simp only [step, stepOf, onRecipient, List.getElem?_modify, Option.map_eq_map]
    split <;> simp
  | _ => simp [step, stepOf]

/-- To a recipient nothing happens but the three steps of its polls. -/
theorem stepOf_cases (s : Mailroom) (b : Nat) (a : Step) (r : Recipient) :
    s.stepOf b a r = r ∨ s.stepOf b a r = r.look s.clock ∨ (∃ i, s.stepOf b a r = r.claim i) ∨
      ∃ i, s.stepOf b a r = r.read s.mailbox i := by
  unfold stepOf
  split
  · split
    · exact .inr (.inl rfl)
    · exact .inl rfl
  · split
    · exact .inr (.inr (.inl ⟨_, rfl⟩))
    · exact .inl rfl
  · split
    · exact .inr (.inr (.inr ⟨_, rfl⟩))
    · exact .inl rfl
  · exact .inl rfl

theorem sound_step {s : Mailroom} {b : Nat} {r : Recipient} (h : r.Sound s.mailbox) (a : Step) :
    (s.stepOf b a r).Sound (s.step a).mailbox := by
  refine Recipient.Sound.mono ?_ (letters_prefix_step s a)
  rcases stepOf_cases s b a r with hr | hr | ⟨i, hr⟩ | ⟨i, hr⟩ <;> rw [hr]
  · exact h
  · exact h.look _
  · exact h.claim i
  · exact h.read i

theorem cursor_le_step (s : Mailroom) (b : Nat) (a : Step) (r : Recipient) :
    r.cursor.Le (s.stepOf b a r).cursor := by
  rcases stepOf_cases s b a r with hr | hr | ⟨i, hr⟩ | ⟨i, hr⟩ <;> rw [hr]
  · exact Cursor.Le.refl _
  · exact Cursor.Le.refl _
  · exact Recipient.cursor_le_claim r i
  · exact Cursor.Le.refl _

/-! ## Runs -/

theorem letters_prefix_run (s : Mailroom) (steps : List Step) :
    s.mailbox.letters <+: (s.run steps).mailbox.letters := by
  induction steps generalizing s with
  | nil => exact List.prefix_rfl
  | cons a steps ih => exact (letters_prefix_step s a).trans (ih _)

/-- The records of all recipients agree with their cursors and with the mailbox. -/
def Sound (s : Mailroom) : Prop := ∀ (b : Nat) (r : Recipient), s.recipients[b]? = some r → r.Sound s.mailbox

theorem sound_opened (m : Mailbox) (clock : Timestamp) (n : Nat) : (opened m clock n).Sound := by
  intro b r hr
  simp only [opened, List.getElem?_replicate] at hr
  split at hr
  · cases hr
    exact Recipient.sound_new m
  · cases hr

theorem Sound.run {s : Mailroom} (h : s.Sound) (steps : List Step) : (s.run steps).Sound := by
  induction steps generalizing s with
  | nil => exact h
  | cons a steps ih =>
    refine ih fun b r hr => ?_
    rw [recipients_step, Option.map_eq_some_iff] at hr
    obtain ⟨r, hr, rfl⟩ := hr
    exact sound_step (h b r hr) a

theorem cursor_le_run {s : Mailroom} {b : Nat} {r : Recipient} (hr : s.recipients[b]? = some r)
    (steps : List Step) : ∃ r', (s.run steps).recipients[b]? = some r' ∧ r.cursor.Le r'.cursor := by
  induction steps generalizing s r with
  | nil => exact ⟨r, hr, Cursor.Le.refl _⟩
  | cons a steps ih =>
    obtain ⟨r', hr', hle⟩ := ih (s := s.step a) (r := s.stepOf b a r) (by rw [recipients_step, hr]; rfl)
    exact ⟨r', hr', (cursor_le_step s b a r).trans hle⟩

/-! ## Steps with nothing between them -/

/-- Steps with nothing between them are what the medium offers: a letter is stamped and put there, or the `b`-th
recipient, which is `r`, looks at the clock, claims a window and reads it. -/
structure Whole (s : Mailroom) (b : Nat) (r : Recipient) : Prop where
  /-- A message that cannot be sent leaves the mailbox as it was. -/
  send : ∀ payload, (s.run [.stamp payload, .post s.stamped.length]).mailbox =
    (Medium.send s.clock payload s.mailbox).toOption.getD s.mailbox
  poll : (s.run [.look b, .claim b r.looks.length, .read b r.claims.length]).recipients[b]? =
    some (r.poll s.clock s.mailbox).2
  /-- The poll returns what was read, and the cursor comes to the same place. -/
  returns : ((r.poll s.clock s.mailbox).1, (r.poll s.clock s.mailbox).2.cursor) =
    Medium.poll s.clock s.mailbox r.cursor

theorem whole {s : Mailroom} {b : Nat} {r : Recipient} (hr : s.recipients[b]? = some r) : s.Whole b r where
  send payload := by
    simp only [run_cons, run_nil, step, List.getElem?_concat_length, put]
    change _ = (s.mailbox.insert s.clock payload).toOption.getD s.mailbox
    cases s.mailbox.insert s.clock payload <;> rfl
  poll := by
    simp only [run_cons, run_nil, recipients_step, hr, Option.map_some, stepOf, if_true]
    rfl
  returns := r.poll_eq s.clock s.mailbox

/-- Whatever letters are put there and wherever the clock goes, however polls come between one another
and whichever readings fail: the windows of a recipient partition time, its polls were given the letters of their
windows, and its cursor never goes back. Where nothing comes between, it polls as the medium lets it. -/
theorem partitions_of_run (m : Mailbox) (clock : Timestamp) (n : Nat) (steps : List Step) (b : Nat)
    (r : Recipient) (hr : ((opened m clock n).run steps).recipients[b]? = some r) :
    r.Partitions ((opened m clock n).run steps).mailbox ∧ ((opened m clock n).run steps).Whole b r ∧
    ∀ more, ∃ r', ((opened m clock n).run (steps ++ more)).recipients[b]? = some r' ∧
      r.cursor.Le r'.cursor := by
  refine ⟨((sound_opened m clock n).run steps b r hr).partitions, whole hr, fun more => ?_⟩
  rw [run_append]
  exact cursor_le_run hr more

/-- A poll that looked early comes to the cursor late and claims nothing, a later one reads only after
the mailbox has failed for the next, and letters of one time are given as they were put there. -/
theorem partitions_of_overtaken_poll :
    let steps : List Step := [.look 0, .claim 0 0, .put ⟨12, [1]⟩, .put ⟨11, [2]⟩, .put ⟨12, [3]⟩,
      .move (.set 12), .look 0, .move (.set 20), .look 0, .claim 0 1, .claim 0 0, .move (.set 5), .look 0,
      .move (.set 30), .look 0, .claim 0 1, .fail (some (.timeout 5)) none, .read 0 1, .fail none none,
      .read 0 0]
    let s := (opened {} 10 1).run steps
    (∃ r, s.recipients[0]? = some r ∧ r.Partitions s.mailbox ∧ s.Whole 0 r) ∧
    s.recipients.map (fun r => (r.claims.map Claim.window, r.claims.map Claim.returned?)) =
      [([⟨10, 20⟩, ⟨20, 30⟩], [some (.ok [[2], [1], [3]]), some (.error (.timeout 5))])] ∧
    s.recipients.map (fun r => (r.rows s.mailbox).map Row.place) = [[1, 0, 2]] := by
  intro steps s
  obtain ⟨hpartitions, hwhole, -⟩ := partitions_of_run {} 10 1 steps 0 _ rfl
  exact ⟨⟨_, rfl, hpartitions, hwhole⟩, by cbv, by cbv⟩

end Mailroom

end Moderation
