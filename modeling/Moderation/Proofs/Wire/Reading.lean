import Moderation.Wire.Reader
/-!
# Running readers

What readers do with input that begins with the bytes they are to take: they take these and leave the
rest.
-/

namespace Moderation.Wire

variable {α β : Type}

/-- What a reader gives on some input, and the input it leaves. -/
def Reader.runOn (r : Reader α) (input : Bytes) : Except DecodeError α × Bytes := r.run.run input

namespace Reader

@[simp] theorem runOn_pure (a : α) (input : Bytes) : runOn (pure a) input = (.ok a, input) := rfl

/-- The second reader begins where the first one ends. -/
theorem runOn_bind (r : Reader α) (f : α → Reader β) (input : Bytes) :
    runOn (r >>= f) input = match r.runOn input with
      | (.ok a, rest) => (f a).runOn rest
      | (.error e, rest) => (.error e, rest) := by
  simp only [runOn, ExceptT.run_bind, StateT.run_bind]
  rcases r.run.run input with ⟨a | e, rest⟩ <;> rfl

theorem runOn_bind_ok {r : Reader α} {a : α} {input rest : Bytes} (h : r.runOn input = (.ok a, rest))
    (f : α → Reader β) : runOn (r >>= f) input = (f a).runOn rest := by
  rw [runOn_bind, h]

end Reader

open Reader

/-- Bytes are taken if there are enough of them. -/
theorem runOn_take (field : String) (n : Nat) (input : Bytes) : (take field n).runOn input =
    if input.length < n then (.error (.truncated field (n - input.length)), input)
    else (.ok (input.take n), input.drop n) := by
  have hget : runOn (get : Reader Bytes) input = (.ok input, input) := rfl
  refine (runOn_bind_ok hget _).trans ?_
  split <;> rfl

theorem take_append (field : String) (bs rest : Bytes) :
    (take field bs.length).runOn (bs ++ rest) = (.ok bs, rest) := by
  rw [runOn_take, if_neg (by simp)]
  simp

theorem takeByte_cons (field : String) (b : UInt8) (rest : Bytes) :
    (takeByte field).runOn (b :: rest) = (.ok b, rest) :=
  runOn_bind_ok (take_append field [b] rest) _

theorem takeUuid_append (field : String) (u : Uuid) (rest : Bytes) :
    (takeUuid field).runOn (u.bytes ++ rest) = (.ok u, rest) := by
  have htake : (take field 16).runOn (u.bytes ++ rest) = (.ok u.bytes, rest) :=
    u.length_bytes ▸ take_append field u.bytes rest
  refine (runOn_bind_ok htake _).trans ?_
  simp only [runOn_pure, Uuid.ofBytes?, u.length_bytes, dif_pos, Option.getD_some]

end Moderation.Wire
