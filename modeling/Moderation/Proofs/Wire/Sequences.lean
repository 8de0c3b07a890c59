import Moderation.Proofs.Wire.Canonical
import Moderation.Proofs.Wire.RoundTrip
/-!
# Values one after the other

Values of any types are put into one buffer, and what was put is read back. A value that cannot be put leaves no trace,
and reading as many values of the same types gives those that could, with nothing taken of what lies behind them. What
a single reading takes off its input is said for all inputs, be there a value in it or not (`Stops`).
-/

namespace Moderation.Wire

variable {α β : Type}

/-! ## Putting values -/

/-- The value is not a text whose length cannot be said. -/
def Value.Fits : Value → Prop
  | text _ s => s.utf8ByteSize ≤ maxTextLength
  | long _ | byte _ | flag _ | uuid _ => True

instance : DecidablePred Value.Fits
  | .text _ s => inferInstanceAs (Decidable (s.utf8ByteSize ≤ maxTextLength))
  | .long _ | .byte _ | .flag _ | .uuid _ => inferInstanceAs (Decidable True)

theorem Value.exists_encode_of_fits {v : Value} (h : v.Fits) : ∃ bs, v.encode = .ok bs := by
  cases v with
  | text field s => exact ⟨_, if_pos h⟩
  | _ => exact ⟨_, rfl⟩

/-- A value is put behind what was put before, or it is too long a text and nothing is put. -/
theorem put_cases (written : Bytes) (v : Value) :
    (v.Fits ∧ ∃ bs, v.encode = .ok bs ∧ put written v = (.ok (), written ++ bs)) ∨
    ∃ field s, v = .text field s ∧ maxTextLength < s.utf8ByteSize ∧
      put written v = (.error (.stringTooLong field s.utf8ByteSize), written) := by
  by_cases hfits : v.Fits
  · obtain ⟨bs, hbs⟩ := Value.exists_encode_of_fits hfits
    exact .inl ⟨hfits, bs, hbs, by simp only [put, hbs]⟩
  · cases v with
    | text field s =>
      have hsize : maxTextLength < s.utf8ByteSize := Nat.lt_of_not_le hfits
      have hencode := Value.encode_eq_error_iff.2 ⟨field, s, rfl, hsize, rfl⟩
      exact .inr ⟨field, s, rfl, hsize, by simp only [put, hencode]⟩
    | _ => exact absurd trivial hfits

/-- Puts one value after the other, and goes on when one cannot be put. -/
def putEach (written : Bytes) (vs : List Value) : Bytes := vs.foldl (fun written v => (put written v).2) written

theorem exists_putEach (written : Bytes) (vs : List Value) :
    ∃ bs, Written (vs.filter fun v => v.Fits) bs ∧ putEach written vs = written ++ bs := by
  induction vs generalizing written with
  | nil => exact ⟨[], .nil, (List.append_nil written).symm⟩
  | cons v vs ih =>
    rcases put_cases written v with ⟨hfits, b, hb, hput⟩ | ⟨field, s, rfl, hsize, hput⟩
    · obtain ⟨bs, hbs, hrest⟩ := ih (written ++ b)
      refine ⟨b ++ bs, ?_, ?_⟩
      · rw [List.filter_cons_of_pos (by simpa using hfits)]
        exact .cons hb hbs
      · rw [putEach, List.foldl_cons, hput, ← List.append_assoc]
        exact hrest
    · obtain ⟨bs, hbs, hrest⟩ := ih written
      have hlong : ¬(Value.text field s).Fits := Nat.not_le.2 hsize
      refine ⟨bs, ?_, ?_⟩
      · rw [List.filter_cons_of_neg (by simpa using hlong)]
        exact hbs
      · rw [putEach, List.foldl_cons, hput]
        exact hrest

/-! ## Reading them back -/

/-- The value as it is read under that name: only texts bear one. -/
def Value.named (field : String) : Value → Value
  | text _ s => text field s
  | v => v

theorem takes_value {v : Value} {bs : Bytes} (h : v.encode = .ok bs) (field : String) :
    (v.shape.take field).Takes bs (v.named field) := by
  cases v with
  | long n => exact (takes_long h field).map _
  | byte b =>
    cases h
    exact (takes_byte b field).map _
  | flag b => exact (takes_flag h field).map _
  | uuid u => exact (takes_uuid h field).map _
  | text name s => exact (takes_text h field).map _

/-- Reads values of those shapes under those names. -/
def takeEach : List (String × Shape) → Reader (List Value)
  | [] => return []
  | (field, shape) :: gets => do
    let v ← shape.take field
    return v :: (← takeEach gets)

theorem takes_each {vs : List Value} {bs : Bytes} (h : Written vs bs) {gets : List (String × Shape)}
    (hshapes : gets.map Prod.snd = vs.map Value.shape) :
    (takeEach gets).Takes bs (List.zipWith Value.named (gets.map Prod.fst) vs) := by
  induction h generalizing gets with
  | nil =>
    obtain rfl := List.map_eq_nil_iff.1 hshapes
    exact .pure []
  | @cons v vs b bs hv _ ih =>
    obtain ⟨⟨field, shape⟩, gets, rfl, hshape, hrest⟩ := List.map_eq_cons_iff.1 hshapes
    obtain rfl : shape = v.shape := hshape
    exact (takes_value hv field).bind ((ih hrest).map (v.named field :: ·))

/-! ## What a reading takes -/

/-- The bytes without which nothing of that shape can be read. -/
def Shape.least : Shape → Nat
  | long => 8
  | byte | flag => 1
  | uuid => 16
  | text => 2

/-- Where a reading fails: what it has taken by then, and what it leaves. -/
inductive Stops (field : String) : Shape → DecodeError → Bytes → Bytes → Prop
  /-- There are too few bytes, and none are taken. -/
  | short {shape left} : left.length < shape.least →
      Stops field shape (.truncated field (shape.least - left.length)) [] left
  /-- The length is taken, and there are fewer bytes behind it. -/
  | cut {size left} : size.length = 2 → left.length < BigEndian.toNat size →
      Stops field .text (.truncated field (BigEndian.toNat size - left.length)) size left
  /-- A byte that is no truth value is taken. -/
  | flag {b left} : b ≠ 0 → b ≠ 1 → Stops field .flag (.invalidBoolean b) [b] left
  /-- Bytes that are no text are taken, with their length. -/
  | illegible {size body left} : size.length = 2 → body.length = BigEndian.toNat size → ofUtf8? body = none →
      Stops field .text (.invalidUtf8 field) (size ++ body) left

namespace Reader

theorem runOn_bind_eq_error {r : Reader α} {f : α → Reader β} {input rest : Bytes} {e : DecodeError}
    (h : runOn (r >>= f) input = (.error e, rest)) :
    r.runOn input = (.error e, rest) ∨ ∃ a left, r.runOn input = (.ok a, left) ∧ (f a).runOn left = (.error e, rest) := by
  rw [runOn_bind] at h
  rcases hr : r.runOn input with ⟨e' | a, left⟩
  · rw [hr] at h
    cases h
    exact .inl rfl
  · rw [hr] at h
    exact .inr ⟨a, left, rfl, h⟩

theorem runOn_map_eq_error {r : Reader α} {f : α → β} {input rest : Bytes} {e : DecodeError}
    (h : runOn (f <$> r) input = (.error e, rest)) : r.runOn input = (.error e, rest) := by
  rcases runOn_bind_eq_error (f := fun a => Pure.pure (f a)) h with hr | ⟨a, left, -, hf⟩
  · exact hr
  · cases hf

end Reader

open Reader

theorem runOn_take_eq_error {field : String} {n : Nat} {input rest : Bytes} {e : DecodeError}
    (h : (take field n).runOn input = (.error e, rest)) :
    rest = input ∧ input.length < n ∧ e = .truncated field (n - input.length) := by
  rw [runOn_take] at h
  split at h
  · next hlt =>
    cases h
    exact ⟨rfl, hlt, rfl⟩
  · cases h

theorem stops_of_short {field : String} (shape : Shape) {input rest : Bytes} {e : DecodeError}
    (h : (take field shape.least).runOn input = (.error e, rest)) :
    ∃ taken, input = taken ++ rest ∧ Stops field shape e taken rest := by
  obtain ⟨rfl, hlt, rfl⟩ := runOn_take_eq_error h
  exact ⟨[], rfl, .short hlt⟩

theorem stops_of_fixed {field : String} (shape : Shape) {f : Bytes → α} {input rest : Bytes} {e : DecodeError}
    (h : runOn (take field shape.least >>= fun bs => pure (f bs)) input = (.error e, rest)) :
    ∃ taken, input = taken ++ rest ∧ Stops field shape e taken rest :=
  stops_of_short shape (runOn_map_eq_error h)

theorem stops_flag {field : String} {input rest : Bytes} {e : DecodeError}
    (h : (takeFlag field).runOn input = (.error e, rest)) :
    ∃ taken, input = taken ++ rest ∧ Stops field .flag e taken rest := by
  rcases runOn_bind_eq_error h with hbyte | ⟨b, left, hbyte, hflag⟩
  · exact stops_of_fixed .flag hbyte
  · obtain ⟨bs, hbs, rfl⟩ := spells_byte field input left b hbyte
    cases hbs
    split at hflag
    · cases hflag
    · cases hflag
    · next hzero hone =>
      cases hflag
      exact ⟨[b], rfl, .flag hzero hone⟩

theorem stops_text {field : String} {input rest : Bytes} {e : DecodeError}
    (h : (takeText field).runOn input = (.error e, rest)) :
    ∃ taken, input = taken ++ rest ∧ Stops field .text e taken rest := by
  rcases runOn_bind_eq_error h with hlength | ⟨size, left, hlength, hafter⟩
  · exact stops_of_short .text hlength
  · obtain ⟨htwo, rfl⟩ := runOn_take_eq_ok hlength
    rcases runOn_bind_eq_error hafter with hbody | ⟨body, left', hbody, hutf8⟩
    · obtain ⟨rfl, hlt, rfl⟩ := runOn_take_eq_error hbody
      exact ⟨size, rfl, .cut htwo hlt⟩
    · obtain ⟨hsize, rfl⟩ := runOn_take_eq_ok hbody
      split at hutf8
      · cases hutf8
      · next hnone =>
        cases hutf8
        exact ⟨size ++ body, (List.append_assoc _ _ _).symm, .illegible htwo hsize hnone⟩

theorem stops_of_error {field : String} {shape : Shape} {input rest : Bytes} {e : DecodeError}
    (h : (shape.take field).runOn input = (.error e, rest)) :
    ∃ taken, input = taken ++ rest ∧ Stops field shape e taken rest := by
  cases shape with
  | long | byte | uuid => exact stops_of_fixed _ (runOn_map_eq_error h)
  | flag => exact stops_flag (runOn_map_eq_error h)
  | text => exact stops_text (runOn_map_eq_error h)

theorem spelled_of_ok {field : String} {shape : Shape} {input rest : Bytes} {v : Value}
    (h : (shape.take field).runOn input = (.ok v, rest)) :
    v.shape = shape ∧ ∃ taken, v.encode = .ok taken ∧ input = taken ++ rest := by
  cases shape with
  | long =>
    obtain ⟨n, hn, rfl⟩ := runOn_map_eq_ok h
    exact ⟨rfl, spells_long field input rest n hn⟩
  | byte =>
    obtain ⟨b, hb, rfl⟩ := runOn_map_eq_ok h
    exact ⟨rfl, spells_byte field input rest b hb⟩
  | flag =>
    obtain ⟨b, hb, rfl⟩ := runOn_map_eq_ok h
    exact ⟨rfl, spells_flag field input rest b hb⟩
  | uuid =>
    obtain ⟨u, hu, rfl⟩ := runOn_map_eq_ok h
    exact ⟨rfl, spells_uuid field input rest u hu⟩
  | text =>
    obtain ⟨s, hs, rfl⟩ := runOn_map_eq_ok h
    exact ⟨rfl, spells_text field field input rest s hs⟩

/-- A value is put behind what was put before unless it is a text of more than 65535 bytes, and then nothing is put.
After any puts into a buffer, reading as many values of the same types as could be put gives these, under the names for
which they are read, and leaves just what lies behind them. Of any input a reading takes a front part and leaves the
rest: all bytes of the value that it gives, or what it had taken when it failed. -/
theorem values_compose :
    (∀ (written : Bytes) (v : Value),
      (v.Fits ∧ ∃ bs, v.encode = .ok bs ∧ put written v = (.ok (), written ++ bs)) ∨
      ∃ field s, v = .text field s ∧ 65535 < s.utf8ByteSize ∧
        put written v = (.error (.stringTooLong field s.utf8ByteSize), written)) ∧
    (∀ (written : Bytes) (vs : List Value), ∃ bs, putEach written vs = written ++ bs ∧
      let kept := vs.filter fun v => v.Fits
      ∀ gets : List (String × Shape), gets.map Prod.snd = kept.map Value.shape → ∀ suffix,
        (takeEach gets).runOn (bs ++ suffix) = (.ok (List.zipWith Value.named (gets.map Prod.fst) kept), suffix)) ∧
    ∀ (field : String) (shape : Shape) (input : Bytes), ∃ result taken rest,
      (shape.take field).runOn input = (result, rest) ∧ input = taken ++ rest ∧
      match result with
      | .ok v => v.shape = shape ∧ v.encode = .ok taken
      | .error e => Stops field shape e taken rest := by
  refine ⟨put_cases, fun written vs => ?_, fun field shape input => ?_⟩
  · obtain ⟨bs, hwritten, hput⟩ := exists_putEach written vs
    exact ⟨bs, hput, fun gets hshapes => takes_each hwritten hshapes⟩
  · rcases hrun : (shape.take field).runOn input with ⟨e | v, rest⟩
    · obtain ⟨taken, hinput, hstops⟩ := stops_of_error hrun
      exact ⟨.error e, taken, rest, rfl, hinput, hstops⟩
    · obtain ⟨hshape, taken, hencode, hinput⟩ := spelled_of_ok hrun
      exact ⟨.ok v, taken, rest, rfl, hinput, hshape, hencode⟩

/-- A text that is one byte too long is put between others. -/
theorem values_compose_around_long_text :
    let long := String.ofList (List.replicate 65536 'x')
    let vs : List Value := [.long (-2), .text "name" long, .flag true, .text "name" "é", .uuid .nil, .byte 255]
    let gets : List (String × Shape) := [("id", .long), ("mode", .flag), ("reason", .text), ("origin", .uuid), ("kind", .byte)]
    65535 < long.utf8ByteSize ∧ gets.map Prod.snd = (vs.filter fun v => v.Fits).map Value.shape ∧
      (takeEach gets).runOn (putEach [] vs ++ [0, 9]) =
        (.ok [.long (-2), .flag true, .text "reason" "é", .uuid .nil, .byte 255], [0, 9]) := by
  intro long vs gets
  have hsize (n : Nat) : (String.ofList (List.replicate n 'x')).utf8ByteSize = n := by
    induction n with
    | zero => rfl
    | succ n ih =>
      rw [List.replicate_succ, String.ofList_cons, String.utf8ByteSize_append, ih]
      exact Nat.add_comm 1 n
  have hlong : 65535 < long.utf8ByteSize := by
    rw [hsize]
    decide
  have htoo : ¬(Value.text "name" long).Fits := Nat.not_le.2 hlong
  have hkept : vs.filter (fun v => v.Fits) = [.long (-2), .flag true, .text "name" "é", .uuid .nil, .byte 255] := by
    rw [List.filter_cons_of_pos rfl, List.filter_cons_of_neg (by simpa using htoo)]
    rfl
  have hshapes : gets.map Prod.snd = (vs.filter fun v => v.Fits).map Value.shape := by
    rw [hkept]
    rfl
  obtain ⟨-, hread, -⟩ := values_compose
  obtain ⟨bs, hput, hgets⟩ := hread [] vs
  refine ⟨hlong, hshapes, ?_⟩
  rw [hput, List.nil_append, hgets gets hshapes, hkept]
  rfl

end Moderation.Wire
