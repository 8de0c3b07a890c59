import Moderation.Proofs.Wire.BigEndian
import Moderation.Proofs.Wire.Reading
/-!
# Values read back

A value is read back from the bytes in which it was written, whatever lies behind them. `Reader.Takes` says so of
one reader and one piece of input, and is put together along `>>=` in the order in which values are written.
-/

namespace Moderation.Wire

variable {α β : Type}

/-! ## What was written -/

/-- The values can be written, and these are their bytes. -/
inductive Written : List Value → Bytes → Prop
  | nil : Written [] []
  | cons {v vs b bs} : v.encode = .ok b → Written vs bs → Written (v :: vs) (b ++ bs)

theorem Written.singleton {v : Value} {b : Bytes} (h : v.encode = .ok b) : Written [v] b := by
  have hv := Written.cons h .nil
  rw [List.append_nil] at hv
  exact hv

theorem putAll_eq_ok {vs : List Value} {written bs : Bytes} (h : putAll written vs = (.ok (), bs)) :
    ∃ rest, Written vs rest ∧ bs = written ++ rest := by
  induction vs generalizing written with
  | nil =>
    simp only [putAll, Prod.mk.injEq, true_and] at h
    exact ⟨[], .nil, by simp [h]⟩
  | cons v vs ih =>
    unfold putAll put at h
    cases hv : v.encode with
    | error e => simp [hv] at h
    | ok b =>
      simp only [hv] at h
      obtain ⟨rest, hrest, rfl⟩ := ih h
      exact ⟨b ++ rest, .cons hv hrest, by simp⟩

theorem Written.append {vs ws : List Value} {bs : Bytes} (h : Written (vs ++ ws) bs) :
    ∃ bs₁ bs₂, Written vs bs₁ ∧ Written ws bs₂ ∧ bs = bs₁ ++ bs₂ := by
  induction vs generalizing bs with
  | nil => exact ⟨[], bs, .nil, h, rfl⟩
  | cons v vs ih =>
    cases h with
    | @cons _ _ b _ hv hrest =>
      obtain ⟨bs₁, bs₂, h₁, h₂, rfl⟩ := ih hrest
      exact ⟨b ++ bs₁, bs₂, .cons hv h₁, h₂, by simp⟩

theorem putAll_of_written {vs : List Value} {bs : Bytes} (h : Written vs bs) (written : Bytes) :
    putAll written vs = (.ok (), written ++ bs) := by
  induction h generalizing written with
  | nil => simp [putAll]
  | cons hv _ ih => simp [putAll, put, hv, ih]

/-- Values are written in one way only. -/
theorem Written.unique {vs : List Value} {bs bs' : Bytes} (h : Written vs bs) (h' : Written vs bs') : bs = bs' := by
  have hput := (putAll_of_written h []).symm.trans (putAll_of_written h' [])
  simpa using hput

/-! ## What cannot be written -/

/-- Only a text can be too long. -/
theorem Value.encode_eq_error_iff {v : Value} {err : EncodeError} : v.encode = .error err ↔
    ∃ field s, v = .text field s ∧ maxTextLength < s.utf8ByteSize ∧ err = .stringTooLong field s.utf8ByteSize := by
  constructor
  · intro h
    cases v with
    | text field s =>
      simp only [encode] at h
      split at h
      · cases h
      · next hsize =>
        cases h
        exact ⟨field, s, rfl, by omega, rfl⟩
    | _ => cases h
  · rintro ⟨field, s, rfl, hsize, rfl⟩
    simp only [encode]
    rw [if_neg (by omega)]

theorem Written.encode_of_mem {vs : List Value} {bs : Bytes} (h : Written vs bs) {v : Value} (hv : v ∈ vs) :
    ∃ b, v.encode = .ok b := by
  induction h with
  | nil => cases hv
  | cons hb _ ih =>
    rcases List.mem_cons.1 hv with rfl | hv
    · exact ⟨_, hb⟩
    · exact ih hv

/-- Writing fails at one of the values, or writes them all. -/
theorem written_or_failed (written : Bytes) (vs : List Value) : (∃ bs, Written vs bs) ∨
    ∃ v ∈ vs, ∃ err left, v.encode = .error err ∧ putAll written vs = (.error err, left) := by
  induction vs generalizing written with
  | nil => exact .inl ⟨[], .nil⟩
  | cons v vs ih =>
    cases hv : v.encode with
    | error err => exact .inr ⟨v, by simp, err, written, hv, by simp [putAll, put, hv]⟩
    | ok b =>
      rcases ih (written ++ b) with ⟨bs, hbs⟩ | ⟨w, hw, err, left, herr, hput⟩
      · exact .inl ⟨b ++ bs, .cons hv hbs⟩
      · refine .inr ⟨w, by simp [hw], err, left, herr, ?_⟩
        simpa [putAll, put, hv] using hput

/-! ## Reading it back -/

namespace Reader

/-- From input that begins with these bytes the reader gives `a`, and it leaves what lies behind them. -/
def Takes (r : Reader α) (bs : Bytes) (a : α) : Prop := ∀ rest, r.runOn (bs ++ rest) = (.ok a, rest)

theorem Takes.pure (a : α) : Takes (pure a) [] a := fun _ => rfl

theorem Takes.bind {r : Reader α} {f : α → Reader β} {bs bs' : Bytes} {a : α} {b : β} (h : r.Takes bs a)
    (h' : (f a).Takes bs' b) : (r >>= f).Takes (bs ++ bs') b := by
  intro rest
  rw [List.append_assoc, runOn_bind_ok (h (bs' ++ rest)) f]
  exact h' rest

theorem Takes.map {r : Reader α} {bs : Bytes} {a : α} (h : r.Takes bs a) (f : α → β) :
    (f <$> r).Takes bs (f a) := by
  have hbind := h.bind (f := fun a => Pure.pure (f a)) (.pure (f a))
  rw [List.append_nil] at hbind
  exact hbind

end Reader

open Reader

theorem takes_take {n : Nat} {bs : Bytes} (h : bs.length = n) (field : String) : (take field n).Takes bs bs :=
  h ▸ take_append field bs

theorem takes_long {n : Int64} {b : Bytes} (h : (Value.long n).encode = .ok b) (field : String) :
    (takeLong field).Takes b n := by
  cases h
  have htake := takes_take (BigEndian.length_ofNat 8 n.toUInt64.toNat) field
  have hnumber := htake.map fun bs => (UInt64.ofNat (BigEndian.toNat bs)).toInt64
  rw [BigEndian.toNat_ofNat (UInt64.toNat_lt n.toUInt64), UInt64.ofNat_toNat] at hnumber
  exact hnumber

theorem takes_byte (b : UInt8) (field : String) : (takeByte field).Takes [b] b :=
  fun rest => takeByte_cons field b rest

theorem takes_flag {f : Bool} {b : Bytes} (h : (Value.flag f).encode = .ok b) (field : String) :
    (takeFlag field).Takes b f := by
  cases h
  cases f <;> exact (takes_byte _ field).bind (.pure _)

theorem takes_uuid {u : Uuid} {b : Bytes} (h : (Value.uuid u).encode = .ok b) (field : String) :
    (takeUuid field).Takes b u := by
  cases h
  exact fun rest => takeUuid_append field u rest

theorem ofUtf8?_utf8 (s : String) : ofUtf8? (utf8 s) = some s := dif_pos s.isValidUTF8

theorem takes_text {name s : String} {b : Bytes} (h : (Value.text name s).encode = .ok b) (field : String) :
    (takeText field).Takes b s := by
  simp only [Value.encode] at h
  split at h
  · next hsize =>
    cases h
    have hbytes : (take field s.utf8ByteSize).Takes (utf8 s) (utf8 s) := takes_take rfl field
    refine (takes_take (BigEndian.length_ofNat 2 s.utf8ByteSize) field).bind ?_
    -- What was read is how many bytes are to be read next.
    rw [BigEndian.toNat_ofNat (Nat.lt_succ_of_le hsize), ← (utf8 s).append_nil]
    refine hbytes.bind ?_
    rw [ofUtf8?_utf8]
    exact .pure s
  · cases h

end Moderation.Wire
