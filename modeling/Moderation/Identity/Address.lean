import Moderation.Text.Hex
/-!
# Network addresses

An IPv4 address is four bytes, an IPv6 address eight 16-bit groups. Reading is strict: no leading
zeros in a byte, at most four digits in a group, nothing before or after. Writing an IPv6 address
shortens the first of its longest runs of zero groups.
-/

namespace Moderation

/-- A network address. An IPv4 address and the IPv6 address that embeds it are different. -/
inductive Address where
  | v4 (a b c d : UInt8)
  | v6 (groups : List UInt16) (length_groups : groups.length = 8)
deriving DecidableEq

namespace Address

instance : Inhabited Address := ⟨v4 0 0 0 0⟩

/-! ## Reading -/

/-- Reads a number of at most `most` digits, all that there are. -/
def readNumber (digit? : Char → Option Nat) (base most : Nat) (cs : List Char) :
    Option (Nat × List Char) :=
  let run := cs.takeWhile fun c => (digit? c).isSome
  if run.isEmpty || run.length > most then none
  else some ((run.filterMap digit?).foldl (fun n d => base * n + d) 0, cs.drop run.length)

def decimalDigit? (c : Char) : Option Nat :=
  if c.isDigit then some (c.toNat - '0'.toNat) else none

/-- Reads one byte of a dotted quad: no leading zero, at most 255. -/
def readByte (cs : List Char) : Option (UInt8 × List Char) := do
  let (n, rest) ← readNumber decimalDigit? 10 3 cs
  if n > 255 ∨ (cs.head? = some '0' ∧ cs.length > rest.length + 1) then none
  else some (UInt8.ofNat n, rest)

/-- Drops the character `c`, which has to come first. -/
def skip (c : Char) : List Char → Option (List Char)
  | c' :: rest => if c' = c then some rest else none
  | [] => none

def readQuad (cs : List Char) : Option ((UInt8 × UInt8 × UInt8 × UInt8) × List Char) := do
  let (a, cs) ← readByte cs
  let cs ← skip '.' cs
  let (b, cs) ← readByte cs
  let cs ← skip '.' cs
  let (c, cs) ← readByte cs
  let cs ← skip '.' cs
  let (d, cs) ← readByte cs
  return ((a, b, c, d), cs)

structure GroupRun where
  groups : List UInt16
  /-- Whether the last two were written as a dotted quad, which ends the run. -/
  quad : Bool
  rest : List Char

def pair (a b : UInt8) : UInt16 := UInt16.ofNat (256 * a.toNat + b.toNat)

/-- Reads groups with colons between them, for as long as they last and at most `room` of them. The
last two may be written as a dotted quad. -/
def readGroups : (room : Nat) → (first : Bool) → List Char → GroupRun
  | 0, _, cs => ⟨[], false, cs⟩
  | room + 1, first, cs =>
    match if first then some cs else skip ':' cs with
    | none => ⟨[], false, cs⟩
    | some body =>
      match if room = 0 then none else readQuad body with
      | some ((a, b, c, d), rest) => ⟨[pair a b, pair c d], true, rest⟩
      | none =>
        match readNumber Hex.value? 16 4 body with
        | none => ⟨[], false, cs⟩
        | some (g, rest) =>
          let more := readGroups room false rest
          { more with groups := UInt16.ofNat g :: more.groups }

def ofGroups? (groups : List UInt16) : Option Address :=
  if h : groups.length = 8 then some (v6 groups h) else none

def ofGroupText? (cs : List Char) : Option Address :=
  let front := readGroups 8 true cs
  if front.groups.length = 8 then
    if front.rest.isEmpty then ofGroups? front.groups else none
  else if front.quad then none
  else
    match front.rest with
    | ':' :: ':' :: rest =>
      let back := readGroups (7 - front.groups.length) true rest
      if back.rest.isEmpty then
        let zeros := List.replicate (8 - front.groups.length - back.groups.length) 0
        ofGroups? (front.groups ++ zeros ++ back.groups)
      else none
    | _ => none

def ofText? (cs : List Char) : Option Address :=
  match readQuad cs with
  | some ((a, b, c, d), rest) => if rest.isEmpty then some (v4 a b c d) else none
  | none => ofGroupText? cs

/-! ## Writing -/

def zeroRuns : List UInt16 → List Nat
  | [] => []
  | g :: rest =>
    let runs := zeroRuns rest
    (if g = 0 then runs.headD 0 + 1 else 0) :: runs

def colonSeparated (groups : List UInt16) : String :=
  ":".intercalate (groups.map fun g => String.ofList (Hex.ofNat g.toNat))

def dotted (a b c d : UInt8) : String := s!"{a}.{b}.{c}.{d}"

def halves (g : UInt16) : UInt8 × UInt8 := (UInt8.ofNat (g.toNat / 256), UInt8.ofNat g.toNat)

/-- The written form of eight groups. An embedded IPv4 address shows as a dotted quad. -/
def ofGroupsText (groups : List UInt16) : String :=
  match groups with
  | [0, 0, 0, 0, 0, 0xFFFF, g, h] =>
    let (a, b) := halves g
    let (c, d) := halves h
    "::ffff:" ++ dotted a b c d
  | _ =>
    let runs := zeroRuns groups
    let longest := runs.foldl max 0
    if longest < 2 then colonSeparated groups
    else
      let start := runs.idxOf longest
      colonSeparated (groups.take start) ++ "::" ++ colonSeparated (groups.drop (start + longest))

instance : ToString Address where
  toString
    | v4 a b c d => dotted a b c d
    | v6 groups _ => ofGroupsText groups

end Address

end Moderation
