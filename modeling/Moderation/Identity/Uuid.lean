import Moderation.Text.Hex
/-!
# Universally unique identifiers

Sixteen bytes. They are written as groups of 8, 4, 4, 4 and 12 hexadecimal digits in lower case with
hyphens between, and read in either case: with hyphens, without, or with hyphens inside braces or
after `urn:uuid:`, which is read in either case too.
-/

namespace Moderation

structure Uuid where
  bytes : Bytes
  length_bytes : bytes.length = 16 := by decide
deriving DecidableEq

namespace Uuid

def nil : Uuid where
  bytes := List.replicate 16 0

instance : Inhabited Uuid := ⟨nil⟩

def ofBytes? (bs : Bytes) : Option Uuid :=
  if h : bs.length = 16 then some ⟨bs, h⟩ else none

def toText (u : Uuid) : List Char :=
  let hyphen := ['-']
  Hex.encode (u.bytes.take 4) ++ hyphen ++ Hex.encode ((u.bytes.drop 4).take 2) ++ hyphen
    ++ Hex.encode ((u.bytes.drop 6).take 2) ++ hyphen ++ Hex.encode ((u.bytes.drop 8).take 2)
    ++ hyphen ++ Hex.encode (u.bytes.drop 10)

instance : ToString Uuid where
  toString u := String.ofList u.toText

def ofDigits? (cs : List Char) : Option Uuid :=
  (Hex.decode? cs).bind ofBytes?

/-- Takes the hyphens out of the hyphenated form; `none` if they do not stand where they should. -/
def unhyphenated? (cs : List Char) : Option (List Char) :=
  let hyphenAt (i : Nat) : Bool := cs[i]? == some '-'
  if cs.length = 36 ∧ hyphenAt 8 ∧ hyphenAt 13 ∧ hyphenAt 18 ∧ hyphenAt 23 then
    some (cs.take 8 ++ (cs.drop 9).take 4 ++ (cs.drop 14).take 4 ++ (cs.drop 19).take 4
      ++ cs.drop 24)
  else none

/-- Takes the braces or the `urn:uuid:` off a text that has them. -/
def unwrapped (cs : List Char) : List Char :=
  let urn := "urn:uuid:".toList
  if cs.length = 38 ∧ cs.head? = some '\x7b' ∧ cs.getLast? = some '\x7d' then
    (cs.drop 1).take 36
  else if cs.length = 45 ∧ (cs.take 9).map Char.toLower = urn then cs.drop 9
  else cs

def ofText? (cs : List Char) : Option Uuid :=
  if cs.length = 32 then ofDigits? cs
  else (unhyphenated? (unwrapped cs)).bind ofDigits?

end Uuid

end Moderation
