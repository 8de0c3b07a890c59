import Moderation.Json.Basic
import Moderation.Text.Hex
/-!
# JSON tokens

The lexer takes one character at a time, so that its state after any beginning of the text is a
value: the tokens that are complete, and what it is in the middle of.
-/

namespace Moderation.Json

inductive Token where
  | beginArray
  | endArray
  | beginObject
  | endObject
  | colon
  | comma
  /-- A string; `none` if a surrogate stands alone in it. -/
  | string (text : Option String)
  | word (value : Json)

namespace Token

def ofPunctuation? : Char → Option Token
  | '[' => some .beginArray
  | ']' => some .endArray
  | '\x7b' => some .beginObject
  | '\x7d' => some .endObject
  | ':' => some .colon
  | ',' => some .comma
  | _ => none

def afterDigits? (cs : List Char) : Option (List Char) :=
  if (cs.takeWhile Char.isDigit).isEmpty then none else some (cs.dropWhile Char.isDigit)

def afterFraction? : List Char → Option (List Char)
  | '.' :: cs => afterDigits? cs
  | cs => some cs

def afterExponent? : List Char → Option (List Char)
  | c :: cs =>
    if c = 'e' ∨ c = 'E' then
      match cs with
      | '+' :: cs | '-' :: cs => afterDigits? cs
      | cs => afterDigits? cs
    else some (c :: cs)
  | [] => some []

def ofUnsigned? (negative : Bool) (cs : List Char) : Option Json := do
  let digits := cs.takeWhile Char.isDigit
  guard (!digits.isEmpty && (digits.head? != some '0' || digits.length == 1))
  let rest := cs.drop digits.length
  let n : Nat := digits.foldl (fun n c => 10 * n + (c.toNat - '0'.toNat)) 0
  if rest.isEmpty then
    return if negative then (if n = 0 then .unheld else .integer (-n)) else .integer n
  let rest ← afterExponent? (← afterFraction? rest)
  guard rest.isEmpty
  return .unheld

def ofWord? (cs : List Char) : Option Json :=
  if cs = "null".toList then some .null
  else if cs = "true".toList then some (.bool true)
  else if cs = "false".toList then some (.bool false)
  else
    match cs with
    | '-' :: cs => ofUnsigned? true cs
    | cs => ofUnsigned? false cs

end Token

/-! ## Strings -/

structure Quotation where
  held : List Char := []
  high : Option Nat := none
  paired : Bool := true

namespace Quotation

def broken (q : Quotation) : Quotation :=
  { q with high := none, paired := q.paired && q.high.isNone }

def push (q : Quotation) (c : Char) : Quotation :=
  { q.broken with held := c :: q.held }

def pushUnit (q : Quotation) (unit : Nat) : Quotation :=
  if 0xDC00 ≤ unit ∧ unit ≤ 0xDFFF then
    match q.high with
    | some h =>
      let c := Char.ofNat (0x10000 + (h - 0xD800) * 0x400 + (unit - 0xDC00))
      { q with held := c :: q.held, high := none }
    | none => { q with paired := false }
  else if 0xD800 ≤ unit ∧ unit ≤ 0xDBFF then { q.broken with high := some unit }
  else q.push (Char.ofNat unit)

/-- The text of the whole string; `none` if a surrogate stands alone in it. -/
def text? (q : Quotation) : Option String :=
  if q.broken.paired then some (String.ofList q.held.reverse) else none

end Quotation

def unescape? : Char → Option Char
  | '"' => some '"'
  | '\\' => some '\\'
  | '/' => some '/'
  | 'b' => some '\x08'
  | 'f' => some '\x0c'
  | 'n' => some '\n'
  | 'r' => some '\r'
  | 't' => some '\t'
  | _ => none

/-! ## The lexer -/

inductive Lexing where
  | between
  /-- A number or a name, its characters in reverse. -/
  | word (held : List Char)
  | quotation (q : Quotation)
  | escape (q : Quotation)
  | unit (q : Quotation) (count value : Nat)

/-- The lexer's state: complete tokens in reverse, and what it is in the middle of. -/
structure Lexer where
  tokens : List Token := []
  state : Lexing := .between

namespace Lexer

def isSpace (c : Char) : Bool := c = ' ' || c = '\t' || c = '\n' || c = '\r'

def emit (l : Lexer) (t : Token) : Lexer := ⟨t :: l.tokens, .between⟩

def begin (l : Lexer) (c : Char) : Lexer :=
  if isSpace c then { l with state := .between }
  else if c = '"' then { l with state := .quotation {} }
  else
    match Token.ofPunctuation? c with
    | some t => l.emit t
    | none => { l with state := .word [c] }

def endWord? (l : Lexer) (held : List Char) : Option Lexer :=
  (Token.ofWord? held.reverse).map fun v => l.emit (.word v)

def step? (l : Lexer) (c : Char) : Option Lexer :=
  match l.state with
  | .between => some (l.begin c)
  | .word held =>
    if isSpace c || c = '"' || (Token.ofPunctuation? c).isSome then
      (l.endWord? held).map fun l => l.begin c
    else some { l with state := .word (c :: held) }
  | .quotation q =>
    if c = '"' then some (l.emit (.string q.text?))
    else if c = '\\' then some { l with state := .escape q }
    else if c < ' ' then none
    else some { l with state := .quotation (q.push c) }
  | .escape q =>
    if c = 'u' then some { l with state := .unit q 0 0 }
    else (unescape? c).map fun c => { l with state := .quotation (q.push c) }
  | .unit q count value =>
    (Hex.value? c).map fun d =>
      let value := 16 * value + d
      if count = 3 then { l with state := .quotation (q.pushUnit value) }
      else { l with state := .unit q (count + 1) value }

def finish? (l : Lexer) : Option (List Token) :=
  match l.state with
  | .between => some l.tokens.reverse
  | .word held => (l.endWord? held).map fun l => l.tokens.reverse
  | _ => none

end Lexer

def tokens? (cs : List Char) : Option (List Token) :=
  (cs.foldlM Lexer.step? {}).bind Lexer.finish?

end Moderation.Json
