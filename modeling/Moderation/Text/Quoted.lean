import Moderation.Text.Hex
import Moderation.Text.Invisible
import Moderation.Text.Mark
/-!
# Quoted text

Text between double quotes, for messages: quotes, backslashes and the common control characters get
a short escape, and other characters that a reader would not see by themselves get a numeric one.
-/

namespace Moderation.Quoted

/-- Whether a character is written as it is: it is seen, and seen apart from the one before it. -/
def isShown (c : Char) : Bool := !(Invisible.isInvisible c || Mark.isMark c)

def escape (c : Char) : List Char :=
  if c = '"' then ['\\', '"']
  else if c = '\\' then ['\\', '\\']
  else if c = '\n' then ['\\', 'n']
  else if c = '\r' then ['\\', 'r']
  else if c = '\t' then ['\\', 't']
  else if c = '\x00' then ['\\', '0']
  else if isShown c then [c]
  else ['\\', 'u', '\x7b'] ++ Hex.ofNat c.toNat ++ ['\x7d']

def quote (s : String) : String :=
  String.ofList ('"' :: s.toList.flatMap escape ++ ['"'])

end Moderation.Quoted
