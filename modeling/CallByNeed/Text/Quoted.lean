/-
  File:      CallByNeed/Text/Quoted.lean
  Subject:   Texts in double quotes, the way values and messages show them.

  * `Quoted.showChar` -- one character between the quotes: the usual short escapes, a code point in
    braces for a character that would not show or that would melt into its neighbour, and the
    character itself otherwise;
  * `quoted` -- the whole text in its quotes.
-/
import CallByNeed.Text.CharClass

namespace CallByNeed

/-- Whether a character is shown by its code point. -/
def Quoted.byCodePoint (c : Char) : Bool :=
  isExtender c || !isPrintable c

/-- One character of a quoted text. An apostrophe stays as it is. -/
def Quoted.showChar (c : Char) : List Char :=
  if c = '\x00' then ['\\', '0']
  else if c = '\t' then ['\\', 't']
  else if c = '\r' then ['\\', 'r']
  else if c = '\n' then ['\\', 'n']
  else if c = '"' then ['\\', '"']
  else if c = '\\' then ['\\', '\\']
  else if Quoted.byCodePoint c then
    ['\\', 'u', '\x7b'] ++ Nat.toDigits 16 c.toNat ++ ['\x7d']
  else [c]

/-- A text in double quotes. -/
def quoted (s : String) : String :=
  String.ofList ('"' :: s.toList.flatMap Quoted.showChar ++ ['"'])

end CallByNeed
