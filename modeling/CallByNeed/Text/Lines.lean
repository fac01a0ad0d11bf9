/-
  File:      CallByNeed/Text/Lines.lean
  Subject:   A text cut into the lines that a terminal shows.

  A line keeps the character that ends it. Besides the newline there are six more line ends; a
  carriage return with a newline behind it is one end. No empty line follows the last line end.

  * `endsLine` -- the characters that end a line;
  * `linesOf` -- the lines of a text;
  * `InLine`, `seekLine` -- the line that a byte of the text lies in.
-/
import CallByNeed.Text.Bytes

namespace CallByNeed

/-! ## 1. Lines -/

/-- Carriage return, newline, vertical tab, form feed, next line, and the separators of lines and of
    paragraphs. -/
def endsLine (c : Char) : Bool :=
  c == '\r' || c == '\n' || c == '\x0b' || c == '\x0c' || c == '\u0085' || c == '\u2028' ||
    c == '\u2029'

/-- Whether a line stops at `c` when `rest` is what follows. -/
def stopsLine (c : Char) (rest : List Char) : Bool :=
  endsLine c && !(c == '\r' && rest.head? == some '\n')

/-- The lines of a text, each with its end. The empty text has none. -/
def linesOf : List Char → List (List Char)
  | [] => []
  | c :: cs =>
    match linesOf cs with
    | [] => [[c]]
    | l :: ls => if stopsLine c cs then [c] :: l :: ls else (c :: l) :: ls

/-! ## 2. Places -/

/-- A place in one line of a text. -/
structure InLine where
  /-- Lines in front of it. -/
  above : Nat
  /-- Bytes in front of the place in its own line. -/
  offset : Nat
  /-- The line with its end. -/
  line : List Char
  deriving DecidableEq, Repr, Inhabited

/-- The place `bytes` bytes behind the start of some lines, the first of which has `above` lines in
    front of it. The end of the text belongs to the last line, also if that line has an end. -/
def seekLine : (above bytes : Nat) → List (List Char) → InLine
  | above, bytes, [] => ⟨above, bytes, []⟩
  | above, bytes, [l] => ⟨above, bytes, l⟩
  | above, bytes, l :: m :: ls =>
    if bytes < byteCount l then ⟨above, bytes, l⟩
    else seekLine (above + 1) (bytes - byteCount l) (m :: ls)

end CallByNeed
