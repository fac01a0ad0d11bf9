/-
  File:      CallByNeed/Parser/Cursor.lean
  Subject:   The text still to be read, and the tokens at its head.

  A cursor is a value: an alternative that does not match returns nothing, and its caller still
  holds the cursor it began with. Offsets count from the start of the author's text, so a cursor
  inside the prelude in front of it has a negative one.

  * `Cursor`, `Cursor.span`, `Cursor.eat?` -- reading on, and the longest run of a class;
  * `Cursor.operator?`, `Cursor.bracketedOperator?`, `Cursor.word?` -- names;
  * `Cursor.numeral?`, `Cursor.stringBody` -- literals.
-/
import CallByNeed.Literal
import CallByNeed.Operator
import CallByNeed.Text.Bytes

namespace CallByNeed

/-- The text still to be read, and the byte offset where it starts. -/
structure Cursor where
  rest : List Char
  offset : Int
  deriving DecidableEq, Repr, Inhabited

namespace Cursor

/-! ## 1. Reading on -/

/-- Reads the longest run of characters in a class. -/
def span (c : Cursor) (p : Char → Bool) : List Char × Cursor :=
  let run := c.rest.takeWhile p
  (run, ⟨c.rest.dropWhile p, c.offset + byteCount run⟩)

/-- The cursor behind the spaces it stands at. -/
def skipSpaces (c : Cursor) : Cursor :=
  (c.span (· == ' ')).2

/-- Reads one given character. -/
def eat? (c : Cursor) (ch : Char) : Option Cursor :=
  match c.rest with
  | d :: rest => if d = ch then some ⟨rest, c.offset + d.utf8Size⟩ else none
  | [] => none

/-- Reading loses nothing. -/
theorem span_append (c : Cursor) (p : Char → Bool) :
    (c.span p).1 ++ (c.span p).2.rest = c.rest :=
  List.takeWhile_append_dropWhile

/-! ## 2. Names -/

/-- Reads the longest run of characters in a class, if there is one. -/
def run? (c : Cursor) (p : Char → Bool) : Option (String × Cursor) :=
  match c.span p with
  | ([], _) => none
  | (run, c') => some (String.ofList run, c')

/-- Reads an operator. -/
def operator? (c : Cursor) : Option (String × Cursor) := c.run? isOperatorChar

/-- Reads a word of letters, digits and underscores. -/
def word? (c : Cursor) : Option (String × Cursor) := c.run? isNameChar

/-- Reads an operator in parentheses, the way an operator is used as a name. -/
def bracketedOperator? (c : Cursor) : Option (String × Cursor) := do
  let inner ← c.eat? '('
  let (op, behind) ← inner.skipSpaces.operator?
  let after ← behind.skipSpaces.eat? ')'
  return (op, after)

/-! ## 3. Literals -/

/-- Splits off a sign. -/
def sign (c : Cursor) : List Char × Cursor :=
  match c.rest with
  | '+' :: rest => (['+'], ⟨rest, c.offset + 1⟩)
  | '-' :: rest => (['-'], ⟨rest, c.offset + 1⟩)
  | _ => ([], c)

/-- Reads a numeral: digits, and directly in front of them perhaps a sign. -/
def numeral? (c : Cursor) : Option (List Char × Cursor) :=
  let (sign, c') := c.sign
  match c'.span Char.isDigit with
  | ([], _) => none
  | (digits, c'') => some (sign ++ digits, c'')

/-- Reads what stands between two quotes, from behind the first one up to behind the second. A
    backslash takes the next character along, whatever it is. `done` holds what was read, last
    character first. Without a second quote the result is the end of the text. -/
def stringBodyFrom (done : List Char) (offset : Int) :
    List Char → Except Cursor (List Char × Cursor)
  | [] => .error ⟨[], offset⟩
  | [c] =>
    if c = '"' then .ok (done.reverse, ⟨[], offset + 1⟩)
    else .error ⟨[], offset + c.utf8Size⟩
  | c :: d :: rest =>
    if c = '"' then .ok (done.reverse, ⟨d :: rest, offset + 1⟩)
    else if c = '\\' then stringBodyFrom (d :: c :: done) (offset + 1 + d.utf8Size) rest
    else stringBodyFrom (c :: done) (offset + c.utf8Size) (d :: rest)

/-- Reads up to the closing quote; `error` is the end of the text, where the quote is missing. -/
def stringBody (c : Cursor) : Except Cursor (List Char × Cursor) :=
  stringBodyFrom [] c.offset c.rest

end Cursor

end CallByNeed
