/-
  File:      CallByNeed/Source.lean
  Subject:   Named program texts and the places in them.

  A place is a byte offset relative to the text its author wrote. Definitions that are wrapped
  around that text have places too: their offsets are negative or lie beyond the text's end, and
  such a place has no line and column.

  * `Source`, `Source.position?` -- a text with its name, and the line and column of an offset;
  * `Pos` -- an offset together with the source it counts in;
  * `Pos.location`, `Pos.report` -- the header in front of a message about that place.
-/
import CallByNeed.Text.Bytes

namespace CallByNeed

/-! ## 1. Sources -/

/-- A named piece of program text. -/
structure Source where
  name : String
  text : String
  deriving DecidableEq, Repr, Inhabited

/-- The text, character by character. -/
def Source.chars (s : Source) : List Char := s.text.toList

/-- Bytes of the text. -/
def Source.size (s : Source) : Nat := byteCount s.chars

/-! ## 2. Lines and columns -/

/-- A line and a column, both counted from one; a column counts characters. -/
structure LineColumn where
  line : Nat
  column : Nat
  deriving DecidableEq, Repr, Inhabited

/-- The first place of a text. -/
def LineColumn.start : LineColumn := ⟨1, 1⟩

/-- The place behind a character: a newline opens the next line. -/
def LineColumn.after (p : LineColumn) (c : Char) : LineColumn :=
  if c = '\n' then ⟨p.line + 1, 1⟩ else ⟨p.line, p.column + 1⟩

/-- The place `bytes` bytes behind `p`. An offset inside a character counts as the place behind
    that character. -/
def LineColumn.walk : LineColumn → Nat → List Char → LineColumn
  | p, 0, _ => p
  | p, _, [] => p
  | p, n + 1, c :: cs => walk (p.after c) (n + 1 - c.utf8Size) cs

/-- Line and column of a byte offset, unless the offset lies outside the text. The end of the text
    still has a place. -/
def Source.position? (s : Source) (offset : Int) : Option LineColumn :=
  if 0 ≤ offset ∧ offset ≤ s.size then
    some (LineColumn.start.walk offset.toNat s.chars)
  else none

/-! ## 3. Positions -/

/-- A byte offset in a source. -/
structure Pos where
  source : Source
  offset : Int
  deriving DecidableEq, Repr, Inhabited

/-- How a place outside every author's text is called. -/
def predefinedLocation : String := "<PREDEF>"

/-- `name:line:column`, or the marker of predefined code. -/
def Pos.location (p : Pos) : String :=
  match p.source.position? p.offset with
  | some place => s!"{p.source.name}:{place.line}:{place.column}"
  | none => predefinedLocation

/-- The offset, if it lies inside the author's text. -/
def Pos.authorOffset? (p : Pos) : Option Nat :=
  (p.source.position? p.offset).map fun _ => p.offset.toNat

/-- A message with its location in front. -/
def Pos.report (p : Pos) (message : String) : String :=
  s!"{p.location}: {message}"

/-- `name@offset`, whether the offset lies inside the text or not. -/
def Pos.tag (p : Pos) : String :=
  s!"{p.source.name}@{p.offset}"

/-! ## 4. Faults with a place -/

/-- Something that went wrong at a place. -/
structure At (α : Type) where
  fault : α
  pos : Pos
  deriving DecidableEq, Repr

end CallByNeed
