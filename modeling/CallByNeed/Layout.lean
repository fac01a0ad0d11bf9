/-
  File:      CallByNeed/Layout.lean
  Subject:   Layout and comments become blanks.

  Before a text is read, line breaks, tabs and comments are replaced by spaces, byte for byte, so
  that an offset into the result still names the same character.

  * `Region` -- what the next character of a text belongs to: code, a comment or a string;
  * `Region.step`, `Region.blanked` -- where a character leads, and what is left of it;
  * `blankText` -- the text with its layout blanked;
  * `blankFrom_cons` -- the first character, and then the rest from where it leads.
-/
import CallByNeed.Text.Bytes

namespace CallByNeed

/-- What the next character of a text belongs to. -/
inductive Region where
  | code
  /-- Behind `#`, up to the end of the line. -/
  | comment
  | string
  /-- In a string, behind a backslash. -/
  | escape
  deriving DecidableEq, Repr, Inhabited

/-- The region behind a character. -/
def Region.step : Region → Char → Region
  | .code, c => if c = '#' then .comment else if c = '"' then .string else .code
  | .comment, c => if c = '\n' then .code else .comment
  | .string, c => if c = '\\' then .escape else if c = '"' then .code else .string
  | .escape, _ => .string

/-- Layout characters: they separate, and mean nothing else. -/
def isLayoutChar (c : Char) : Bool :=
  c == '\n' || c == '\r' || c == '\t' || c == '\x0b'

/-- What is left of a character: as many spaces as it has bytes, or the character itself. -/
def Region.blanked (r : Region) (c : Char) : List Char :=
  match r with
  | .comment => List.replicate c.utf8Size ' '
  | .code => if isLayoutChar c || c == '#' then [' '] else [c]
  | .string | .escape => if isLayoutChar c then [' '] else [c]

/-- Blanks a text that starts in region `r`; `done` holds what is finished, last character first. -/
def blankOnto (done : List Char) : Region → List Char → List Char
  | _, [] => done.reverse
  | r, c :: cs => blankOnto ((r.blanked c).reverse ++ done) (r.step c) cs

/-- Blanks a text that starts in region `r`. -/
def blankFrom (r : Region) (cs : List Char) : List Char :=
  blankOnto [] r cs

/-- A text with its layout and its comments blanked. -/
def blankText (cs : List Char) : List Char :=
  blankFrom .code cs

/-! ## Character by character -/

theorem blankOnto_eq (done : List Char) (r : Region) (cs : List Char) :
    blankOnto done r cs = done.reverse ++ blankFrom r cs := by
  induction cs generalizing done r with
  | nil => simp [blankFrom, blankOnto]
  | cons c cs ih =>
    rw [blankFrom, blankOnto, blankOnto, ih, ih]
    simp [List.append_assoc]

@[simp] theorem blankFrom_nil (r : Region) : blankFrom r [] = [] := rfl

@[simp] theorem blankFrom_cons (r : Region) (c : Char) (cs : List Char) :
    blankFrom r (c :: cs) = r.blanked c ++ blankFrom (r.step c) cs := by
  rw [blankFrom, blankOnto, blankOnto_eq]
  simp

end CallByNeed
