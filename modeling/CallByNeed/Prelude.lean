/-
  File:      CallByNeed/Prelude.lean
  Subject:   Definitions that a program finds already made.

  A prelude is text. It is put around the program before anything is read, so a definition sees the
  ones before it and the program sees them all:

      (\first.((\second.( PROGRAM ))(body of second)))(body of first)

  * `Definition`, `Prelude` -- a name with its body, and the choice of a prelude;
  * `standardDefinitions` -- the combinators and operators of the standard prelude;
  * `Prepared`, `prepare` -- the text that the parser reads, and where in it the program stands;
  * `Imbalance`, `imbalance?` -- a parenthesis or quote of the program without its partner.
-/
import CallByNeed.Layout

namespace CallByNeed

/-! ## 1. Definitions -/

/-- `name` stands for `body` in everything that follows. An operator's name is in parentheses. -/
structure Definition where
  name : String
  body : String
  deriving DecidableEq, Repr, Inhabited

/-- The standard prelude, outermost first. An operator gets its left operand first; `=:` is what
    `\x := value ; body` calls. -/
def standardDefinitions : List Definition := [
  ⟨"(=:)", "\\x.\\f.f x"⟩,
  ⟨"(|>)", "\\x.\\f.f x"⟩,
  ⟨"($)", "\\f.\\x.f x"⟩,
  ⟨"(+)", "\\l.\\r. @add l r"⟩,
  ⟨"(-)", "\\l.\\r. @sub l r"⟩,
  ⟨"(*)", "\\l.\\r. @mul l r"⟩,
  ⟨"(/)", "\\l.\\r. @div l r"⟩,
  ⟨"(%)", "\\l.\\r. @mod l r"⟩,
  ⟨"(**)", "\\f.\\g.\\x.f (g x)"⟩,
  ⟨"(!)", "@not"⟩,
  ⟨"(&)", "\\l.\\r. @and l r"⟩,
  ⟨"(|)", "\\l.\\r. @or l r"⟩,
  ⟨"if", "@if"⟩,
  ⟨"(==)", "@eq"⟩,
  ⟨"(!=)", "\\l.\\r. @not (@eq l r)"⟩,
  ⟨"(<=)", "\\l.\\r. @le l r"⟩,
  ⟨"(<)", "\\l.\\r. @lt l r"⟩,
  ⟨"(>=)", "\\l.\\r. @le r l"⟩,
  ⟨"(>)", "\\l.\\r. @lt r l"⟩,
  ⟨"print", "@print"⟩,
  ⟨"(,)", "\\l.\\r. @pair l r"⟩,
  ⟨"first", "@first"⟩,
  ⟨"second", "@second"⟩,
  ⟨"nil", "@nil"⟩,
  ⟨"(:)", "\\l.\\r. @append l r"⟩,
  ⟨"head", "@head"⟩,
  ⟨"tail", "@tail"⟩,
  ⟨"isEmpty", "@isEmpty"⟩,
  ⟨"I", "\\x.x"⟩,
  ⟨"K", "\\x.\\y.x"⟩,
  ⟨"S", "\\x.\\y.\\z.x z (y z)"⟩,
  ⟨"U", "\\f.f f"⟩,
  ⟨"Y", "\\f.U \\y.\\a.f (y y) a"⟩,
  ⟨"Z", "\\f.U \\z.f \\v.z z v"⟩]

/-- Which definitions a program finds. -/
inductive Prelude where
  | none
  | standard
  | custom (definitions : List Definition)
  deriving DecidableEq, Repr, Inhabited

/-- The definitions of a prelude, outermost first. -/
def Prelude.definitions : Prelude → List Definition
  | .none => []
  | .standard => standardDefinitions
  | .custom ds => ds

/-! ## 2. Wrapping a program -/

/-- What stands in front of the program. -/
def opening (defs : List Definition) : List Char :=
  defs.flatMap fun d => ['(', '\\'] ++ d.name.toList ++ ['.', '(']

/-- What stands behind the program: the bodies, innermost first. -/
def closing (defs : List Definition) : List Char :=
  defs.reverse.flatMap fun d => [')', ')', '('] ++ d.body.toList ++ [')']

/-- Text ready to be read. The part in front of the program, the program and the part behind it
    are blanked each on its own, so none of them can swallow another by a comment or a quote. -/
structure Prepared where
  front : List Char
  program : List Char
  back : List Char
  deriving DecidableEq, Repr, Inhabited

/-- Puts the definitions around a program and blanks the layout. -/
def prepare (program : List Char) (defs : List Definition) : Prepared where
  front := blankText (opening defs)
  program := blankText program
  back := blankText (closing defs)

/-- The whole text. -/
def Prepared.text (p : Prepared) : List Char := p.front ++ p.program ++ p.back

/-- Bytes in front of the program. -/
def Prepared.offset (p : Prepared) : Nat := byteCount p.front

/-! ## 3. Parentheses and quotes without a partner

  Inside a prelude, an open parenthesis of the program would find its partner in the prelude. So
  a program that is wrapped is looked through first. -/

/-- The first parenthesis or quote without a partner. -/
inductive Imbalance where
  /-- `)` at an offset, with nothing open. -/
  | close (offset : Nat)
  /-- `(` is open at the end. -/
  | paren
  /-- A string is open at the end. -/
  | string
  deriving DecidableEq, Repr, Inhabited

/-- Where a scan for partners stands. -/
inductive Nesting where
  | code
  | string
  /-- In a string, behind a backslash. -/
  | escape
  deriving DecidableEq, Repr, Inhabited

/-- Scans blanked text at `offset`, with `depth` parentheses open. -/
def imbalanceFrom : Nesting → (depth offset : Nat) → List Char → Option Imbalance
  | .code, 0, _, [] => none
  | .code, _ + 1, _, [] => some .paren
  | .string, _, _, [] => some .string
  | .escape, _, _, [] => some .string
  | .code, depth, offset, c :: cs =>
    if c = '"' then imbalanceFrom .string depth (offset + c.utf8Size) cs
    else if c = '(' then imbalanceFrom .code (depth + 1) (offset + c.utf8Size) cs
    else if c = ')' then
      match depth with
      | 0 => some (.close offset)
      | outer + 1 => imbalanceFrom .code outer (offset + c.utf8Size) cs
    else imbalanceFrom .code depth (offset + c.utf8Size) cs
  | .string, depth, offset, c :: cs =>
    if c = '\\' then imbalanceFrom .escape depth (offset + c.utf8Size) cs
    else if c = '"' then imbalanceFrom .code depth (offset + c.utf8Size) cs
    else imbalanceFrom .string depth (offset + c.utf8Size) cs
  | .escape, depth, offset, c :: cs => imbalanceFrom .string depth (offset + c.utf8Size) cs

/-- The first parenthesis or quote of a blanked text without a partner. -/
def imbalance? (text : List Char) : Option Imbalance :=
  imbalanceFrom .code 0 0 text

end CallByNeed
