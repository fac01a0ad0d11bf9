/-
  File:      CallByNeed/Diagnostic.lean
  Subject:   Compile faults for people: where to look, and what to do.

  * `Span`, `Pos.span?` -- the word that a fault points at;
  * `CompileFault.help?` -- a hint, for the faults that have one;
  * `Diagnostic`, `CompileFault.diagnostic` -- all of it together.
-/
import CallByNeed.Program
import CallByNeed.Text.CharClass

namespace CallByNeed

/-- Bytes of a text from `start` up to but not including `stop`. -/
structure Span where
  start : Nat
  stop : Nat
  deriving DecidableEq, Repr, Inhabited

/-- Bytes that a span covers. -/
def Span.size (s : Span) : Nat := s.stop - s.start

/-- The text behind the first `bytes` bytes. -/
def dropBytes : Nat → List Char → List Char
  | 0, cs => cs
  | _, [] => []
  | n + 1, c :: cs => dropBytes (n + 1 - c.utf8Size) cs

/-- Whether a character ends the word in front of it. -/
def endsWord (c : Char) : Bool := isBlankChar c || c == '(' || c == ')'

/-- Bytes of the word at the head of a text. The first character always belongs to it. -/
def wordBytes : List Char → Nat
  | [] => 0
  | c :: cs =>
    if endsWord c then c.utf8Size
    else c.utf8Size + byteCount (cs.takeWhile fun d => !endsWord d)

/-- The word that a place points at, unless the place lies in predefined code. -/
def Pos.span? (p : Pos) : Option Span :=
  p.authorOffset?.map fun start =>
    ⟨start, start + wordBytes (dropBytes start p.source.chars)⟩

/-- A hint on how to mend a fault. -/
def CompileFault.help? : CompileFault → Option String
  | .parse ⟨.tooDeep _, _⟩ => some "split the expression into smaller definitions"
  | .bind ⟨.unbound _, _⟩ =>
    some "names are bound by an enclosing `\\name.` or by the prelude"
  | .bind ⟨.arity missing, _⟩ =>
    let plural := if missing = 1 then "" else "s"
    some s!"the builtin needs {missing} more argument{plural}"
  | _ => none

/-- A compile fault in a form that can be drawn. -/
structure Diagnostic where
  message : String
  location : String
  span : Option Span
  help : Option String
  deriving DecidableEq, Repr, Inhabited

/-- The diagnostic of a fault. -/
def CompileFault.diagnostic (e : CompileFault) : Diagnostic where
  message := e.detail
  location := e.pos.location
  span := e.pos.span?
  help := e.help?

/-- The diagnostic on one line. -/
def Diagnostic.line (d : Diagnostic) : String := d.location ++ ": " ++ d.message

end CallByNeed
