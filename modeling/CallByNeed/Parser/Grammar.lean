/-
  File:      CallByNeed/Parser/Grammar.lean
  Subject:   Reading programs.

      line   := term? (operator? term)*
      term   := '(' operator ')' | '(' line ')' | '@' word | lambda | numeral | string | word
      lambda := '\' param? '.' line
              | '\' param? operator line ';' line

  The first character of a term settles which form it has. A form that begins and then misses a
  piece ends the reading with a fault. Lines stand inside each other only through parentheses and
  lambdas, and the levels still allowed are what the recursion goes down on.

  * `Reading` -- what does not change while a text is read, and how faults get their place;
  * `Reading.term?`, `Reading.line` -- one term, one line;
  * `parse` -- a whole program under its prelude.
-/
import CallByNeed.Parser.Cursor
import CallByNeed.Parser.Fault
import CallByNeed.Parser.Line
import CallByNeed.Prelude

namespace CallByNeed

/-! ## 1. What a reading keeps at hand -/

/-- The source that is read and the levels of lines it may have. -/
structure Reading where
  source : Source
  limit : Nat
  deriving DecidableEq, Repr, Inhabited

/-- The outcome of reading: something, or a fault with its place. -/
abbrev Parsed (α : Type) := Except (At ParseFault) α

/-- Reads a line: its tree, if it has one, and the cursor behind it. -/
abbrev LineReader := Cursor → Parsed (Option Expr × Cursor)

/-- Reads a term: its tree and the cursor behind it, or nothing if no term begins there. -/
abbrev TermReader := Cursor → Parsed (Option (Expr × Cursor))

namespace Reading

/-- The place of a cursor. -/
def pos (r : Reading) (c : Cursor) : Pos := ⟨r.source, c.offset⟩

/-- A fault where the cursor stands. -/
def fail {α : Type} (r : Reading) (c : Cursor) (fault : ParseFault) : Parsed α :=
  .error ⟨fault, r.pos c⟩

/-- What the author sees under the cursor: behind the last character of the text there is nothing,
    even if a prelude goes on there. -/
def seen (r : Reading) (c : Cursor) : Seen :=
  if c.offset = r.source.size then .endOfText
  else match c.rest with
    | ch :: _ => .char ch
    | [] => .endOfText

/-- A missing piece. -/
def missing {α : Type} (r : Reading) (c : Cursor) (expected : Expectation) : Parsed α :=
  r.fail c (.unexpected (r.seen c) expected)

/-- Reads a line that must not be empty. -/
def lineOr (r : Reading) (line : LineReader) (c : Cursor) (expected : Expectation) :
    Parsed (Expr × Cursor) := do
  match ← line c with
  | (some e, c') => return (e, c')
  | (none, c') => r.missing c' expected

/-- Reads one given character, behind any spaces. -/
def punctuation (r : Reading) (c : Cursor) (ch : Char) (expected : Expectation) :
    Parsed Cursor :=
  match c.skipSpaces.eat? ch with
  | some c' => .ok c'
  | none => r.missing c.skipSpaces expected

/-! ## 2. Terms -/

/-- `(line)`, from behind the parenthesis. The tree keeps the place of its inside. -/
def group (r : Reading) (line : LineReader) (c : Cursor) : Parsed (Option (Expr × Cursor)) := do
  let (inner, c) ← r.lineOr line c .parenBody
  let c ← r.punctuation c ')' .closingParen
  return some (inner, c)

/-- `@word`, from behind the sign. -/
def builtin (r : Reading) (start : Pos) (c : Cursor) : Parsed (Option (Expr × Cursor)) :=
  match c.word? with
  | some (name, c') => .ok (some (.builtin start name, c'))
  | none => r.fail c .missingBuiltinName

/-- The parameter of a lambda: a word, an operator in parentheses, or nothing at all. -/
def param (c : Cursor) : String × Cursor :=
  match c.bracketedOperator? with
  | some named => named
  | none => c.word?.getD ("_", c)

/-- A lambda, from behind the backslash. `\x op value ; body` hands the value and `\x. body` to the
    flipped operator. -/
def lambda (r : Reading) (line : LineReader) (start : Pos) (c : Cursor) :
    Parsed (Option (Expr × Cursor)) := do
  let (x, c) := param c.skipSpaces
  let c := c.skipSpaces
  match c.eat? '.' with
  | some c =>
    let (body, c) ← r.lineOr line c .lambdaBody
    return some (.lambda start x body, c)
  | none =>
    match c.operator? with
    | none => r.missing c .dotOrOperator
    | some (op, c) =>
      let (value, c) ← r.lineOr line c .boundValue
      let c ← r.punctuation c ';' .semicolon
      let (body, c) ← r.lineOr line c .definitionBody
      let partly : Expr := .apply start (.name start (Operator.flipped op)) value
      return some (.apply start partly (.lambda start x body), c)

/-- A string, from behind its first quote. -/
def string (r : Reading) (start : Pos) (c : Cursor) : Parsed (Option (Expr × Cursor)) :=
  match c.stringBody with
  | .ok (body, c') => .ok (some (.string start (unescape (String.ofList body)), c'))
  | .error stop => r.fail stop .unterminatedString

/-- A number or a name. -/
def plain (r : Reading) (c : Cursor) : Parsed (Option (Expr × Cursor)) :=
  match c.numeral? with
  | some (numeral, c') =>
    match word? (numeralValue numeral) with
    | some n => .ok (some (.number (r.pos c) n, c'))
    | none => r.fail c (.numberOutOfRange (String.ofList numeral))
  | none =>
    .ok (c.word?.map fun (name, c') => (.name (r.pos c) name, c'))

/-- A term, with the cursor already behind the spaces in front of it. -/
def term? (r : Reading) (line : LineReader) : TermReader := fun c =>
  match c.rest with
  | '(' :: rest =>
    match c.bracketedOperator? with
    | some (op, c') => .ok (some (.name (r.pos c) op, c'))
    | none => r.group line ⟨rest, c.offset + 1⟩
  | '@' :: rest => r.builtin (r.pos c) ⟨rest, c.offset + 1⟩
  | '\\' :: rest => r.lambda line (r.pos c) ⟨rest, c.offset + 1⟩
  | '"' :: rest => r.string (r.pos c) ⟨rest, c.offset + 1⟩
  | _ => r.plain c

/-! ## 3. Lines -/

/-- What stands in front of an operand: an operator, or nothing. -/
def jointAt (r : Reading) (c : Cursor) : Joint × Cursor :=
  match c.operator? with
  | some (name, c') => (.operator (r.pos c) name, c')
  | none => (.sideBySide, c)

/-- Reads operands until no term begins. Every operand takes at least one character, so there are
    no more of them than `chars`, the characters left, and that list is what the recursion goes
    down on. `done` holds the operands read, last one first. -/
def operands (r : Reading) (term : TermReader) :
    (chars : List Char) → (done : List (Joint × Expr)) → Cursor →
      Parsed (List (Joint × Expr) × Cursor)
  | [], done, c => .ok (done.reverse, c)
  | _ :: chars, done, c =>
    let (op, c) := r.jointAt c.skipSpaces
    let c := c.skipSpaces
    match term c with
    | .error fault => .error fault
    | .ok (some (operand, c')) => r.operands term chars ((op, operand) :: done) c'
    | .ok none =>
      match op with
      | .sideBySide => .ok (done.reverse, c)
      | .operator .. => r.missing c .operand

/-- Reads the flat sequence of a line. -/
def flatLine (r : Reading) (term : TermReader) (c : Cursor) : Parsed (Line × Cursor) := do
  let c := c.skipSpaces
  let (first, c) := match ← term c with
    | some (e, c') => (some e, c')
    | none => (none, c)
  let (further, c) ← r.operands term c.rest [] c
  return (⟨first, further⟩, c)

/-- Reads a line while `levels` more levels of lines are allowed. -/
def line (r : Reading) : (levels : Nat) → LineReader
  | 0, c => r.fail c (.tooDeep r.limit)
  | levels + 1, c => do
    let (l, c) ← r.flatLine (r.term? (r.line levels)) c
    return (l.tree?, c)

/-! ## 4. Programs -/

/-- Refuses a program that would find the partner of a parenthesis or a quote in the prelude. -/
def balanced (r : Reading) (program : List Char) : Parsed Unit :=
  let stop : Pos := ⟨r.source, r.source.size⟩
  match imbalance? program with
  | none => .ok ()
  | some (.close offset) => .error ⟨.trailing (.char ')'), r.source, offset⟩
  | some .paren => .error ⟨.unexpected .endOfText .closingParen, stop⟩
  | some .string => .error ⟨.unterminatedString, stop⟩

/-- Reads a whole text: one line, and nothing behind it. -/
def whole (r : Reading) (c : Cursor) : Parsed Expr := do
  let (program, c) ← r.line r.limit c
  let c := c.skipSpaces
  match c.rest, program with
  | _ :: _, _ => r.fail c (.trailing (r.seen c))
  | [], none => r.missing c .expression
  | [], some program => return program

end Reading

/-- Levels of lines that a program may have unless its reader says otherwise. -/
def defaultDepth : Nat := 1000

/-- Reads a program under the definitions `defs`. Places count from the start of the author's text;
    nodes of the definitions lie outside it. -/
def parse (source : Source) (defs : List Definition) (maxDepth : Nat) : Parsed Expr := do
  let prepared := prepare source.chars defs
  let reading : Reading := ⟨source, maxDepth⟩
  if !defs.isEmpty then
    reading.balanced prepared.program
  reading.whole ⟨prepared.text, -(prepared.offset : Int)⟩

end CallByNeed
