/-
  File:      CallByNeed/Proofs/Bytewise/Reader.lean
  Subject:   Reading a program byte by byte.

  The text is kept as bytes, and a place in it is the number of bytes in front of it. Tokens are
  scanned for bytes, at any place, and cut out of the text only then. A cut whose ends do not both
  lie between two characters ends the reading at once (`Stop.insideCharacter`). The forms of a term
  are tried in turn, each of them from where the term begins.

  * `Stop`, `Sliced`, `firstOf` -- how such a reading can end, and readers tried in turn;
  * `ByteReading` -- the text, its author's part, and what is scanned and cut at a place;
  * `ByteReading.term?`, `ByteReading.line` -- one term, one line;
  * `imbalanceBytes`, `parseBytes` -- a whole program under its prelude.
-/
import CallByNeed.Proofs.Bytewise.Slice

namespace CallByNeed

/-! ## 1. How a reading ends -/

/-- Why a reading byte by byte ends. -/
inductive Stop where
  /-- A piece of the text was to be cut out that begins or ends inside a character. -/
  | insideCharacter
  | fault (e : At ParseFault)
  deriving DecidableEq, Repr

/-- The outcome of reading byte by byte. -/
abbrev Sliced (α : Type) := Except Stop α

/-- Tries readers in turn: the first one that reads something, or ends the reading, wins. -/
def firstOf {κ ε α : Type} : List (κ → Except ε (Option α)) → κ → Except ε (Option α)
  | [], _ => .ok none
  | reader :: readers, c => do
    match ← reader c with
    | some a => return some a
    | none => firstOf readers c

/-- A text that is read byte by byte, `front` bytes of it in front of its author's part. -/
structure ByteReading where
  source : Source
  limit : Nat
  text : List Char
  front : Nat
  deriving DecidableEq, Repr, Inhabited

/-- Reads a line: its tree, if it has one, and the place behind it. -/
abbrev ByteLine := Nat → Sliced (Option Expr × Nat)

/-- Reads a term: its tree and the place behind it, or nothing. -/
abbrev ByteTerm := Nat → Sliced (Option (Expr × Nat))

namespace ByteReading

/-! ## 2. Scanning and cutting -/

/-- The bytes from a place on. -/
def bytesAt (b : ByteReading) (i : Nat) : List UInt8 := (utf8 b.text).drop i

/-- Where the author's part ends. -/
def authorEnd (b : ByteReading) : Nat := b.front + b.source.size

/-- A place, counted from where the author's part begins. -/
def pos (b : ByteReading) (i : Nat) : Pos := ⟨b.source, i - b.front⟩

/-- A fault at a place. -/
def fail {α : Type} (b : ByteReading) (i : Nat) (fault : ParseFault) : Sliced α :=
  .error (.fault ⟨fault, b.pos i⟩)

/-- Cuts a piece out of the text. -/
def cut (b : ByteReading) (start stop : Nat) : Sliced (List Char) :=
  match slice? b.text start stop with
  | some piece => .ok piece
  | none => .error .insideCharacter

/-- Reads one byte, that of a given character. -/
def eat? (b : ByteReading) (ch : Char) (i : Nat) : Option Nat :=
  if (b.bytesAt i).head? = some (byteOf ch) then some (i + 1) else none

/-- Where the bytes of a class end. -/
def runEnd (b : ByteReading) (p : Char → Bool) (i : Nat) : Nat :=
  i + ((b.bytesAt i).takeWhile (onByte p)).length

/-- The place behind the spaces. -/
def skipSpaces (b : ByteReading) (i : Nat) : Nat := b.runEnd (· == ' ') i

/-- Cuts out the longest run of bytes in a class. -/
def span (b : ByteReading) (p : Char → Bool) (i : Nat) : Sliced (List Char × Nat) := do
  let stop := b.runEnd p i
  return (← b.cut i stop, stop)

/-- Cuts out the longest run of bytes in a class, if there is one. -/
def run? (b : ByteReading) (p : Char → Bool) (i : Nat) : Sliced (Option (String × Nat)) := do
  match ← b.span p i with
  | ([], _) => return none
  | (run, stop) => return some (String.ofList run, stop)

/-- What the author sees at a place. Inside a character this is its byte. -/
def seen (b : ByteReading) (i : Nat) : Seen :=
  if i = b.authorEnd then .endOfText
  else match splitBytes? i b.text with
    | some (_, ch :: _) => .char ch
    | _ => match b.bytesAt i with
      | byte :: _ => .char (charOf byte)
      | [] => .endOfText

/-- A missing piece. -/
def missing {α : Type} (b : ByteReading) (i : Nat) (expected : Expectation) : Sliced α :=
  b.fail i (.unexpected (b.seen i) expected)

/-- Reads a line that must not be empty. -/
def lineOr (b : ByteReading) (line : ByteLine) (i : Nat) (expected : Expectation) :
    Sliced (Expr × Nat) := do
  match ← line i with
  | (some e, stop) => return (e, stop)
  | (none, stop) => b.missing stop expected

/-- Reads one given character, behind any spaces. -/
def punctuation (b : ByteReading) (i : Nat) (ch : Char) (expected : Expectation) : Sliced Nat :=
  match b.eat? ch (b.skipSpaces i) with
  | some stop => .ok stop
  | none => b.missing (b.skipSpaces i) expected

/-! ## 3. Terms -/

/-- A form that begins with a given character, and what follows that character. -/
def headedBy (b : ByteReading) (ch : Char) (reader : Pos → ByteTerm) : ByteTerm := fun i =>
  match b.eat? ch i with
  | some stop => reader (b.pos i) stop
  | none => .ok none

/-- An operator in parentheses. -/
def bracketedOperator? (b : ByteReading) (i : Nat) : Sliced (Option (String × Nat)) :=
  match b.eat? '(' i with
  | none => .ok none
  | some inner => do
    match ← b.run? isOperatorChar (b.skipSpaces inner) with
    | none => return none
    | some (op, stop) => return (b.eat? ')' (b.skipSpaces stop)).map fun after => (op, after)

/-- A token that stands as a name. -/
def named (b : ByteReading) (token : Nat → Sliced (Option (String × Nat))) : ByteTerm := fun i => do
  return (← token i).map fun (x, stop) => (.name (b.pos i) x, stop)

/-- `line)` -/
def group (b : ByteReading) (line : ByteLine) : ByteTerm := fun i => do
  let (inner, stop) ← b.lineOr line i .parenBody
  let stop ← b.punctuation stop ')' .closingParen
  return some (inner, stop)

/-- The word behind `@`. -/
def builtin (b : ByteReading) (start : Pos) : ByteTerm := fun i => do
  match ← b.run? isNameChar i with
  | some (name, stop) => return some (.builtin start name, stop)
  | none => b.fail i .missingBuiltinName

/-- The parameter of a lambda: an operator in parentheses, a word, or nothing at all. -/
def param (b : ByteReading) (i : Nat) : Sliced (String × Nat) := do
  match ← b.bracketedOperator? i with
  | some named => return named
  | none => return (← b.run? isNameChar i).getD ("_", i)

/-- What follows the backslash of a lambda. -/
def lambda (b : ByteReading) (line : ByteLine) (start : Pos) : ByteTerm := fun i => do
  let (x, stop) ← b.param (b.skipSpaces i)
  let stop := b.skipSpaces stop
  match b.eat? '.' stop with
  | some stop =>
    let (body, stop) ← b.lineOr line stop .lambdaBody
    return some (.lambda start x body, stop)
  | none =>
    match ← b.run? isOperatorChar stop with
    | none => b.missing stop .dotOrOperator
    | some (op, stop) =>
      let (value, stop) ← b.lineOr line stop .boundValue
      let stop ← b.punctuation stop ';' .semicolon
      let (body, stop) ← b.lineOr line stop .definitionBody
      let partly : Expr := .apply start (.name start (Operator.flipped op)) value
      return some (.apply start partly (.lambda start x body), stop)

/-- A number. Its digits are cut out, and then the digits with the sign. -/
def number (b : ByteReading) : ByteTerm := fun i => do
  let digits := ((b.eat? '+' i).or (b.eat? '-' i)).getD i
  match ← b.span Char.isDigit digits with
  | ([], _) => return none
  | (_, stop) =>
    let numeral ← b.cut i stop
    match CallByNeed.word? (numeralValue numeral) with
    | some n => return some (.number (b.pos i) n, stop)
    | none => b.fail i (.numberOutOfRange (String.ofList numeral))

/-- What follows the first quote of a string. -/
def string (b : ByteReading) (start : Pos) : ByteTerm := fun i => do
  let stop := i + quoteEnd (b.bytesAt i)
  match b.eat? '"' stop with
  | none => b.fail stop .unterminatedString
  | some after =>
    let body ← b.cut i stop
    return some (.string start (unescape (String.ofList body)), after)

/-- The forms of a term, in the order in which they are tried. -/
def forms (b : ByteReading) (line : ByteLine) : List ByteTerm := [
  b.named b.bracketedOperator?,
  b.headedBy '(' fun _ => b.group line,
  b.headedBy '@' b.builtin,
  b.headedBy '\\' (b.lambda line),
  b.number,
  b.headedBy '"' b.string,
  b.named (b.run? isNameChar)]

/-- A term, from behind the spaces in front of it. -/
def term? (b : ByteReading) (line : ByteLine) : ByteTerm := firstOf (b.forms line)

/-! ## 4. Lines -/

/-- What stands in front of an operand: an operator, or nothing. -/
def jointAt (b : ByteReading) (i : Nat) : Sliced (Joint × Nat) := do
  match ← b.run? isOperatorChar i with
  | some (x, stop) => return (.operator (b.pos i) x, stop)
  | none => return (.sideBySide, i)

/-- Reads operands until no term begins. `bytes`, the bytes left, bounds their number. -/
def operands (b : ByteReading) (term : ByteTerm) :
    (bytes : List UInt8) → (done : List (Joint × Expr)) → Nat →
      Sliced (List (Joint × Expr) × Nat)
  | [], done, i => .ok (done.reverse, i)
  | _ :: bytes, done, i => do
    let (op, stop) ← b.jointAt (b.skipSpaces i)
    let stop := b.skipSpaces stop
    match ← term stop with
    | some (operand, stop) => b.operands term bytes ((op, operand) :: done) stop
    | none =>
      match op with
      | .sideBySide => return (done.reverse, stop)
      | .operator .. => b.missing stop .operand

/-- Reads the flat sequence of a line. -/
def flatLine (b : ByteReading) (term : ByteTerm) (i : Nat) : Sliced (Line × Nat) := do
  let start := b.skipSpaces i
  let (first, stop) := match ← term start with
    | some (e, stop) => (some e, stop)
    | none => (none, start)
  let (further, stop) ← b.operands term (b.bytesAt stop) [] stop
  return (⟨first, further⟩, stop)

/-- Reads a line while `levels` more levels of lines are allowed. -/
def line (b : ByteReading) : (levels : Nat) → ByteLine
  | 0, i => b.fail i (.tooDeep b.limit)
  | levels + 1, i => do
    let (l, stop) ← b.flatLine (b.term? (b.line levels)) i
    return (l.tree?, stop)

end ByteReading

/-! ## 5. Programs -/

/-- Scans bytes for partners, `depth` parentheses being open at `offset`. -/
def imbalanceBytes : Nesting → (depth offset : Nat) → List UInt8 → Option Imbalance
  | .code, 0, _, [] => none
  | .code, _ + 1, _, [] => some .paren
  | .string, _, _, [] => some .string
  | .escape, _, _, [] => some .string
  | .code, depth, offset, b :: bs =>
    if b = byteOf '"' then imbalanceBytes .string depth (offset + 1) bs
    else if b = byteOf '(' then imbalanceBytes .code (depth + 1) (offset + 1) bs
    else if b = byteOf ')' then
      match depth with
      | 0 => some (.close offset)
      | outer + 1 => imbalanceBytes .code outer (offset + 1) bs
    else imbalanceBytes .code depth (offset + 1) bs
  | .string, depth, offset, b :: bs =>
    if b = byteOf '\\' then imbalanceBytes .escape depth (offset + 1) bs
    else if b = byteOf '"' then imbalanceBytes .code depth (offset + 1) bs
    else imbalanceBytes .string depth (offset + 1) bs
  | .escape, depth, offset, _ :: bs => imbalanceBytes .string depth (offset + 1) bs

namespace ByteReading

/-- Refuses an author's part with a parenthesis or a quote that has no partner. Were the part not
    one between characters, it would not be looked at. -/
def balanced (b : ByteReading) : Sliced Unit :=
  match slice? b.text b.front b.authorEnd with
  | none => .ok ()
  | some part =>
    match imbalanceBytes .code 0 0 (utf8 part) with
    | none => .ok ()
    | some (.close offset) => b.fail (b.front + offset) (.trailing (.char ')'))
    | some .paren => b.fail b.authorEnd (.unexpected .endOfText .closingParen)
    | some .string => b.fail b.authorEnd .unterminatedString

/-- Reads a whole text: one line, and nothing behind it. -/
def whole (b : ByteReading) : Sliced Expr := do
  let (program, stop) ← b.line b.limit 0
  let stop := b.skipSpaces stop
  match b.bytesAt stop, program with
  | _ :: _, _ => b.fail stop (.trailing (b.seen stop))
  | [], none => b.missing stop .expression
  | [], some program => return program

end ByteReading

/-- Reads a program under the definitions `defs`, byte by byte. -/
def parseBytes (source : Source) (defs : List Definition) (maxDepth : Nat) : Sliced Expr := do
  let reading : ByteReading :=
    ⟨source, maxDepth, (prepare source.chars defs).text, byteCount (opening defs)⟩
  if !defs.isEmpty then
    reading.balanced
  reading.whole

end CallByNeed
