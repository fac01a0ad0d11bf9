/-
  File:      CallByNeed/Proofs/Backtracking/Reader.lean
  Subject:   Reading a program with one cursor that is moved and put back.

  The reader has a state: where the cursor stands, the places it may be put back to, and how many
  lines stand inside each other. A form of a term moves the cursor while it looks whether it fits;
  if it does not, the cursor is put back to the place saved last. A line keeps its operands and
  its operators on two stacks and combines them as it goes. Nothing here bounds the loops and the
  lines inside lines, so a reading takes a number of rounds and may come to nothing with them. What
  the reader does on the way is written to a log that no reader looks at.

  * `Stacks`, `combine` -- operands and operators of a line that is not read to its end;
  * `Track`, `Event`, `Tracked` -- the state, what is logged, readers that change the state;
  * `Track.save`, `Track.restore`, `Track.discard`, `attempt` -- the saved places;
  * `Backtracking.term`, `Backtracking.line` -- one term, one line;
  * `parseBacktracking` -- a whole program under its prelude.
-/
import CallByNeed.Proofs.Bytewise.Reader

namespace CallByNeed

/-! ## 1. Stacks -/

/-- Operands and operators that are not combined yet, the last one first. An operand is missing if
    the line starts with an operator. -/
structure Stacks where
  operands : List (Option Expr)
  operators : List Joint
  deriving DecidableEq, Repr, Inhabited

/-- Takes two operands off and puts their combination by an operator there. With fewer operands, or
    without the right one, what was taken off is lost. -/
def combine (op : Joint) : List (Option Expr) → List (Option Expr)
  | some right :: left :: operands => some (Waiting.close ⟨left, op⟩ right) :: operands
  | operands => operands.drop 2

/-! ## 2. Readers with a state -/

/-- What a reading does on its way. -/
inductive Event where
  /-- A line begins at `inner` inside of one that began at `outer`. -/
  | nested (outer inner : Nat)
  /-- Another operand is looked for. -/
  | turn (held : Stacks)
  /-- The operator on top is combined with its operands. -/
  | combined (held : Stacks)
  deriving DecidableEq, Repr

/-- The state of a reading. -/
structure Track where
  /-- Bytes in front of the cursor. -/
  place : Nat
  /-- Places that the cursor may be put back to, the last one first. -/
  saved : List Nat
  /-- Lines that stand inside each other. -/
  depth : Nat
  /-- What happened, the last thing first. -/
  log : List Event
  deriving DecidableEq, Repr, Inhabited

/-- How a reading with a state comes out. -/
inductive TrackedOutcome (α : Type) where
  /-- It returns, with a result or with a fault. -/
  | returned (result : Parsed α) (t : Track)
  /-- A piece of the text was to be cut out that begins or ends inside a character. -/
  | insideCharacter
  /-- The rounds did not suffice. -/
  | unfinished
  deriving DecidableEq, Repr

/-- Readers that change the state. -/
def Tracked (α : Type) : Type := Track → TrackedOutcome α

/-- Goes on with a result. A fault ends the reading. -/
def TrackedOutcome.andThen {α β : Type} (x : TrackedOutcome α) (f : α → Tracked β) :
    TrackedOutcome β :=
  match x with
  | .returned (.ok a) t => f a t
  | .returned (.error fault) t => .returned (.error fault) t
  | .insideCharacter => .insideCharacter
  | .unfinished => .unfinished

instance : Monad Tracked where
  pure a := fun t => .returned (.ok a) t
  bind m f := fun t => (m t).andThen f

namespace Track

/-- The cursor stands at the start of a text. -/
def start : Track := ⟨0, [], 0, []⟩

/-- The cursor at another place. -/
def moved (t : Track) (place : Nat) : Track := { t with place }

/-- Saves the place of the cursor. -/
def save (t : Track) : Track := { t with saved := t.place :: t.saved }

/-- Puts the cursor back to the place saved last. -/
def restore (t : Track) : Track :=
  match t.saved with
  | place :: saved => { t with place, saved }
  | [] => t

/-- Forgets the place saved last. -/
def discard (t : Track) : Track := { t with saved := t.saved.tail }

/-- Writes to the log. -/
def record (t : Track) (e : Event) : Track := { t with log := e :: t.log }

end Track

namespace Tracked

/-- Where the cursor stands. -/
def place : Tracked Nat := fun t => .returned (.ok t.place) t

/-- Changes the state. -/
def change (f : Track → Track) : Tracked Unit := fun t => .returned (.ok ()) (f t)

/-- Writes to the log. -/
def record (e : Event) : Tracked Unit := change fun t => t.record e

/-- Too few rounds. -/
def unfinished {α : Type} : Tracked α := fun _ => .unfinished

/-- Reads without the cursor. -/
def ofSliced {α : Type} (x : Sliced α) : Tracked α := fun t =>
  match x with
  | .ok a => .returned (.ok a) t
  | .error .insideCharacter => .insideCharacter
  | .error (.fault fault) => .returned (.error fault) t

end Tracked

/-- Tries an alternative. The cursor is put back if it does not match. -/
def attempt {α : Type} (alternative : Tracked (Option α)) : Tracked (Option α) := fun t =>
  match alternative t.save with
  | .returned (.ok none) u => .returned (.ok none) u.restore
  | .returned result u => .returned result u.discard
  | .insideCharacter => .insideCharacter
  | .unfinished => .unfinished

/-- Tries alternatives in turn: the first one that matches wins. -/
def attemptEach {α : Type} : List (Tracked (Option α)) → Tracked (Option α)
  | [] => pure none
  | alternative :: alternatives => do
    match ← attempt alternative with
    | some a => return some a
    | none => attemptEach alternatives

open Tracked

/-! ## 3. Combining operands -/

/-- Combines the operators that take their right operand before `op` does. -/
def combineBefore (op : Joint) : List (Option Expr) → List Joint → Tracked Stacks
  | operands, [] => return ⟨operands, []⟩
  | operands, waiting :: operators =>
    if Operator.bindsFirst waiting.symbol op.symbol then do
      record (.combined ⟨operands, waiting :: operators⟩)
      combineBefore op (combine waiting operands) operators
    else return ⟨operands, waiting :: operators⟩

/-- Combines all operators; the operand on top is the tree of the line. -/
def combineAll : List (Option Expr) → List Joint → Tracked (Option Expr)
  | operands, [] => return operands.head?.join
  | operands, waiting :: operators => do
    record (.combined ⟨operands, waiting :: operators⟩)
    combineAll (combine waiting operands) operators

/-! ## 4. Tokens -/

/-- A text that is read with a cursor; `bounded` says whether there is a limit to the lines that
    stand inside each other. -/
structure Backtracking where
  bytes : ByteReading
  bounded : Bool
  deriving DecidableEq, Repr, Inhabited

namespace Backtracking

/-- Bytes of the text. -/
def size (r : Backtracking) : Nat := (utf8 r.bytes.text).length

/-- A fault at a place. -/
def failAt {α : Type} (r : Backtracking) (place : Nat) (fault : ParseFault) : Tracked α := fun t =>
  .returned (.error ⟨fault, r.bytes.pos place⟩) t

/-- A fault where the cursor stands. -/
def fail {α : Type} (r : Backtracking) (fault : ParseFault) : Tracked α := do
  r.failAt (← place) fault

/-- A missing piece. -/
def missing {α : Type} (r : Backtracking) (expected : Expectation) : Tracked α := do
  r.fail (.unexpected (r.bytes.seen (← place)) expected)

/-- Moves the cursor forward, at most to the end of the text. -/
def advance (r : Backtracking) (n : Nat) (t : Track) : Track := t.moved (min (t.place + n) r.size)

/-- Whether the cursor stands in front of the byte of a character. -/
def faces (r : Backtracking) (ch : Char) (t : Track) : Bool :=
  (r.bytes.bytesAt t.place).head? = some (byteOf ch)

/-- Reads one byte, that of a given character. -/
def eat (r : Backtracking) (ch : Char) : Tracked Bool := fun t =>
  if r.faces ch t then .returned (.ok true) (r.advance 1 t) else .returned (.ok false) t

/-- Reads on behind the spaces. -/
def skipSpaces (r : Backtracking) : Tracked Unit :=
  change fun t => t.moved (r.bytes.skipSpaces t.place)

/-- Cuts a piece out of the text. -/
def cut (r : Backtracking) (start stop : Nat) : Tracked (List Char) :=
  ofSliced (r.bytes.cut start stop)

/-- Reads the longest run of bytes in a class. -/
def takeWhile (r : Backtracking) (p : Char → Bool) : Tracked (List Char) := do
  let start ← place
  let stop := r.bytes.runEnd p start
  change fun t => t.moved stop
  r.cut start stop

/-- Reads the longest run of bytes in a class, if there is one. -/
def run (r : Backtracking) (p : Char → Bool) : Tracked (Option String) := do
  match ← r.takeWhile p with
  | [] => return none
  | run => return some (String.ofList run)

/-- An operator in parentheses. -/
def bracketedOperator (r : Backtracking) : Tracked (Option String) := do
  if ← r.eat '(' then
    r.skipSpaces
    match ← r.run isOperatorChar with
    | none => return none
    | some op =>
      r.skipSpaces
      if ← r.eat ')' then return some op else return none
  else return none

/-- Reads up to the closing quote of a string, or to the end of the text. A backslash takes one more
    byte along. -/
def quoteLoop (r : Backtracking) : (rounds : Nat) → Tracked Unit
  | 0 => unfinished
  | rounds + 1 => fun t =>
    if t.place < r.size && !r.faces '"' t then
      r.quoteLoop rounds (r.advance 1 (if r.faces '\\' t then r.advance 1 t else t))
    else .returned (.ok ()) t

/-! ## 5. Terms -/

/-- Reads a line that must not be empty. -/
def lineOr (r : Backtracking) (line : Tracked (Option Expr)) (expected : Expectation) :
    Tracked Expr := do
  match ← line with
  | some e => return e
  | none => r.missing expected

/-- Reads one given character, behind any spaces. -/
def punctuation (r : Backtracking) (ch : Char) (expected : Expectation) : Tracked Unit := do
  r.skipSpaces
  if ← r.eat ch then return () else r.missing expected

/-- A form that begins with a given character, and what follows that character. -/
def headedBy (r : Backtracking) (ch : Char) (reader : Pos → Tracked (Option Expr)) :
    Tracked (Option Expr) := do
  let start ← place
  if ← r.eat ch then reader (r.bytes.pos start) else return none

/-- A token that stands as a name. -/
def named (r : Backtracking) (token : Tracked (Option String)) : Tracked (Option Expr) := do
  let start ← place
  return (← token).map (.name (r.bytes.pos start))

/-- `line)` -/
def group (r : Backtracking) (line : Tracked (Option Expr)) : Tracked (Option Expr) := do
  let inner ← r.lineOr line .parenBody
  r.punctuation ')' .closingParen
  return some inner

/-- The word behind `@`. -/
def builtin (r : Backtracking) (start : Pos) : Tracked (Option Expr) := do
  match ← r.run isNameChar with
  | some name => return some (.builtin start name)
  | none => r.fail .missingBuiltinName

/-- The parameter of a lambda: an operator in parentheses, a word, or nothing at all. -/
def param (r : Backtracking) : Tracked String := do
  match ← attempt r.bracketedOperator with
  | some op => return op
  | none => return (← attempt (r.run isNameChar)).getD "_"

/-- What follows the backslash of a lambda. -/
def lambda (r : Backtracking) (line : Tracked (Option Expr)) (start : Pos) :
    Tracked (Option Expr) := do
  r.skipSpaces
  let x ← r.param
  r.skipSpaces
  if ← r.eat '.' then
    let body ← r.lineOr line .lambdaBody
    return some (.lambda start x body)
  else
    match ← attempt (r.run isOperatorChar) with
    | none => r.missing .dotOrOperator
    | some op =>
      let value ← r.lineOr line .boundValue
      r.punctuation ';' .semicolon
      let body ← r.lineOr line .definitionBody
      let partly : Expr := .apply start (.name start (Operator.flipped op)) value
      return some (.apply start partly (.lambda start x body))

/-- A number, with its sign. -/
def number (r : Backtracking) : Tracked (Option Expr) := do
  let start ← place
  change fun t => if r.faces '+' t || r.faces '-' t then r.advance 1 t else t
  match ← r.takeWhile Char.isDigit with
  | [] => return none
  | _ =>
    let numeral ← r.cut start (← place)
    match word? (numeralValue numeral) with
    | some n => return some (.number (r.bytes.pos start) n)
    | none => r.failAt start (.numberOutOfRange (String.ofList numeral))

/-- What follows the first quote of a string. -/
def string (r : Backtracking) (rounds : Nat) (start : Pos) : Tracked (Option Expr) := do
  let inside ← place
  r.quoteLoop rounds
  let stop ← place
  if ← r.eat '"' then
    let body ← r.cut inside stop
    return some (.string start (unescape (String.ofList body)))
  else r.fail .unterminatedString

/-- The forms of a term, in the order in which they are tried. -/
def forms (r : Backtracking) (rounds : Nat) (line : Tracked (Option Expr)) :
    List (Tracked (Option Expr)) := [
  r.named r.bracketedOperator,
  r.headedBy '(' fun _ => r.group line,
  r.headedBy '@' r.builtin,
  r.headedBy '\\' (r.lambda line),
  r.number,
  r.headedBy '"' (r.string rounds),
  r.named (r.run isNameChar)]

/-- A term, with the spaces in front of it. -/
def term (r : Backtracking) (rounds : Nat) (line : Tracked (Option Expr)) :
    Tracked (Option Expr) := do
  r.skipSpaces
  attemptEach (r.forms rounds line)

/-! ## 6. Lines -/

/-- What stands in front of an operand: an operator that begins at `start`, or nothing. -/
def jointOf (start : Pos) : Option String → Joint
  | some op => .operator start op
  | none => .sideBySide

/-- Reads operands and operators until no term begins, `turns` times at most. -/
def operands (r : Backtracking) (term : Tracked (Option Expr)) :
    (turns : Nat) → Stacks → Tracked Stacks
  | 0, _ => unfinished
  | turns + 1, held => do
    record (.turn held)
    r.skipSpaces
    let start ← place
    let op ← attempt (r.run isOperatorChar)
    match ← term, op with
    | none, some _ => r.missing .operand
    | none, none => return held
    | some operand, op =>
      let joint := jointOf (r.bytes.pos start) op
      let held ← combineBefore joint held.operands held.operators
      r.operands term turns ⟨some operand :: held.operands, joint :: held.operators⟩

/-- A line that may stand as deep as it does. -/
def lineInside (r : Backtracking) (rounds : Nat) (line : Tracked (Option Expr)) :
    Tracked (Option Expr) := do
  let first ← r.term rounds line
  let held ← r.operands (r.term rounds line) rounds ⟨[first], []⟩
  combineAll held.operands held.operators

/-- Reads one level deeper. -/
def deeper {α : Type} (m : Tracked α) : Tracked α := fun t =>
  match m { t with depth := t.depth + 1 } with
  | .returned result u => .returned result { u with depth := u.depth - 1 }
  | .insideCharacter => .insideCharacter
  | .unfinished => .unfinished

/-- A line inside of one that began at `outer`. -/
def nested (outer : Nat) (line : Tracked (Option Expr)) : Tracked (Option Expr) := do
  record (.nested outer (← place))
  line

/-- Reads a line. -/
def line (r : Backtracking) : (rounds : Nat) → Tracked (Option Expr)
  | 0 => unfinished
  | rounds + 1 => fun t =>
    if r.bounded && r.bytes.limit ≤ t.depth then r.fail (.tooDeep r.bytes.limit) t
    else deeper (r.lineInside rounds (nested t.place (r.line rounds))) t

/-! ## 7. Programs -/

/-- Reads a whole text: one line, and nothing behind it. -/
def whole (r : Backtracking) (rounds : Nat) : Tracked Expr := do
  let program ← r.line rounds
  r.skipSpaces
  let stop ← place
  match r.bytes.bytesAt stop, program with
  | _ :: _, _ => r.fail (.trailing (r.bytes.seen stop))
  | [], none => r.missing .expression
  | [], some program => return program

end Backtracking

/-- The text that a program under the definitions `defs` is read from. Without a limit lines may stand
    inside each other as deep as they like. -/
def backtracking (source : Source) (defs : List Definition) (maxDepth : Option Nat) :
    Backtracking :=
  let text := (prepare source.chars defs).text
  -- where there is no limit, the number of levels is never asked for
  ⟨⟨source, maxDepth.getD (byteCount text + 1), text, byteCount (opening defs)⟩, maxDepth.isSome⟩

/-- Reads a program under the definitions `defs` with a cursor that is moved and put back. -/
def parseBacktracking (source : Source) (defs : List Definition) (maxDepth : Option Nat)
    (rounds : Nat) : TrackedOutcome Expr :=
  let r := backtracking source defs maxDepth
  let program : Tracked Expr :=
    if defs.isEmpty then r.whole rounds
    else do
      ofSliced r.bytes.balanced
      r.whole rounds
  program .start

end CallByNeed
