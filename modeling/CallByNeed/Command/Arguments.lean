/-
  File:      CallByNeed/Command/Arguments.lean
  Subject:   The arguments of the command.

      [FILE] [-e|--expr TEXT] [--prelude] [--time-limit SECS] [--inject TEXT] [--fancy]

  * `Setting`, `Switch` -- options with and without a value;
  * `Arguments`, `Arguments.read?` -- the arguments as given; `none` stands for wrong usage;
  * `Arguments.input` -- where the program comes from.
-/
import CallByNeed.Duration

namespace CallByNeed

/-- Options with a value. -/
inductive Setting where
  | expr
  | timeLimit
  | inject
  deriving DecidableEq, Repr, Inhabited

/-- Options without a value. -/
inductive Switch where
  | standardPrelude
  | fancy
  deriving DecidableEq, Repr, Inhabited

/-- What has been given on the command line. -/
structure Arguments where
  file : Option String := none
  expr : Option String := none
  timeLimit : Option Seconds := none
  fragment : Option String := none
  standardPrelude : Bool := false
  fancy : Bool := false
  deriving DecidableEq, Repr, Inhabited

namespace Arguments

/-- Gives an option its value. No option is given twice, and a time limit is a number. -/
def set? (a : Arguments) : Setting → String → Option Arguments
  | .expr, text => if a.expr.isSome then none else some { a with expr := some text }
  | .inject, text => if a.fragment.isSome then none else some { a with fragment := some text }
  | .timeLimit, text =>
    if a.timeLimit.isSome then none
    else (Seconds.read? text).map fun s => { a with timeLimit := some s }

/-- Turns a switch on, once. -/
def switch? (a : Arguments) : Switch → Option Arguments
  | .standardPrelude =>
    if a.standardPrelude then none else some { a with standardPrelude := true }
  | .fancy => if a.fancy then none else some { a with fancy := true }

/-- Takes a file name: there is one at most, and it is not empty. -/
def takeFile? (a : Arguments) (name : String) : Option Arguments :=
  if a.file.isSome || name.isEmpty then none else some { a with file := some name }

/-- What a long option is called. -/
def longName? (name : String) : Option (Setting ⊕ Switch) :=
  if name = "expr" then some (.inl .expr)
  else if name = "time-limit" then some (.inl .timeLimit)
  else if name = "inject" then some (.inl .inject)
  else if name = "prelude" then some (.inr .standardPrelude)
  else if name = "fancy" then some (.inr .fancy)
  else none

/-- One argument by its form. -/
inductive Form where
  /-- `--`: what follows are file names. -/
  | separator
  /-- `--name` or `--name=value`. -/
  | long (name : String) (value : Option String)
  /-- `-e`, `-eTEXT` or `-e=TEXT`. -/
  | short (letter : Char) (value : Option String)
  | plain (text : String)
  deriving DecidableEq, Repr, Inhabited

/-- The form of an argument. A single dash is plain text. -/
def Form.of (text : String) : Form :=
  match text.toList with
  | ['-', '-'] => .separator
  | '-' :: '-' :: cs =>
    let name := String.ofList (cs.takeWhile (· != '='))
    match cs.dropWhile (· != '=') with
    | _ :: value => .long name (some (String.ofList value))
    | [] => .long name none
  | '-' :: c :: '=' :: value => .short c (some (String.ofList value))
  | ['-', c] => .short c none
  | '-' :: c :: value => .short c (some (String.ofList value))
  | _ => .plain text

/-- Reads arguments from left to right. A value that is an argument of its own must not look like an
    option. -/
def readFrom (a : Arguments) : List String → Option Arguments
  | [] => some a
  | arg :: rest =>
    let withValue (s : Setting) : Option String → Option Arguments
      | some value => (a.set? s value).bind fun a => readFrom a rest
      | none =>
        match rest with
        | [] => none
        | value :: rest =>
          match Form.of value with
          | .plain value => (a.set? s value).bind fun a => readFrom a rest
          | _ => none
    match Form.of arg with
    | .separator => rest.foldlM takeFile? a
    | .long name value =>
      match longName? name, value with
      | some (.inl s), value => withValue s value
      | some (.inr w), none => (a.switch? w).bind fun a => readFrom a rest
      | some (.inr _), some _ => none
      | none, _ => none
    | .short c value => if c = 'e' then withValue .expr value else none
    | .plain name => (a.takeFile? name).bind fun a => readFrom a rest

/-- The arguments, if they are used as they should be: a file and an expression exclude each
    other. -/
def read? (args : List String) : Option Arguments := do
  let a ← readFrom {} args
  if a.file.isSome && a.expr.isSome then none else some a

end Arguments

end CallByNeed
