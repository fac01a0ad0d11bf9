/-
  File:      CallByNeed/Parser/Fault.lean
  Subject:   Why a text is not a program.

  * `Seen` -- what stands where reading stopped;
  * `Expectation` -- the piece that is missing there;
  * `ParseFault`, `ParseFault.message` -- the fault, and its one wording.
-/
import CallByNeed.Source

namespace CallByNeed

/-- What stands where reading stopped. -/
inductive Seen where
  | char (c : Char)
  /-- The end of the author's text, whether or not a prelude goes on behind it. -/
  | endOfText
  deriving DecidableEq, Repr, Inhabited

/-- A piece that has to follow what was already read. -/
inductive Expectation where
  | expression
  | operand
  | parenBody
  | closingParen
  | lambdaBody
  | dotOrOperator
  | boundValue
  | semicolon
  | definitionBody
  deriving DecidableEq, Repr, Inhabited

/-- Why a text is not a program. -/
inductive ParseFault where
  /-- Something follows a complete program. -/
  | trailing (seen : Seen)
  /-- A piece is missing. -/
  | unexpected (seen : Seen) (expected : Expectation)
  | unterminatedString
  | missingBuiltinName
  | numberOutOfRange (text : String)
  /-- Lines stand inside each other more than `limit` deep. -/
  | tooDeep (limit : Nat)
  deriving DecidableEq, Repr, Inhabited

/-- The wording of what stands there. -/
def Seen.message : Seen → String
  | .char c => "unexpected '" ++ c.toString ++ "'"
  | .endOfText => "unexpected EOF"

/-- The wording of what is missing. -/
def Expectation.message : Expectation → String
  | .expression => "expect expression"
  | .operand => "expect RHS of operator"
  | .parenBody => "incorrect paren body"
  | .closingParen => "expect ')'"
  | .lambdaBody => "expect body of lambda"
  | .dotOrOperator => "expect '.' or operator"
  | .boundValue => "expect correct RHS"
  | .semicolon => "expect ';'"
  | .definitionBody => "expect correct body"

/-- The wording of a fault, without its place. -/
def ParseFault.message : ParseFault → String
  | .trailing seen => seen.message
  | .unexpected seen expected => seen.message ++ ", " ++ expected.message
  | .unterminatedString => "wrong string format"
  | .missingBuiltinName => "expect identifier after '@'"
  | .numberOutOfRange text => s!"number {text} is out of range"
  | .tooDeep limit => s!"expression nesting depth exceeds maximum of {limit} levels"

end CallByNeed
