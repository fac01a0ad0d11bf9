/-
  File:      CallByNeed/Operator.lean
  Subject:   What operators and names are spelled with, and how tightly operators bind.

  An operator is a run of operator characters; its priority hangs on the first of them alone. Two
  terms side by side are joined by the operator with the empty name, which binds tightest.

  * `isOperatorChar`, `isNameChar` -- the two alphabets;
  * `Operator.power` -- the priority, in half steps;
  * `Operator.bindsFirst` -- which of two neighbouring operators takes the operand between them;
  * `Operator.flipped` -- the operator read from the other side.
-/
namespace CallByNeed

/-! ## 1. Alphabets -/

/-- Characters of operators. -/
def operatorAlphabet : List Char :=
  ['~', '!', '$', '%', '^', '&', '*', '-', '+', '=', '|', ':', '<', '>', '/', '?', ',']

/-- Whether a character may stand in an operator. -/
def isOperatorChar (c : Char) : Bool := operatorAlphabet.contains c

/-- Whether a character may stand in a name: an ASCII letter or digit, or an underscore. -/
def isNameChar (c : Char) : Bool := c.isAlphanum || c == '_'

/-- A name that starts like an operator is written in parentheses when it is used as a name. -/
def namesOperator (name : String) : Bool :=
  match name.toList with
  | c :: _ => isOperatorChar c
  | [] => false

namespace Operator

/-! ## 2. Priorities -/

/-- Priority, in half steps, of the operators that start with a character. -/
def powerOf (c : Char) : Nat :=
  if c = '*' ∨ c = '/' ∨ c = '%' then 16
  else if c = '+' ∨ c = '-' then 14
  else if c = '!' ∨ c = '=' ∨ c = '<' ∨ c = '>' then 12
  else if c = '&' then 10
  else if c = '|' then 8
  else if c = '^' then 6
  else if c = ':' ∨ c = ',' then 5
  else if c = '~' then 4
  else if c = '$' then 1
  else 20

/-- Priority of an operator in half steps; side by side, the empty operator, binds tightest. -/
def power (op : String) : Nat :=
  match op.toList with
  | c :: _ => powerOf c
  | [] => 20

/-- Whether the operator `waiting` on the left takes the operand between it and `incoming`.
    The priority on the left is rounded down to a whole step, so operators on a half step group to
    the right and all others to the left. -/
def bindsFirst (waiting incoming : String) : Bool :=
  power incoming ≤ power waiting / 2 * 2

/-! ## 3. Flipped operators -/

/-- A character read from the other side. -/
def flipChar (c : Char) : Char :=
  if c = '<' then '>' else if c = '>' then '<' else c

/-- An operator read from the other side: `:=` and `=:`, `<-` and `->`. -/
def flipped (op : String) : String :=
  String.ofList (op.toList.reverse.map flipChar)

end Operator

end CallByNeed
