/-
  File:      CallByNeed/Builtin.lean
  Subject:   The primitives of the language.

  * `Builtin` -- all of them; every one but `tailStep` can be written as `@name`;
  * `Builtin.arity` -- arguments that a program has to give before the primitive counts as applied;
  * `Builtin.collects` -- arguments that the machine collects before the primitive acts. The
    constants and the constructors are functions in Church's encoding and collect more;
  * `Builtin.isStrict` -- whether the primitive needs the values of its arguments.
-/
namespace CallByNeed

/-- A primitive. -/
inductive Builtin where
  | print
  | add
  | sub
  | mul
  | div
  | mod
  | length
  | true
  | false
  | ite
  | not
  | and
  | or
  | eq
  | lt
  | le
  | pair
  | first
  | second
  | nil
  | append
  | head
  | tail
  | isEmpty
  /-- One step of the fold behind `tail`; it cannot be written in a program. -/
  | tailStep
  deriving DecidableEq, Repr, Inhabited

namespace Builtin

/-- The primitives that can be written as `@name`. -/
def surface : List Builtin := [
  print, add, sub, mul, div, mod, length, true, false, ite, not, and, or, eq, lt, le,
  pair, first, second, nil, append, head, tail, isEmpty]

/-- The name of a primitive. -/
def name : Builtin → String
  | print => "print"
  | add => "add"
  | sub => "sub"
  | mul => "mul"
  | div => "div"
  | mod => "mod"
  | length => "length"
  | true => "true"
  | false => "false"
  | ite => "if"
  | not => "not"
  | and => "and"
  | or => "or"
  | eq => "eq"
  | lt => "lt"
  | le => "le"
  | pair => "pair"
  | first => "first"
  | second => "second"
  | nil => "nil"
  | append => "append"
  | head => "head"
  | tail => "tail"
  | isEmpty => "isEmpty"
  | tailStep => "tail-step"

/-- The primitive that `@name` means. -/
def ofName? (name : String) : Option Builtin :=
  surface.find? fun b => b.name == name

/-- Arguments that a program has to give. -/
def arity : Builtin → Nat
  | true | false | nil => 0
  | print | length | not | first | second | head | tail | isEmpty => 1
  | ite => 3
  | add | sub | mul | div | mod | and | or | eq | lt | le | pair | append | tailStep => 2

/-- Arguments that the machine collects: `true` is `\x.\y.x`, a pair waits for its consumer, a list
    cell for the two arguments of its fold. -/
def collects : Builtin → Nat
  | true | false | nil => 2
  | pair => 3
  | append => 4
  | b => b.arity

/-- Whether the values of all arguments are needed. -/
def isStrict : Builtin → Bool
  | print | add | sub | mul | div | mod | length | eq | lt | le => Bool.true
  | _ => Bool.false

/-- The primitive for a truth value. -/
def ofBool (b : Bool) : Builtin := if b then true else false

end Builtin

end CallByNeed
