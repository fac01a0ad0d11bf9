/-
  File:      CallByNeed/Parser/Line.lean
  Subject:   Lines: operands with operators between them, and the one tree they stand for.

  A line is read as a flat sequence first. Priorities alone then decide the tree: an operator waits
  until one comes that does not bind tighter, and takes its operands then.

  * `Joint`, `Line` -- the flat sequence;
  * `Waiting` -- an operator that has its left operand and waits for the right one;
  * `Line.tree?` -- the tree.
-/
import CallByNeed.Expr

namespace CallByNeed

/-- What stands between two operands. -/
inductive Joint where
  /-- Nothing: the left one is applied to the right one. -/
  | sideBySide
  | operator (pos : Pos) (name : String)
  deriving DecidableEq, Repr, Inhabited

/-- The name whose priority counts; side by side is the empty operator. -/
def Joint.symbol : Joint → String
  | .sideBySide => ""
  | .operator _ name => name

/-- A line: the first operand, which is missing if the line starts with an operator, and each
    further operand with what stands in front of it. -/
structure Line where
  first : Option Expr
  further : List (Joint × Expr)
  deriving DecidableEq, Repr, Inhabited

/-- An operator with its left operand, waiting for the right one. -/
structure Waiting where
  left : Option Expr
  op : Joint
  deriving DecidableEq, Repr, Inhabited

/-- The operator with both operands: `((op) left) right`, or `(op) right` without a left one. A
    tree begins where its left operand begins. -/
def Waiting.close (w : Waiting) (right : Expr) : Expr :=
  match w.op, w.left with
  | .sideBySide, some left => .apply left.pos left right
  | .sideBySide, none => right
  | .operator p name, some left => .apply left.pos (.apply left.pos (.name p name) left) right
  | .operator p name, none => .apply p (.name p name) right

namespace Line

/-- Closes the waiting operators that take their right operand before `op` does. -/
def settle (op : Joint) : List Waiting → Expr → List Waiting × Expr
  | [], right => ([], right)
  | w :: ws, right =>
    if Operator.bindsFirst w.op.symbol op.symbol then settle op ws (w.close right)
    else (w :: ws, right)

/-- Closes all waiting operators. -/
def settleAll : List Waiting → Expr → Expr
  | [], right => right
  | w :: ws, right => settleAll ws (w.close right)

/-- The tree of a line of which `right` is the last operand read, with operators waiting. -/
def treeFrom : List Waiting → Expr → List (Joint × Expr) → Expr
  | waiting, right, [] => settleAll waiting right
  | waiting, right, (op, next) :: more =>
    let (waiting, left) := settle op waiting right
    treeFrom (⟨some left, op⟩ :: waiting) next more

/-- The tree of a line; an empty line has none. -/
def tree? (l : Line) : Option Expr :=
  match l.further with
  | [] => l.first
  | (op, operand) :: more => some (treeFrom [⟨l.first, op⟩] operand more)

end Line

end CallByNeed
