/-
  File:      CallByNeed/Expr.lean
  Subject:   Syntax trees.

  * `Expr` -- programs as trees; every node knows where it begins;
  * `Expr.sameShape` -- equal trees, wherever their nodes stand;
  * `Expr.toText` -- text that reads back as the same tree;
  * `Expr.inject` -- another expression in place of the innermost body of a chain of definitions.
-/
import CallByNeed.Literal
import CallByNeed.Operator
import CallByNeed.Source

namespace CallByNeed

/-! ## 1. Trees -/

/-- A syntax tree. Operators are names like any other: `a + b` applies the name `+` twice. -/
inductive Expr where
  | number (pos : Pos) (value : Int64)
  | string (pos : Pos) (value : String)
  | name (pos : Pos) (name : String)
  /-- `@name` -/
  | builtin (pos : Pos) (name : String)
  | lambda (pos : Pos) (param : String) (body : Expr)
  | apply (pos : Pos) (func arg : Expr)
  deriving DecidableEq, Repr, Inhabited

namespace Expr

/-- Where a tree begins. -/
def pos : Expr → Pos
  | .number p _ | .string p _ | .name p _ | .builtin p _ | .lambda p _ _ | .apply p _ _ => p

/-- Nodes of a tree. -/
def size : Expr → Nat
  | .lambda _ _ body => body.size + 1
  | .apply _ func arg => func.size + arg.size + 1
  | _ => 1

/-- Whether two trees are equal up to the places of their nodes. -/
def sameShape : Expr → Expr → Bool
  | .number _ m, .number _ n => m == n
  | .string _ s, .string _ t => s == t
  | .name _ x, .name _ y => x == y
  | .builtin _ x, .builtin _ y => x == y
  | .lambda _ x b, .lambda _ y c => x == y && b.sameShape c
  | .apply _ f a, .apply _ g b => f.sameShape g && a.sameShape b
  | _, _ => false

/-! ## 2. Text -/

/-- A name where a term is expected: an operator in parentheses. -/
def nameText (name : String) : String :=
  if namesOperator name then "(" ++ name ++ ")" else name

/-- Whether a tree needs parentheses as the function of an application. -/
def wrapsAsFunction : Expr → Bool
  | .lambda .. => true
  | _ => false

/-- Whether a tree needs parentheses as the argument of an application. -/
def wrapsAsArgument : Expr → Bool
  | .lambda .. | .apply .. => true
  | .number _ n => n < 0
  | _ => false

/-- Text in parentheses if need be. -/
def wrapIf (wraps : Bool) (text : String) : String :=
  if wraps then "(" ++ text ++ ")" else text

/-- Surface text of a tree. Reading it gives the same tree back, up to places. -/
def toText : Expr → String
  | .number _ n => decimal n
  | .string _ s => "\"" ++ escape s ++ "\""
  | .name _ x => nameText x
  | .builtin _ x => "@" ++ x
  | .lambda _ x body => "\\" ++ nameText x ++ ".(" ++ body.toText ++ ")"
  | .apply _ func arg =>
    wrapIf func.wrapsAsFunction func.toText ++ " " ++ wrapIf arg.wrapsAsArgument arg.toText

/-! ## 3. Injection -/

/-- The operator behind `\x := value ; body`. -/
def defineOperator : String := "=:"

/-- Puts `fragment` in place of the innermost body of a chain of definitions. A definition is
    `(\x. body) value` or `((=:) value) (\x. body)`; a program that is none is replaced as a
    whole. -/
def inject (program fragment : Expr) : Expr :=
  match program with
  | .apply p (.lambda q x body) value => .apply p (.lambda q x (body.inject fragment)) value
  | .apply p (.apply q (.name r op) value) (.lambda s x body) =>
    if op = defineOperator then
      .apply p (.apply q (.name r op) value) (.lambda s x (body.inject fragment))
    else fragment
  | _ => fragment

end Expr

end CallByNeed
