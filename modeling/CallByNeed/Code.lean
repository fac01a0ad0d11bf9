/-
  File:      CallByNeed/Code.lean
  Subject:   Programs without names.

  * `Code` -- what the machine runs: a variable counts the lambdas between it and its own;
  * `Code.toText` -- a compact notation;
  * `Code.ofExpr` -- the nameless form of a tree.
-/
import CallByNeed.Scope
import CallByNeed.Text.Quoted

namespace CallByNeed

/-- A program without names. -/
inductive Code where
  | number (value : Int64)
  | string (value : String)
  /-- The parameter of the lambda `index` lambdas further out. -/
  | var (index : Nat)
  | builtin (b : Builtin)
  | lambda (body : Code)
  | apply (func arg : Code)
  deriving DecidableEq, Repr, Inhabited

namespace Code

/-- Compact notation: `λ.(#0 #1)`. -/
def toText : Code → String
  | .number n => decimal n
  | .string s => quoted s
  | .var i => s!"#{i}"
  | .builtin b => "@" ++ b.name
  | .lambda body => "λ." ++ body.toText
  | .apply func arg => "(" ++ func.toText ++ " " ++ arg.toText ++ ")"

/-- The nameless form of a tree under the parameters `scope`, innermost first. -/
def ofExpr (scope : List String) : Expr → Except (At BindFault) Code
  | .number _ n => .ok (.number n)
  | .string _ s => .ok (.string s)
  | .name p x =>
    match scope.idxOf? x with
    | some i => .ok (.var i)
    | none => .error ⟨.unbound x, p⟩
  | .builtin p x =>
    match Builtin.ofName? x with
    | some b => .ok (.builtin b)
    | none => .error ⟨.unknownBuiltin x, p⟩
  | .lambda _ x body =>
    match ofExpr (x :: scope) body with
    | .error fault => .error fault
    | .ok code => .ok (.lambda code)
  | .apply _ func arg =>
    match ofExpr scope func with
    | .error fault => .error fault
    | .ok f =>
      match ofExpr scope arg with
      | .error fault => .error fault
      | .ok a => .ok (.apply f a)

end Code

/-- The nameless form of a whole program. -/
def Expr.compile (e : Expr) : Except (At BindFault) Code := Code.ofExpr [] e

end CallByNeed
