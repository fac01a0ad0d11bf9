/-
  File:      CallByNeed/Scope.lean
  Subject:   Programs that make sense: every name is bound, and no primitive is left waiting.

  * `BindFault`, `BindFault.message` -- what can be wrong, and its wording;
  * `Expr.owed` -- walks a tree, the function of an application before its argument, and tells how
    many arguments a primitive at its head still needs;
  * `Expr.check` -- the verdict on a whole program.
-/
import CallByNeed.Builtin
import CallByNeed.Expr

namespace CallByNeed

/-- What is wrong with the names of a program. -/
inductive BindFault where
  /-- No enclosing lambda binds the name. -/
  | unbound (name : String)
  /-- No primitive is called `@name`. -/
  | unknownBuiltin (name : String)
  /-- The program is a primitive that still waits for arguments. -/
  | arity (missing : Nat)
  deriving DecidableEq, Repr, Inhabited

/-- The wording of a fault, without its place. -/
def BindFault.message : BindFault → String
  | .unbound name => s!"name {name} is not bound"
  | .unknownBuiltin name => s!"name @{name} is not bound"
  | .arity _ => "wrong number of arguments for builtin"

namespace Expr

/-- Arguments that a primitive at the head of the tree still needs; negative if there is none, or if
    it has more than it needs. `scope` holds the names that are bound. -/
def owed (scope : List String) : Expr → Except (At BindFault) Int
  | .number .. | .string .. => .ok (-1)
  | .name p x => if scope.contains x then .ok (-1) else .error ⟨.unbound x, p⟩
  | .builtin p x =>
    match Builtin.ofName? x with
    | some b => .ok b.arity
    | none => .error ⟨.unknownBuiltin x, p⟩
  | .lambda _ x body =>
    match body.owed (x :: scope) with
    | .ok _ => .ok (-1)
    | .error fault => .error fault
  | .apply _ func arg =>
    match func.owed scope with
    | .error fault => .error fault
    | .ok n =>
      match arg.owed scope with
      | .error fault => .error fault
      | .ok _ => .ok (n - 1)

/-- Whether a program makes sense. -/
def check (e : Expr) : Except (At BindFault) Unit :=
  match e.owed [] with
  | .error fault => .error fault
  | .ok n => if n > 0 then .error ⟨.arity n.toNat, e.pos⟩ else .ok ()

end Expr

end CallByNeed
