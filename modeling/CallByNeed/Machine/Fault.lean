/-
  File:      CallByNeed/Machine/Fault.lean
  Subject:   What can go wrong while a program runs, and how it is worded.
-/
import CallByNeed.Builtin

namespace CallByNeed

/-- Something without a meaning happened in a run. -/
inductive Fault where
  /-- A number or a string, shown as `display`, was applied. -/
  | notCallable (display : String)
  /-- A strict primitive got something it cannot work with. -/
  | typeMismatch (b : Builtin) (found : String)
  | divisionByZero (b : Builtin)
  | overflow (b : Builtin)
  /-- A suspended computation needed its own result. -/
  | infiniteLoop
  /-- A variable points further out than there are lambdas. -/
  | unboundVariable (index : Nat)
  deriving DecidableEq, Repr, Inhabited

/-- The wording of a fault. -/
def Fault.message : Fault → String
  | .notCallable display =>
    display ++ " is not a function (a value was used as if it were callable; " ++
      "check the argument types)"
  | .typeMismatch b found => s!"@{b.name} cannot be applied to {found}"
  | .divisionByZero b => s!"division by zero in @{b.name}"
  | .overflow b => s!"integer overflow in @{b.name}"
  | .infiniteLoop => "infinite loop: a value depends on itself"
  | .unboundVariable index => s!"variable #{index} is not in scope"

end CallByNeed
