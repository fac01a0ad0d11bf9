/-
  File:      CallByNeed/Walk.lean
  Subject:   Checking and compiling with stacks of their own.

  A tree can be as deep as memory allows, and a pass that calls itself at every node would need a
  call stack as deep. Both passes keep the tasks that are left and the results they have in lists
  instead. Each keeps the names in scope in its own way: checking counts the lambdas around that bind
  a name, compiling has their parameters in a row.

  * `Task`, `Task.weight` -- what is left to do, and what it counts for; every task taken off is
    replaced by lighter ones;
  * `Binders` -- names with the number of lambdas that bind them;
  * `checkTasks`, `Expr.checkWalk` -- checking by tasks;
  * `compileTasks`, `Expr.compileWalk` -- compiling by tasks.
-/
import CallByNeed.Code

namespace CallByNeed

/-! ## 1. Tasks -/

/-- What is left to do. -/
inductive Task (α : Type) where
  | visit (e : Expr)
  /-- The body of a lambda is done; `a` is what the pass needs to leave its scope. -/
  | leave (a : α)
  /-- The function and the argument of an application are done. -/
  | apply
  deriving DecidableEq, Repr

/-- What a task counts for. -/
def Task.weight {α : Type} : Task α → Nat
  | .visit e => 2 * e.size
  | .leave _ | .apply => 1

/-- What a list of tasks counts for. -/
def tasksWeight {α : Type} : List (Task α) → Nat
  | [] => 0
  | t :: tasks => t.weight + tasksWeight tasks

/-! ## 2. Checking -/

/-- Names, each with the number of lambdas around that bind it. A name that is in no scope any more
    keeps its place with the number zero. -/
abbrev Binders := List (String × Nat)

namespace Binders

/-- How many of the lambdas around bind a name. -/
def count (b : Binders) (x : String) : Nat := (b.lookup x).getD 0

/-- One more lambda binds the name. -/
def enter (x : String) : Binders → Binders
  | [] => [(x, 1)]
  | (y, n) :: b => if x == y then (y, n + 1) :: b else (y, n) :: enter x b

/-- One lambda less binds the name. -/
def leave (x : String) : Binders → Binders
  | [] => []
  | (y, n) :: b => if x == y then (y, n - 1) :: b else (y, n) :: leave x b

end Binders

/-- Does the tasks that are left. `results` holds what the trees visited owe, last one first; at the
    end the result on top is that of the whole tree. -/
def checkTasks : (tasks : List (Task String)) → (results : List Int) → Binders →
    Except (At BindFault) (Int × Binders)
  | [], results, scope => .ok (results.headD (-1), scope)
  | .visit (.number _ _) :: tasks, results, scope
  | .visit (.string _ _) :: tasks, results, scope => checkTasks tasks ((-1) :: results) scope
  | .visit (.name p x) :: tasks, results, scope =>
    if 0 < scope.count x then checkTasks tasks ((-1) :: results) scope
    else .error ⟨.unbound x, p⟩
  | .visit (.builtin p x) :: tasks, results, scope =>
    match Builtin.ofName? x with
    | some b => checkTasks tasks (b.arity :: results) scope
    | none => .error ⟨.unknownBuiltin x, p⟩
  | .visit (.lambda _ x body) :: tasks, results, scope =>
    checkTasks (.visit body :: .leave x :: tasks) results (scope.enter x)
  | .visit (.apply _ func arg) :: tasks, results, scope =>
    checkTasks (.visit func :: .visit arg :: .apply :: tasks) results scope
  | .leave x :: tasks, results, scope => checkTasks tasks ((-1) :: results.tail) (scope.leave x)
  | .apply :: tasks, results, scope =>
    checkTasks tasks ((results.tail.headD (-1) - 1) :: results.tail.tail) scope
termination_by tasks => tasksWeight tasks
decreasing_by all_goals simp only [tasksWeight, Task.weight, Expr.size]; omega

/-- Whether a program makes sense, by tasks. -/
def Expr.checkWalk (e : Expr) : Except (At BindFault) Unit :=
  match checkTasks [.visit e] [] [] with
  | .error fault => .error fault
  | .ok (n, _) => if n > 0 then .error ⟨.arity n.toNat, e.pos⟩ else .ok ()

/-! ## 3. Compiling -/

/-- The code compiled last. Tasks that need one come behind the visits that give it. -/
def lastCode (done : List Code) : Code := done.headD (.number 0)

/-- Does the tasks that are left. `done` holds the code of the trees visited, last one first;
    `scope` holds the parameters of the lambdas around, innermost first. -/
def compileTasks : (tasks : List (Task Unit)) → (done : List Code) → (scope : List String) →
    Except (At BindFault) Code
  | [], done, _ => .ok (lastCode done)
  | .visit (.number _ n) :: tasks, done, scope => compileTasks tasks (.number n :: done) scope
  | .visit (.string _ s) :: tasks, done, scope => compileTasks tasks (.string s :: done) scope
  | .visit (.name p x) :: tasks, done, scope =>
    match scope.idxOf? x with
    | some i => compileTasks tasks (.var i :: done) scope
    | none => .error ⟨.unbound x, p⟩
  | .visit (.builtin p x) :: tasks, done, scope =>
    match Builtin.ofName? x with
    | some b => compileTasks tasks (.builtin b :: done) scope
    | none => .error ⟨.unknownBuiltin x, p⟩
  | .visit (.lambda _ x body) :: tasks, done, scope =>
    compileTasks (.visit body :: .leave () :: tasks) done (x :: scope)
  | .visit (.apply _ func arg) :: tasks, done, scope =>
    compileTasks (.visit func :: .visit arg :: .apply :: tasks) done scope
  | .leave () :: tasks, done, scope =>
    compileTasks tasks (.lambda (lastCode done) :: done.tail) scope.tail
  | .apply :: tasks, done, scope =>
    compileTasks tasks (.apply (lastCode done.tail) (lastCode done) :: done.tail.tail) scope
termination_by tasks => tasksWeight tasks
decreasing_by all_goals simp only [tasksWeight, Task.weight, Expr.size]; omega

/-- The nameless form of a whole program, by tasks. -/
def Expr.compileWalk (e : Expr) : Except (At BindFault) Code := compileTasks [.visit e] [] []

end CallByNeed
