/-
  File:      CallByNeed/Proofs/ByName/Tree.lean
  Subject:   The machine without memory.

  Where the machine has the number of a cell, this one has the cell itself, with all that it leads
  to: a tree. So there is nothing to share and nothing to keep, and work that is needed twice is
  done twice. What a combinator does is read off the machine's own table (`handoverTree`), and a
  strict primitive works on values without their cells (`strictTree`).

  * `Tree`, `Meaning` -- cells and values with all that they lead to;
  * `Value.over`, `Cell.over`, `assign` -- a value and a cell over an assignment of trees to cell
    numbers, and the assignment for new cells;
  * `treeMachine` -- the machine; `treeMachine_onto`: it does not see the frames below.
-/
import CallByNeed.Proofs.Machine.Strict
import CallByNeed.Proofs.Simulation
import Mathlib.Logic.Function.Basic

namespace CallByNeed

/-! ## 1. Trees -/

mutual

/-- A cell with all that it leads to. -/
inductive Tree where
  | suspended (code : Code) (env : List Tree)
  | application (func arg : Tree)
  | ready (v : Meaning)

/-- A value with all that it leads to. -/
inductive Meaning where
  | number (n : Int64)
  | string (s : String)
  | closure (body : Code) (env : List Tree)
  | primitive (b : Builtin) (args : List Tree)

end

instance : Inhabited Tree := ⟨.ready (.number 0)⟩

/-- A meaning without its trees. -/
def Meaning.blank : Meaning → Value
  | .number n => .number n
  | .string s => .string s
  | .closure body _ => .closure body []
  | .primitive b args => .primitive b (args.map fun _ => 0)

/-- A value over the trees of its cells. -/
def Value.over (g : Nat → Tree) : Value → Meaning
  | .number n => .number n
  | .string s => .string s
  | .closure body env => .closure body (env.map g)
  | .primitive b args => .primitive b (args.map g)

@[simp] theorem Value.blank_over (g : Nat → Tree) (v : Value) : (v.over g).blank = v.blank := by
  cases v with
  | primitive b args =>
    show Value.primitive b ((args.map g).map fun _ => 0) = .primitive b (args.map fun _ => 0)
    rw [List.map_map]
    rfl
  | _ => rfl

/-- The tree of a cell over those of the cells it refers to. A cell under evaluation has lost what
    it was, so it has no tree of its own. -/
def Cell.over (g : Nat → Tree) : Cell → Tree
  | .suspended code env => .suspended code (env.map g)
  | .application func arg => .application (g func) (g arg)
  | .underEvaluation => default
  | .value v => .ready (v.over g)

/-- The trees of cells after new `cells`, the first of which has the number `n`. -/
def assign (g : Nat → Tree) (n : Nat) : List Cell → Nat → Tree
  | [] => g
  | c :: cells => assign (Function.update g n (c.over g)) (n + 1) cells

/-! ## 2. The machine -/

/-- What the machine without memory does next. -/
inductive TreeFocus where
  | eval (code : Code) (env : List Tree)
  | force (t : Tree)
  | give (v : Meaning)

/-- Work that waits for a meaning. -/
inductive TreeFrame where
  | apply (arg : Tree)
  | strict (b : Builtin) (forced : List Meaning) (pending : List Tree)

/-- A state without memory. -/
structure TreeState where
  focus : TreeFocus
  frames : List TreeFrame

/-- A state with more frames below its own. -/
def TreeState.onto (s : TreeState) (below : List TreeFrame) : TreeState :=
  ⟨s.focus, s.frames ++ below⟩

/-- What a combinator comes to, over the trees of cells. -/
def Handover.over (g : Nat → Tree) : Handover → TreeState
  | .call f xs => ⟨.force (g f), xs.map fun x => .apply (g x)⟩
  | .result v => ⟨.give (v.over g), []⟩

/-- The tree with this number in a list. -/
def numbered (trees : List Tree) (i : Nat) : Tree := trees.getD i default

/-- A saturated combinator on trees. The trees are numbered, and the new cells come behind them. -/
def handoverTree (b : Builtin) (args : List Tree) : Option TreeState :=
  match handover? b (List.range args.length) args.length with
  | some (cells, o) => some (o.over (assign (numbered args) args.length cells))
  | none => none

/-- A strict primitive on the meanings of its arguments. -/
def strictTree (b : Builtin) (args : List Meaning) : Except Fault Meaning :=
  ((strictEffect b (args.map Meaning.blank) #[]).map Prod.fst).map (Value.over fun _ => default)

/-- The tree of an argument. -/
def argumentTree (env : List Tree) : Code → Except Fault Tree
  | .var i =>
    match env[i]? with
    | some t => .ok t
    | none => .error (.unboundVariable i)
  | .apply f x => .ok (.suspended (.apply f x) env)
  | .number n => .ok (.ready (.number n))
  | .string s => .ok (.ready (.string s))
  | .builtin b => .ok (.ready (.primitive b []))
  | .lambda body => .ok (.ready (.closure body env))

/-- Evaluates code. -/
def evalTree (env : List Tree) : Code → Except Fault TreeState
  | .var i =>
    match env[i]? with
    | some t => .ok ⟨.force t, []⟩
    | none => .error (.unboundVariable i)
  | .apply f x =>
    match argumentTree env x with
    | .ok t => .ok ⟨.eval f env, [.apply t]⟩
    | .error fault => .error fault
  | .number n => .ok ⟨.give (.number n), []⟩
  | .string s => .ok ⟨.give (.string s), []⟩
  | .builtin b => .ok ⟨.give (.primitive b []), []⟩
  | .lambda body => .ok ⟨.give (.closure body env), []⟩

/-- Forces a tree, whether or not it was forced before. -/
def forceTree : Tree → TreeState
  | .suspended code env => ⟨.eval code env, []⟩
  | .application func arg => ⟨.force func, [.apply arg]⟩
  | .ready v => ⟨.give v, []⟩

/-- A primitive with one more argument. -/
def actTree (b : Builtin) (args : List Tree) : Except Fault TreeState :=
  if args.length < b.collects then .ok ⟨.give (.primitive b args), []⟩
  else if b.isStrict then
    match args with
    | next :: pending => .ok ⟨.force next, [.strict b [] pending]⟩
    | [] => .error (.typeMismatch b "0 arguments")
  else
    match handoverTree b args with
    | some s => .ok s
    | none => .error (.typeMismatch b s!"{args.length} arguments")

/-- Gives a meaning to a frame. -/
def giveTree (v : Meaning) : TreeFrame → Except Fault TreeState
  | .apply x =>
    match v with
    | .closure body env => .ok ⟨.eval body (x :: env), []⟩
    | .primitive b args => actTree b (args ++ [x])
    | .number n => .error (.notCallable (decimal n))
    | .string s => .error (.notCallable s)
  | .strict b forced (next :: pending) => .ok ⟨.force next, [.strict b (forced ++ [v]) pending]⟩
  | .strict b forced [] =>
    match strictTree b (forced ++ [v]) with
    | .ok w => .ok ⟨.give w, []⟩
    | .error fault => .error fault

/-- Goes on above the frames that were not looked at. -/
def resume (r : Except Fault TreeState) (fs : List TreeFrame) : TreeState ⊕ Except Fault Meaning :=
  match r with
  | .ok s => .inl (s.onto fs)
  | .error fault => .inr (.error fault)

/-- The machine without memory. -/
def treeMachine : Machine TreeState (Except Fault Meaning) where
  next
    | ⟨.eval code env, fs⟩ => resume (evalTree env code) fs
    | ⟨.force t, fs⟩ => .inl ((forceTree t).onto fs)
    | ⟨.give v, f :: fs⟩ => resume (giveTree v f) fs
    | ⟨.give v, []⟩ => .inr (.ok v)

theorem resume_onto {r : Except Fault TreeState} {fs : List TreeFrame} {s : TreeState}
    (hr : resume r fs = .inl s) (below : List TreeFrame) :
    resume r (fs ++ below) = .inl (s.onto below) := by
  cases r with
  | error fault => cases hr
  | ok t =>
    cases hr
    simp [resume, TreeState.onto]

/-- **The machine without memory does not see the frames below.** -/
theorem treeMachine_onto {n : Nat} {s t : TreeState} (hs : treeMachine.Steps n s t)
    (below : List TreeFrame) : treeMachine.Steps n (s.onto below) (t.onto below) := by
  induction hs with
  | refl s => exact .refl _
  | @head n s t u h _ ih =>
    refine .head ?_ ih
    obtain ⟨focus, fs⟩ := s
    cases focus with
    | eval code env => exact resume_onto h below
    | force x =>
      cases h
      simp [treeMachine, TreeState.onto]
    | give v =>
      cases fs with
      | nil => cases h
      | cons f fs => exact resume_onto h below

end CallByNeed
