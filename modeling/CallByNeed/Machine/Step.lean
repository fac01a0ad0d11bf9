/-
  File:      CallByNeed/Machine/Step.lean
  Subject:   The machine: one step of a call-by-need evaluation.

  The machine evaluates code, forces a cell or gives a value to the frame on top of its stack. An
  argument is not evaluated when it is passed on; its cell is filled the first time its value is
  needed. Nothing in a step recurses, so depth shows on the stack alone.

  * `Focus`, `Frame`, `Stack`, `State` -- the machine's registers;
  * `argumentCell` -- the cell for an argument;
  * `act` -- a primitive that has all of its arguments;
  * `step` -- one step.
-/
import CallByNeed.Machine.Strict

namespace CallByNeed

/-! ## 1. Registers -/

/-- What the machine does next. -/
inductive Focus where
  | eval (code : Code) (env : Env)
  /-- Get the value of a cell. -/
  | force (a : Addr)
  /-- Give a value to the frame on top. -/
  | give (v : Value)
  deriving DecidableEq, Repr, Inhabited

/-- Work that waits for a value. -/
inductive Frame where
  /-- Apply the value to a cell. -/
  | apply (arg : Addr)
  /-- Keep the value in a cell, and pass it on. -/
  | update (a : Addr)
  /-- A strict primitive: the values of its first arguments, and the cells of those behind the one
      that is being forced. -/
  | strict (b : Builtin) (forced : List Value) (pending : List Addr)
  deriving DecidableEq, Repr, Inhabited

/-- Frames, top first, with their number. -/
structure Stack where
  frames : List Frame
  size : Nat
  size_eq : size = frames.length
  deriving DecidableEq, Repr

namespace Stack

/-- No frames. -/
def empty : Stack := ⟨[], 0, rfl⟩

instance : Inhabited Stack := ⟨empty⟩

/-- One more frame on top. -/
@[inline] def push (s : Stack) (f : Frame) : Stack :=
  ⟨f :: s.frames, s.size + 1, by simp [s.size_eq]⟩

/-- The frame on top, and the stack below it. -/
@[inline] def pop? : Stack → Option (Frame × Stack)
  | ⟨[], _, _⟩ => none
  | ⟨f :: fs, n, h⟩ => some (f, ⟨fs, n - 1, by simp [h]⟩)

/-- Frames that apply a value to `args`, the first one on top. -/
def pushArgs (s : Stack) (args : List Addr) : Stack :=
  args.foldr (fun a s => s.push (.apply a)) s

/-- A stack is known by its frames. -/
@[ext] theorem ext {s t : Stack} (h : s.frames = t.frames) : s = t := by
  obtain ⟨fs, n, hn⟩ := s
  obtain ⟨gs, m, hm⟩ := t
  obtain rfl : fs = gs := h
  obtain rfl : n = m := hn.trans hm.symm
  rfl

@[simp] theorem frames_push (s : Stack) (f : Frame) : (s.push f).frames = f :: s.frames := rfl

@[simp] theorem size_push (s : Stack) (f : Frame) : (s.push f).size = s.size + 1 := rfl

end Stack

/-- What `@print` wrote, one text per line, in order. -/
abbrev Printed := Array String

/-- The text of what was printed. -/
def Printed.text (p : Printed) : String :=
  p.foldl (fun text line => text ++ line ++ "\n") ""

/-- The machine's registers. -/
structure State where
  focus : Focus
  stack : Stack
  heap : Heap
  printed : Printed
  deriving DecidableEq, Repr, Inhabited

/-- The machine before it runs a program. -/
def State.start (code : Code) : State := ⟨.eval code [], .empty, #[], #[]⟩

/-- What one step leads to. -/
inductive Transition where
  | next (s : State)
  | finished (v : Value) (printed : Printed)
  | failed (fault : Fault) (printed : Printed)
  deriving DecidableEq, Repr, Inhabited

/-! ## 2. Parts of a step -/

/-- The cell for an argument: a variable shares the cell it is bound to, an application is
    suspended, everything else is a value already. -/
@[inline] def argumentCell (code : Code) (env : Env) (heap : Heap) : Except Fault (Addr × Heap) :=
  match code with
  | .var i =>
    match env[i]? with
    | some a => .ok (a, heap)
    | none => .error (.unboundVariable i)
  | .apply f a => .ok (heap.alloc (.suspended (.apply f a) env))
  | .number n => .ok (heap.ready (.number n))
  | .string s => .ok (heap.ready (.string s))
  | .builtin b => .ok (heap.constant b)
  | .lambda body => .ok (heap.ready (.closure body env))

/-- Evaluates code: one application at a time, the function first. -/
@[inline] def evalStep (code : Code) (env : Env) (stack : Stack) (heap : Heap) (printed : Printed) :
    Transition :=
  match code with
  | .var i =>
    match env[i]? with
    | some a => .next ⟨.force a, stack, heap, printed⟩
    | none => .failed (.unboundVariable i) printed
  | .apply f a =>
    match argumentCell a env heap with
    | .ok (arg, heap) => .next ⟨.eval f env, stack.push (.apply arg), heap, printed⟩
    | .error fault => .failed fault printed
  | .number n => .next ⟨.give (.number n), stack, heap, printed⟩
  | .string s => .next ⟨.give (.string s), stack, heap, printed⟩
  | .builtin b => .next ⟨.give (Value.ofBuiltin b), stack, heap, printed⟩
  | .lambda body => .next ⟨.give (.closure body env), stack, heap, printed⟩

/-- Forces a cell. A cell that is already being forced waits for itself. -/
@[inline] def forceStep (a : Addr) (stack : Stack) (heap : Heap) (printed : Printed) : Transition :=
  match heap[a]? with
  | some (.value v) => .next ⟨.give v, stack, heap, printed⟩
  | some (.suspended code env) =>
    .next ⟨.eval code env, stack.push (.update a), heap.write a .underEvaluation, printed⟩
  | some (.application func arg) =>
    .next ⟨.force func, (stack.push (.update a)).push (.apply arg),
      heap.write a .underEvaluation, printed⟩
  | some .underEvaluation | none => .failed .infiniteLoop printed

/-- Forces `func` and applies its value to `args`. -/
@[inline] def applyCell (func : Addr) (args : List Addr) (stack : Stack) (heap : Heap)
    (printed : Printed) : Transition :=
  .next ⟨.force func, stack.pushArgs args, heap, printed⟩

/-- A strict primitive forces its arguments from left to right. -/
def actStrict (b : Builtin) (args : List Addr) (stack : Stack) (heap : Heap)
    (printed : Printed) : Transition :=
  match args with
  | a :: pending => .next ⟨.force a, stack.push (.strict b [] pending), heap, printed⟩
  | [] => .failed (.typeMismatch b "0 arguments") printed

/-- A primitive that only hands its arguments on, in Church's encoding. -/
def actCombinator (b : Builtin) (args : List Addr) (stack : Stack) (heap : Heap)
    (printed : Printed) : Transition :=
  match b, args with
  | .true, [a, _] => applyCell a [] stack heap printed
  | .false, [_, a] => applyCell a [] stack heap printed
  | .nil, [_, a] => applyCell a [] stack heap printed
  | .ite, [c, t, e] => applyCell c [t, e] stack heap printed
  | .not, [c] =>
    let (no, heap) := heap.constant .false
    let (yes, heap) := heap.constant .true
    applyCell c [no, yes] stack heap printed
  | .and, [c, d] =>
    let (no, heap) := heap.constant .false
    applyCell c [d, no] stack heap printed
  | .or, [c, d] =>
    let (yes, heap) := heap.constant .true
    applyCell c [yes, d] stack heap printed
  | .pair, [a, b, f] => applyCell f [a, b] stack heap printed
  | .first, [p] =>
    let (yes, heap) := heap.constant .true
    applyCell p [yes] stack heap printed
  | .second, [p] =>
    let (no, heap) := heap.constant .false
    applyCell p [no] stack heap printed
  | .append, [a, l, f, x] =>
    -- `f a (l f x)`
    let (inner, heap) := heap.defer l f
    let (rest, heap) := heap.defer inner x
    applyCell f [a, rest] stack heap printed
  | .head, [l] =>
    let (yes, heap) := heap.constant .true
    let (fallback, heap) := heap.ready (.number 0)
    applyCell l [yes, fallback] stack heap printed
  | .isEmpty, [l] =>
    -- `\a.\r.false` as `true (true false)`
    let (no, heap) := heap.constant .false
    let (inner, heap) := heap.ready (.primitive .true [no])
    let (never, heap) := heap.ready (.primitive .true [inner])
    let (yes, heap) := heap.constant .true
    applyCell l [never, yes] stack heap printed
  | .tail, [l] =>
    -- Folds the list into pairs of its tail and itself, and keeps the tail.
    let (nil₁, heap) := heap.constant .nil
    let (nil₂, heap) := heap.constant .nil
    let (seed, heap) := heap.ready (.primitive .pair [nil₁, nil₂])
    let (step, heap) := heap.constant .tailStep
    let (inner, heap) := heap.defer l step
    let (folded, heap) := heap.defer inner seed
    let (yes, heap) := heap.constant .true
    applyCell folded [yes] stack heap printed
  | .tailStep, [a, p] =>
    -- From the pair of a list's tail and the list `s` to the pair of `s` and `a : s`.
    let (no, heap) := heap.constant .false
    let (list, heap) := heap.defer p no
    let (cons, heap) := heap.ready (.primitive .append [a, list])
    .next ⟨.give (.primitive .pair [list, cons]), stack, heap, printed⟩
  | b, args => .failed (.typeMismatch b s!"{args.length} arguments") printed

/-- Runs a primitive that has all of its arguments. -/
def act (b : Builtin) (args : List Addr) (stack : Stack) (heap : Heap) (printed : Printed) :
    Transition :=
  if b.isStrict then actStrict b args stack heap printed
  else actCombinator b args stack heap printed

/-- Applies a value to a cell. A primitive acts once it has collected its arguments. -/
@[inline] def applyStep (v : Value) (arg : Addr) (stack : Stack) (heap : Heap) (printed : Printed) :
    Transition :=
  match v with
  | .closure body env => .next ⟨.eval body (arg :: env), stack, heap, printed⟩
  | .primitive b args =>
    let args := args ++ [arg]
    if args.length < b.collects then
      .next ⟨.give (.primitive b args), stack, heap, printed⟩
    else act b args stack heap printed
  | .number n => .failed (.notCallable (decimal n)) printed
  | .string s => .failed (.notCallable s) printed

/-- A strict primitive whose arguments all have their values; `print` writes and returns the
    text. -/
def completeStrict (b : Builtin) (args : List Value) (stack : Stack) (heap : Heap)
    (printed : Printed) : Transition :=
  match b, args with
  | .print, [v] => .next ⟨.give (.string v.display), stack, heap, printed.push v.display⟩
  | b, args =>
    match strictResult b args with
    | .ok v => .next ⟨.give v, stack, heap, printed⟩
    | .error fault => .failed fault printed

/-- Gives a value to a frame. -/
@[inline] def giveStep (f : Frame) (v : Value) (stack : Stack) (heap : Heap) (printed : Printed) :
    Transition :=
  match f with
  | .update a => .next ⟨.give v, stack, heap.write a (.value v), printed⟩
  | .apply arg => applyStep v arg stack heap printed
  | .strict b forced (next :: pending) =>
    .next ⟨.force next, stack.push (.strict b (forced ++ [v]) pending), heap, printed⟩
  | .strict b forced [] => completeStrict b (forced ++ [v]) stack heap printed

/-! ## 3. One step -/

/-- One step of the machine. A value with no frame left to take it is the result. -/
@[inline] def step : State → Transition
  | ⟨.eval code env, stack, heap, printed⟩ => evalStep code env stack heap printed
  | ⟨.force a, stack, heap, printed⟩ => forceStep a stack heap printed
  | ⟨.give v, stack, heap, printed⟩ =>
    match stack.pop? with
    | none => .finished v printed
    | some (f, stack) => giveStep f v stack heap printed

end CallByNeed
