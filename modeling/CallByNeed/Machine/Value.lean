/-
  File:      CallByNeed/Machine/Value.lean
  Subject:   Values, and the cells that hold them or the work that leads to them.

  * `Env` -- the cells of the enclosing lambdas' arguments, innermost first;
  * `Value` -- numbers, strings, closures and primitives with the arguments collected so far;
  * `Value.display`, `Value.describe`, `Value.debug` -- the three ways a value is shown;
  * `Cell`, `Heap` -- memory. A cell is suspended until it is first needed, under evaluation while
    its value is worked out, and holds the value from then on.
-/
import CallByNeed.Code

namespace CallByNeed

/-! ## 1. Values -/

/-- The number of a cell in the heap. -/
abbrev Addr := Nat

/-- Cells of the arguments of the enclosing lambdas, innermost first. -/
abbrev Env := List Addr

/-- The result of an evaluation. -/
inductive Value where
  | number (n : Int64)
  | string (s : String)
  | closure (body : Code) (env : Env)
  /-- A primitive with the arguments it has received, first one first. -/
  | primitive (b : Builtin) (args : List Addr)
  deriving DecidableEq, Repr, Inhabited

namespace Value

/-- A primitive without arguments. -/
def ofBuiltin (b : Builtin) : Value := .primitive b []

/-- A truth value. -/
def ofBool (b : Bool) : Value := ofBuiltin (Builtin.ofBool b)

/-- Whether a value can be applied. -/
def isFunction : Value → Bool
  | .closure .. | .primitive .. => true
  | .number _ | .string _ => false

/-- Whether a value is a number. -/
def isNumber : Value → Bool
  | .number _ => true
  | _ => false

/-- The text that ends a run, and that `@print` writes. -/
def display : Value → String
  | .number n => decimal n
  | .string s => s
  | .closure .. => "<function>"
  | .primitive b _ => s!"<builtin @{b.name}>"

/-- The text for messages: numbers and strings say what they are. -/
def describe : Value → String
  | .number n => "number " ++ decimal n
  | .string s => "string " ++ quoted s
  | v => v.display

/-- The text for inspection. Neither environments nor arguments are looked into. -/
def debug : Value → String
  | .number n => "Number(" ++ decimal n ++ ")"
  | .string s => "Str(" ++ quoted s ++ ")"
  | .closure body _ => "Closure(" ++ body.toText ++ ")"
  | .primitive b args => s!"Primitive(@{b.name}, {args.length} args)"

end Value

/-! ## 2. Memory -/

/-- A memory cell. -/
inductive Cell where
  /-- `code` has to be evaluated under `env`. -/
  | suspended (code : Code) (env : Env)
  /-- The value of cell `func` has to be applied to cell `arg`. -/
  | application (func arg : Addr)
  /-- The value is being worked out. -/
  | underEvaluation
  | value (v : Value)
  deriving DecidableEq, Repr, Inhabited

/-- Memory: cells by their number. A cell is never given up. -/
abbrev Heap := Array Cell

namespace Heap

/-- A new cell. -/
def alloc (h : Heap) (c : Cell) : Addr × Heap := (h.size, h.push c)

/-- A new cell that holds a value. -/
def ready (h : Heap) (v : Value) : Addr × Heap := h.alloc (.value v)

/-- A new cell that holds a primitive. -/
def constant (h : Heap) (b : Builtin) : Addr × Heap := h.ready (Value.ofBuiltin b)

/-- A new cell for the application of one cell to another. -/
def defer (h : Heap) (func arg : Addr) : Addr × Heap := h.alloc (.application func arg)

/-- Writes a cell. -/
def write (h : Heap) (a : Addr) (c : Cell) : Heap := h.setIfInBounds a c

/-- The value of a cell, if it holds one. -/
def value? (h : Heap) (a : Addr) : Option Value :=
  match h[a]? with
  | some (.value v) => some v
  | _ => none

/-- Whether the values of two cells are equal: numbers and strings by what they are, functions only
    if they are one and the same cell's. -/
def sameValue (h : Heap) (a b : Addr) : Option Bool :=
  match h.value? a, h.value? b with
  | some (.number m), some (.number n) => some (m == n)
  | some (.string s), some (.string t) => some (s == t)
  | some v, some w => some (v.isFunction && w.isFunction && a == b)
  | _, _ => none

@[simp] theorem alloc_fst (h : Heap) (c : Cell) : (h.alloc c).1 = h.size := rfl

@[simp] theorem alloc_snd (h : Heap) (c : Cell) : (h.alloc c).2 = h.push c := rfl

/-- Writing makes no cell and gives none up. -/
@[simp] theorem size_write (h : Heap) (a : Addr) (c : Cell) : (h.write a c).size = h.size := by
  simp [write]

end Heap

end CallByNeed
