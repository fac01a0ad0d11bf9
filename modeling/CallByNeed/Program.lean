/-
  File:      CallByNeed/Program.lean
  Subject:   From a text to the outcome of its run.

  * `CompileFault` -- a text is no program, or its names make no sense;
  * `Options` -- prelude, injected fragment and limits;
  * `Program`, `compile` -- a text made ready to run;
  * `Failure`, `Outcome` -- why there is no value, and what a run leaves behind;
  * `execute` -- compile and run.
-/
import CallByNeed.Duration
import CallByNeed.Machine.Run
import CallByNeed.Parser.Grammar
import CallByNeed.Walk

namespace CallByNeed

/-! ## 1. Compiling -/

/-- Why a text cannot be run. -/
inductive CompileFault where
  | parse (fault : At ParseFault)
  | bind (fault : At BindFault)
  deriving DecidableEq, Repr

namespace CompileFault

/-- Where the fault is. -/
def pos : CompileFault → Pos
  | .parse e => e.pos
  | .bind e => e.pos

/-- The wording, without the place. -/
def detail : CompileFault → String
  | .parse e => e.fault.message
  | .bind e => e.fault.message

/-- The wording with the place in front. -/
def message (e : CompileFault) : String := e.pos.report e.detail

end CompileFault

/-- How a run is limited. -/
structure RunLimits where
  timeLimit : Duration := Duration.ofSeconds 600
  maxFrames : Option Nat := some 10000000
  deriving DecidableEq, Repr, Inhabited

/-- How a text is compiled and run. -/
structure Options where
  definitions : Prelude := .none
  /-- Takes the place of the innermost body of the program's definitions. -/
  fragment : Option String := none
  maxDepth : Nat := defaultDepth
  limits : RunLimits := {}
  deriving DecidableEq, Repr, Inhabited

/-- Source name of an injected fragment. -/
def fragmentSource : String := "<INJECT>"

/-- A program ready to run. -/
structure Program where
  code : Code
  source : Source
  deriving DecidableEq, Repr, Inhabited

/-- Reads a fragment, without a prelude, and injects it. -/
def injectFragment (program : Expr) (maxDepth : Nat) : Option String → Except CompileFault Expr
  | none => .ok program
  | some text => do
    let fragment ← (parse ⟨fragmentSource, text⟩ [] maxDepth).mapError .parse
    return program.inject fragment

/-- Checks a tree and makes it nameless, however deep it is. -/
def link (program : Expr) : Except CompileFault Code := do
  program.checkWalk.mapError .bind
  program.compileWalk.mapError .bind

/-- Reads, injects, checks and compiles a text. -/
def compile (source : Source) (options : Options) : Except CompileFault Program := do
  let program ← (parse source options.definitions.definitions options.maxDepth).mapError .parse
  let program ← injectFragment program options.maxDepth options.fragment
  return ⟨← link program, source⟩

/-! ## 2. Running -/

/-- The limits as the machine counts them. -/
def RunLimits.forMachine (l : RunLimits) : Limits := ⟨l.timeLimit.steps, l.maxFrames⟩

/-- Why there is no value. -/
inductive Failure where
  | compile (fault : CompileFault)
  | fault (f : Fault)
  | timeout (limit : Duration)
  | outOfFrames (maxFrames : Nat)
  deriving DecidableEq, Repr

/-- The wording of a stack that grew too large. -/
def outOfFramesMessage (maxFrames : Nat) : String :=
  s!"evaluation stack exceeds maximum of {maxFrames} frames"

/-- The wording of a failure. -/
def Failure.message : Failure → String
  | .compile e => e.message
  | .fault f => f.message
  | .timeout _ => "Timeout"
  | .outOfFrames n => outOfFramesMessage n

/-- What a run leaves behind. -/
structure Outcome where
  output : String
  result : Except Failure Value
  deriving Inhabited

/-- How a run under a time limit ended. -/
def Ending.result (limit : Duration) : Ending → Except Failure Value
  | .value v => .ok v
  | .fault f => .error (.fault f)
  | .outOfTime => .error (.timeout limit)
  | .outOfFrames n => .error (.outOfFrames n)

/-- Runs a program. -/
def Program.run (p : Program) (limits : RunLimits) : Outcome :=
  let execution := evaluate p.code limits.forMachine
  ⟨execution.printed.text, execution.ending.result limits.timeLimit⟩

/-- Compiles and runs a text. -/
def execute (source : Source) (options : Options) : Outcome :=
  match compile source options with
  | .ok program => program.run options.limits
  | .error fault => ⟨"", .error (.compile fault)⟩

namespace Outcome

/-- Whether the run has a value. -/
def isSuccess (o : Outcome) : Bool :=
  match o.result with
  | .ok _ => true
  | .error _ => false

/-- The text of a run: what was printed, and how it ended. -/
def text (o : Outcome) : String :=
  match o.result with
  | .ok v => o.output ++ "=> " ++ v.display
  | .error (.compile e) => "Compile Error\n" ++ e.message
  | .error (.timeout _) => o.output ++ "Timeout"
  | .error failure => o.output ++ "Runtime Error\n" ++ failure.message

end Outcome

end CallByNeed
