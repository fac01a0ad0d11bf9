/-
  File:      CallByNeed/Machine/Run.lean
  Subject:   Whole runs of the machine, and the limits that can cut them short.

  Both limits are looked at before every step, the time first. They never change what a step does,
  so a run that meets none of them is the same with and without them.

  * `Limits` -- steps that begin in time, and frames that the stack may hold;
  * `Ending`, `Execution` -- how a run ended, what it printed and how many steps it began;
  * `run`, `evaluate` -- a run from a state, and the run of a program.
-/
import CallByNeed.Machine.Step

namespace CallByNeed

/-- Limits on a run. -/
structure Limits where
  /-- Steps that begin before the time is up. -/
  steps : Nat
  /-- The most frames with which a step may begin. -/
  maxFrames : Option Nat
  deriving DecidableEq, Repr, Inhabited

/-- How a run ended. -/
inductive Ending where
  | value (v : Value)
  | fault (f : Fault)
  | outOfTime
  | outOfFrames (maxFrames : Nat)
  deriving DecidableEq, Repr, Inhabited

/-- A run that has ended. -/
structure Execution where
  ending : Ending
  printed : Printed
  /-- Steps begun, with the one that ended the run. -/
  steps : Nat
  deriving DecidableEq, Repr, Inhabited

/-- The cap that a stack exceeds, if it exceeds one. -/
@[inline] def exceeded? (maxFrames : Option Nat) (frames : Nat) : Option Nat :=
  maxFrames.filter fun cap => cap < frames

/-- Runs from a state after `taken` steps, while `left` more steps may begin. -/
def run (maxFrames : Option Nat) : (left taken : Nat) → State → Execution
  | 0, taken, s => ⟨.outOfTime, s.printed, taken + 1⟩
  | left + 1, taken, s =>
    match exceeded? maxFrames s.stack.size with
    | some cap => ⟨.outOfFrames cap, s.printed, taken + 1⟩
    | none =>
      match step s with
      | .next s' => run maxFrames left (taken + 1) s'
      | .finished v printed => ⟨.value v, printed, taken + 1⟩
      | .failed fault printed => ⟨.fault fault, printed, taken + 1⟩

/-- Runs a program. -/
def evaluate (code : Code) (limits : Limits) : Execution :=
  run limits.maxFrames limits.steps 0 (State.start code)

end CallByNeed
