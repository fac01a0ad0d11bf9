/-
  File:      CallByNeed/Proofs/Machine/Runs.lean
  Subject:   Runs of the machine: as steps one after another, without limits and with them.

  * `Machine.ofStep`, `needMachine` -- a step function as a machine that ends with an `Ending` and
    with what was printed; the machine of `step`;
  * `runBy` -- a run without a cap under any step function, `run_none_eq` for `step`;
  * `exists_ending_iff`, `forall_outOfTime_iff` -- what such runs show is how the machine ends, and
    whether it does;
  * `needMachine_onto` -- a run does not see the frames below its own;
  * `Visited` -- the states with which the iterations of `evaluate` begin, under any limits
    (`Visited.evaluate_eq`); `Visited.induction` carries an invariant to all of them.
-/
import CallByNeed.Proofs.Machine.Move
import CallByNeed.Proofs.Simulation

namespace CallByNeed

/-! ## 1. Step functions as machines -/

/-- What a transition leads to: the next state, or an ending and what was printed. -/
def Transition.outcome : Transition → State ⊕ (Ending × Printed)
  | .next s => .inl s
  | .finished v p => .inr (.value v, p)
  | .failed fault p => .inr (.fault fault, p)

/-- The machine of a step function. -/
def Machine.ofStep (f : State → Transition) : Machine State (Ending × Printed) :=
  ⟨fun s => (f s).outcome⟩

/-- The machine itself. -/
def needMachine : Machine State (Ending × Printed) := .ofStep step

section Unlimited

variable {f : State → Transition} {s t : State} {n left taken : Nat}

theorem Machine.ofStep_next_inl : (Machine.ofStep f).next s = .inl t ↔ f s = .next t := by
  show (f s).outcome = .inl t ↔ _
  cases f s <;> simp [Transition.outcome]

theorem Machine.ofStep_next_inr {e : Ending} {p : Printed} :
    (Machine.ofStep f).next s = .inr (e, p) ↔
      (∃ v, e = .value v ∧ f s = .finished v p) ∨
      ∃ fault, e = .fault fault ∧ f s = .failed fault p := by
  show (f s).outcome = .inr (e, p) ↔ _
  cases f s with
  | next s' => simp [Transition.outcome]
  | finished v q =>
    simp only [Transition.outcome, Sum.inr.injEq, Prod.mk.injEq, Transition.finished.injEq,
      reduceCtorEq, and_false, exists_false, or_false]
    exact ⟨fun ⟨e₁, e₂⟩ => ⟨v, e₁.symm, rfl, e₂⟩, fun ⟨w, e₁, e₂, e₃⟩ => ⟨by rw [e₁, e₂], e₃⟩⟩
  | failed fault q =>
    simp only [Transition.outcome, Sum.inr.injEq, Prod.mk.injEq, Transition.failed.injEq,
      reduceCtorEq, and_false, exists_false, false_or]
    exact ⟨fun ⟨e₁, e₂⟩ => ⟨fault, e₁.symm, rfl, e₂⟩, fun ⟨w, e₁, e₂, e₃⟩ => ⟨by rw [e₁, e₂], e₃⟩⟩

theorem needMachine_next_inl : needMachine.next s = .inl t ↔ Move s t :=
  Machine.ofStep_next_inl.trans step_eq_next_iff

/-- A run without a cap after `taken` steps, while `left` more steps may begin. -/
def runBy (f : State → Transition) : (left taken : Nat) → State → Execution
  | 0, taken, s => ⟨.outOfTime, s.printed, taken + 1⟩
  | left + 1, taken, s =>
    match f s with
    | .next s' => runBy f left (taken + 1) s'
    | .finished v p => ⟨.value v, p, taken + 1⟩
    | .failed fault p => ⟨.fault fault, p, taken + 1⟩

theorem run_none_eq : ∀ (left taken : Nat) (s : State),
    run none left taken s = runBy step left taken s
  | 0, _, _ => rfl
  | left + 1, taken, s => by
      simp only [run, runBy, exceeded?, Option.filter_none]
      cases step s with
      | next s' => exact run_none_eq left (taken + 1) s'
      | finished v p => rfl
      | failed fault p => rfl

/-- A run is at every later state the run from there. -/
theorem runBy_of_steps (hs : (Machine.ofStep f).Steps n s t) :
    runBy f (n + left) taken s = runBy f left (taken + n) t := by
  induction hs generalizing taken with
  | refl s => simp
  | @head n s t u h _ ih =>
    have e : n + 1 + left = (n + left) + 1 := by omega
    rw [e]
    simp only [runBy, Machine.ofStep_next_inl.mp h]
    rw [ih]
    congr 1
    omega

/-- A run that has the time to end does end. -/
theorem runBy_of_end {e : Ending} {p : Printed} (hs : (Machine.ofStep f).Steps n s t)
    (he : (Machine.ofStep f).next t = .inr (e, p)) :
    runBy f (n + (left + 1)) taken s = ⟨e, p, taken + n + 1⟩ := by
  rw [runBy_of_steps hs]
  rcases Machine.ofStep_next_inr.mp he with ⟨v, rfl, hv⟩ | ⟨fault, rfl, hf⟩
  · simp only [runBy, hv]
  · simp only [runBy, hf]

theorem runBy_outOfTime (hs : (Machine.ofStep f).Steps n s t) :
    (runBy f n taken s).ending = .outOfTime := by
  have h : runBy f (n + 0) taken s = runBy f 0 (taken + n) t := runBy_of_steps hs
  rw [Nat.add_zero] at h
  rw [h]
  rfl

/-- A run that ends in time shows how the machine ends. -/
theorem ends_of_runBy : ∀ (left taken : Nat) (s : State) (e : Ending), e ≠ .outOfTime →
    (runBy f left taken s).ending = e → ∃ p, (Machine.ofStep f).Ends s (e, p)
  | 0, _, _, _, hne, he => absurd he.symm hne
  | left + 1, taken, s, e, hne, he => by
      simp only [runBy] at he
      cases hs : f s with
      | next s' =>
        rw [hs] at he
        obtain ⟨p, n, t, ht, hlast⟩ := ends_of_runBy left (taken + 1) s' e hne he
        exact ⟨p, n + 1, t, .head (Machine.ofStep_next_inl.mpr hs) ht, hlast⟩
      | finished v p =>
        rw [hs] at he
        exact ⟨p, 0, s, .refl s, Machine.ofStep_next_inr.mpr (.inl ⟨v, he.symm, hs⟩)⟩
      | failed fault p =>
        rw [hs] at he
        exact ⟨p, 0, s, .refl s, Machine.ofStep_next_inr.mpr (.inr ⟨fault, he.symm, hs⟩)⟩

/-- **Some time is enough for an ending exactly if the machine ends so.** -/
theorem exists_ending_iff {e : Ending} (hne : e ≠ .outOfTime) :
    (∃ left, (runBy f left taken s).ending = e) ↔ ∃ p, (Machine.ofStep f).Ends s (e, p) := by
  constructor
  · rintro ⟨left, he⟩
    exact ends_of_runBy left taken s e hne he
  · rintro ⟨p, n, t, ht, hlast⟩
    refine ⟨n + (0 + 1), ?_⟩
    rw [runBy_of_end ht hlast]

/-- **No time is enough exactly if the machine never ends.** -/
theorem forall_outOfTime_iff :
    (∀ left, (runBy f left taken s).ending = .outOfTime) ↔ (Machine.ofStep f).Forever s := by
  constructor
  · intro h
    rcases (Machine.ofStep f).ends_or_forever s with ⟨⟨e, p⟩, n, t, ht, hlast⟩ | hf
    · have he := h (n + (0 + 1))
      rw [runBy_of_end ht hlast] at he
      rcases Machine.ofStep_next_inr.mp hlast with ⟨v, rfl, _⟩ | ⟨fault, rfl, _⟩ <;> cases he
    · exact hf
  · intro hf left
    obtain ⟨t, ht⟩ := hf left
    exact runBy_outOfTime ht

end Unlimited

/-- **A run does not see the frames below its own.** -/
theorem needMachine_onto {n : Nat} {s t : State} (hs : needMachine.Steps n s t)
    (below : List Frame) : needMachine.Steps n (s.onto below) (t.onto below) := by
  induction hs with
  | refl s => exact .refl _
  | head h _ ih =>
    exact .head (needMachine_next_inl.mpr ((needMachine_next_inl.mp h).onto below)) ih

/-! ## 2. Runs under limits -/

/-- The states with which the iterations of a run begin, counted from zero. -/
inductive Visited (code : Code) (limits : Limits) : Nat → State → Prop where
  | start : Visited code limits 0 (State.start code)
  | step {n : Nat} {s s' : State} (hv : Visited code limits n s) (ht : n < limits.steps)
      (hc : exceeded? limits.maxFrames s.stack.size = none) (hs : step s = .next s') :
      Visited code limits (n + 1) s'

section Limited

variable {code : Code} {limits : Limits} {m n : Nat} {s t : State}

/-- **What holds at the start and is kept by every rule holds throughout a run.** -/
theorem Visited.induction {P : State → Prop} (h₀ : P (State.start code))
    (hP : ∀ s s', Move s s' → P s → P s') (hv : Visited code limits n s) : P s := by
  induction hv with
  | start => exact h₀
  | step _ _ _ hs ih => exact hP _ _ (step_eq_next_iff.mp hs) ih

/-- **From a visited state on, a run is the run from there.** -/
theorem Visited.evaluate_eq (hv : Visited code limits n s) :
    n ≤ limits.steps ∧ evaluate code limits = run limits.maxFrames (limits.steps - n) n s := by
  induction hv with
  | start => exact ⟨Nat.zero_le _, rfl⟩
  | @step n s s' _ ht hc hs ih =>
    refine ⟨ht, ih.2.trans ?_⟩
    have e : limits.steps - n = limits.steps - (n + 1) + 1 := by omega
    rw [e]
    simp only [run, hc, hs]

/-- A run that fails fails at a state that it visits. -/
theorem run_fault (left : Nat) (hv : Visited code limits n s) (hn : n + left = limits.steps)
    {fault : Fault} (he : (run limits.maxFrames left n s).ending = .fault fault) :
    ∃ m t p, Visited code limits m t ∧ step t = .failed fault p := by
  induction left generalizing n s with
  | zero => cases he
  | succ left ih =>
    simp only [run] at he
    cases hc : exceeded? limits.maxFrames s.stack.size with
    | some cap =>
      rw [hc] at he
      cases he
    | none =>
      rw [hc] at he
      cases hs : step s with
      | next s' =>
        rw [hs] at he
        exact ih (.step hv (by omega) hc hs) (by omega) he
      | finished v p =>
        rw [hs] at he
        cases he
      | failed fault' p =>
        rw [hs] at he
        cases he
        exact ⟨n, s, p, hv, hs⟩

theorem evaluate_fault {fault : Fault} (he : (evaluate code limits).ending = .fault fault) :
    ∃ m t p, Visited code limits m t ∧ step t = .failed fault p :=
  run_fault limits.steps .start (Nat.zero_add _) he

end Limited

end CallByNeed
