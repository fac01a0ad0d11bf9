/-
  File:      CallByNeed/Proofs/Reference.lean
  Subject:   A direct evaluator for call by need, and the machine as its refinement.

  The evaluator has no stack: it calls itself where the machine puts a frame on the stack, and goes
  on with the result. Its first argument bounds the depth of these calls; `none` is no answer yet.

  * `evaluateCode`, `forceCell`, `applyValue` -- the evaluator, on code, on cells and on a value
    applied to a cell; `forceAll` for the arguments of a strict primitive, from left to right,
    `applyAll` for the cells that a combinator hands on;
  * `Realises` -- what it means that the machine does what the evaluator says;
  * `realisedAt` -- it does, in every state from which the evaluator starts;
  * `machine_refines_evaluator` -- the same for whole runs, on top of any stack.
-/
import CallByNeed.Proofs.Machine.Runs

namespace CallByNeed

/-! ## 1. The evaluator -/

/-- What the evaluator answers. -/
inductive Answer where
  | value (v : Value) (heap : Heap) (printed : Printed)
  | fault (fault : Fault) (printed : Printed)
  deriving DecidableEq, Repr

/-- Goes on with a value; a fault is the last answer. -/
def andThen (r : Option Answer) (k : Value → Heap → Printed → Option Answer) : Option Answer :=
  match r with
  | some (.value v heap printed) => k v heap printed
  | some (.fault fault printed) => some (.fault fault printed)
  | none => none

/-- Keeps the value of a cell in it. -/
def store (a : Addr) (v : Value) (heap : Heap) (printed : Printed) : Option Answer :=
  some (.value v (heap.write a (.value v)) printed)

/-- Forces the cells `pending` from left to right, and then runs a strict primitive. -/
def forceAll (force : Addr → Heap → Printed → Option Answer) (b : Builtin) :
    (forced : List Value) → (pending : List Addr) → Heap → Printed → Option Answer
  | forced, [], heap, printed =>
    match strictEffect b forced printed with
    | .ok (v, printed) => some (.value v heap printed)
    | .error fault => some (.fault fault printed)
  | forced, a :: pending, heap, printed =>
    andThen (force a heap printed) fun v heap printed =>
      forceAll force b (forced ++ [v]) pending heap printed

/-- Applies a value to cells, one after another. -/
def applyAll (apply : Value → Addr → Heap → Printed → Option Answer) :
    Value → List Addr → Heap → Printed → Option Answer
  | v, [], heap, printed => some (.value v heap printed)
  | v, a :: args, heap, printed =>
    andThen (apply v a heap printed) fun w heap printed => applyAll apply w args heap printed

mutual

/-- The value of code: the function of an application first, its argument only if it is needed. -/
def evaluateCode : (depth : Nat) → Code → Env → Heap → Printed → Option Answer
  | 0, _, _, _, _ => none
  | depth + 1, code, env, heap, printed =>
    match code with
    | .var i =>
      match env[i]? with
      | some a => forceCell depth a heap printed
      | none => some (.fault (.unboundVariable i) printed)
    | .apply f x =>
      match argument? x env heap.size with
      | .ok (cells, a) =>
        andThen (evaluateCode depth f env (heap.extend cells) printed) fun v heap printed =>
          applyValue depth v a heap printed
      | .error fault => some (.fault fault printed)
    | .number n => some (.value (.number n) heap printed)
    | .string s => some (.value (.string s) heap printed)
    | .builtin b => some (.value (.primitive b []) heap printed)
    | .lambda body => some (.value (.closure body env) heap printed)

/-- The value of a cell, worked out at the first demand and kept. -/
def forceCell : (depth : Nat) → Addr → Heap → Printed → Option Answer
  | 0, _, _, _ => none
  | depth + 1, a, heap, printed =>
    match heap[a]? with
    | some (.value v) => some (.value v heap printed)
    | some (.suspended code env) =>
      andThen (evaluateCode depth code env (heap.write a .underEvaluation) printed) (store a)
    | some (.application func arg) =>
      andThen
        (andThen (forceCell depth func (heap.write a .underEvaluation) printed)
          fun v heap printed => applyValue depth v arg heap printed)
        (store a)
    | some .underEvaluation | none => some (.fault .infiniteLoop printed)

/-- A value applied to a cell. -/
def applyValue : (depth : Nat) → Value → Addr → Heap → Printed → Option Answer
  | 0, _, _, _, _ => none
  | depth + 1, v, a, heap, printed =>
    match v with
    | .closure body env => evaluateCode depth body (a :: env) heap printed
    | .primitive b args =>
      if args.length + 1 < b.collects then
        some (.value (.primitive b (args ++ [a])) heap printed)
      else if b.isStrict then
        forceAll (forceCell depth) b [] (args ++ [a]) heap printed
      else
        match handover? b (args ++ [a]) heap.size with
        | some (cells, .call f xs) =>
          andThen (forceCell depth f (heap.extend cells) printed) fun v heap printed =>
            applyAll (applyValue depth) v xs heap printed
        | some (cells, .result v) => some (.value v (heap.extend cells) printed)
        | none => some (.fault (.typeMismatch b s!"{(args ++ [a]).length} arguments") printed)
    | .number n => some (.fault (.notCallable (decimal n)) printed)
    | .string s => some (.fault (.notCallable s) printed)

end

/-! ## 2. The machine does what the evaluator says -/

/-- The machine, from `s`, does what the evaluator answers: it comes to the value with no frame
    left, it fails with the fault, or, where there is no answer yet, it takes `depth` steps. -/
def Realises (depth : Nat) (s : State) : Option Answer → Prop
  | some (.value v h p) => ∃ n, needMachine.Steps n s ⟨.give v, .ofList [], h, p⟩
  | some (.fault fault p) => ∃ n t, needMachine.Steps n s t ∧ step t = .failed fault p
  | none => ∃ t, needMachine.Steps depth s t

section Realises

variable {depth : Nat} {s t : State} {r : Option Answer}

/-- One rule first. -/
theorem Realises.head (hm : Move s t) (hr : Realises depth t r) : Realises (depth + 1) s r := by
  have hs := needMachine_next_inl.mpr hm
  match r, hr with
  | some (.value _ _ _), ⟨n, hn⟩ => exact ⟨n + 1, .head hs hn⟩
  | some (.fault _ _), ⟨n, u, hn, hu⟩ => exact ⟨n + 1, u, .head hs hn, hu⟩
  | none, ⟨u, hu⟩ => exact ⟨u, .head hs hu⟩

/-- Less depth asks for fewer steps. -/
theorem Realises.less (hr : Realises (depth + 1) s r) : Realises depth s r := by
  match r, hr with
  | some (.value _ _ _), hr => exact hr
  | some (.fault _ _), hr => exact hr
  | none, ⟨u, hu⟩ =>
    obtain ⟨t, ht, _⟩ := hu.split (Nat.le_succ depth)
    exact ⟨t, ht⟩

/-- A rule first, without more depth. -/
theorem Realises.headLess (hm : Move s t) (hr : Realises depth t r) : Realises depth s r :=
  (hr.head hm).less

/-- **Going on with a value is what a frame below does.** -/
theorem Realises.andThen {k : Value → Heap → Printed → Option Answer} {below : List Frame}
    (hr : Realises depth s r)
    (hk : ∀ v h p, Realises depth ⟨.give v, .ofList below, h, p⟩ (k v h p)) :
    Realises depth (s.onto below) (andThen r k) := by
  match r, hr with
  | none, ⟨u, hu⟩ => exact ⟨_, needMachine_onto hu below⟩
  | some (.fault _ _), ⟨n, u, hn, hu⟩ =>
    exact ⟨n, _, needMachine_onto hn below, step_failed_onto hu below⟩
  | some (.value v h p), ⟨n, hn⟩ =>
    have hs : needMachine.Steps n (s.onto below) ⟨.give v, .ofList below, h, p⟩ :=
      needMachine_onto hn below
    have hk := hk v h p
    show Realises depth (s.onto below) (k v h p)
    match k v h p, hk with
    | some (.value _ _ _), ⟨m, hm⟩ => exact ⟨n + m, hs.trans hm⟩
    | some (.fault _ _), ⟨m, u, hm, hu⟩ => exact ⟨n + m, u, hs.trans hm, hu⟩
    | none, ⟨u, hu⟩ =>
      obtain ⟨t, ht, _⟩ := (hs.trans hu).split (Nat.le_add_left depth n)
      exact ⟨t, ht⟩

/-- A cell takes its value from the frame that waits for it. -/
theorem realises_store (depth : Nat) (a : Addr) (v : Value) (h : Heap) (p : Printed) :
    Realises depth ⟨.give v, .ofList [.update a], h, p⟩ (store a v h p) :=
  ⟨1, .single (needMachine_next_inl.mpr (.fill a v [] h p))⟩

/-- Frames that apply a value, one after another. -/
theorem realises_applyAll {apply : Value → Addr → Heap → Printed → Option Answer}
    (ha : ∀ v a h p, Realises depth ⟨.give v, .ofList [.apply a], h, p⟩ (apply v a h p)) :
    ∀ (args : List Addr) (v : Value) (h : Heap) (p : Printed),
      Realises depth ⟨.give v, .ofList (args.map .apply), h, p⟩ (applyAll apply v args h p)
  | [], _, _, _ => ⟨0, .refl _⟩
  | a :: args, v, h, p =>
    Realises.andThen (ha v a h p) fun w h p => realises_applyAll ha args w h p

/-- A strict primitive that has its arguments' values. -/
theorem realises_strictLast (depth : Nat) (force : Addr → Heap → Printed → Option Answer)
    (b : Builtin) (forced : List Value) (v : Value) (h : Heap) (p : Printed) :
    Realises depth ⟨.give v, .ofList [.strict b forced []], h, p⟩
      (forceAll force b (forced ++ [v]) [] h p) := by
  unfold forceAll
  cases hr : strictEffect b (forced ++ [v]) p with
  | ok r =>
    obtain ⟨w, p'⟩ := r
    have hm : Move _ _ := .plain [] (.strictLast b forced v w h p p' hr)
    exact ⟨1, .single (needMachine_next_inl.mpr hm)⟩
  | error fault => exact ⟨0, _, .refl _, step_of_blocked (.strictLast b forced v fault h p hr) []⟩

/-- Frames that force the arguments of a strict primitive, from left to right. -/
theorem realises_forceAll {force : Addr → Heap → Printed → Option Answer}
    (hf : ∀ a h p, Realises depth ⟨.force a, .ofList [], h, p⟩ (force a h p)) (b : Builtin) :
    ∀ (pending : List Addr) (forced : List Value) (a : Addr) (h : Heap) (p : Printed),
      Realises depth ⟨.force a, .ofList [.strict b forced pending], h, p⟩
        (forceAll force b forced (a :: pending) h p)
  | [], forced, a, h, p =>
    Realises.andThen (hf a h p) fun v h p => realises_strictLast depth force b forced v h p
  | next :: pending, forced, a, h, p =>
    Realises.andThen (hf a h p) fun v h p =>
      Realises.headLess (.plain [] (.strictNext b forced next pending v h p))
        (realises_forceAll hf b pending (forced ++ [v]) next h p)

end Realises

/-- What is realised at one depth, for all three parts of the evaluator. -/
structure RealisedAt (depth : Nat) : Prop where
  code : ∀ code env h p,
    Realises depth ⟨.eval code env, .ofList [], h, p⟩ (evaluateCode depth code env h p)
  cell : ∀ a h p, Realises depth ⟨.force a, .ofList [], h, p⟩ (forceCell depth a h p)
  value : ∀ v a h p,
    Realises depth ⟨.give v, .ofList [.apply a], h, p⟩ (applyValue depth v a h p)

section Depth

variable {depth : Nat} (hd : RealisedAt depth)

include hd

theorem RealisedAt.code_succ (code : Code) (env : Env) (h : Heap) (p : Printed) :
    Realises (depth + 1) ⟨.eval code env, .ofList [], h, p⟩
      (evaluateCode (depth + 1) code env h p) := by
  have literal {v : Value} (hv : code.value? env = some v) :
      Realises (depth + 1) ⟨.eval code env, .ofList [], h, p⟩ (some (.value v h p)) :=
    ⟨1, .single (needMachine_next_inl.mpr (.plain [] (.literal code env v h p hv)))⟩
  cases code with
  | var i =>
    simp only [evaluateCode]
    cases hi : env[i]? with
    | none => exact ⟨0, _, .refl _, step_of_blocked (.unbound i env h p hi) []⟩
    | some a => exact (hd.cell a h p).head (.plain [] (.lookup i env a h p hi))
  | apply f x =>
    simp only [evaluateCode]
    cases hx : argument? x env h.size with
    | error fault => exact ⟨0, _, .refl _, step_of_blocked (.argument f x env fault h p hx) []⟩
    | ok r =>
      obtain ⟨cells, a⟩ := r
      refine Realises.head (.plain [] (.argument f x env cells a h p hx)) ?_
      rw [State.onto_nil]
      exact Realises.andThen (hd.code f env _ p) fun v h p => hd.value v a h p
  | number n => exact literal rfl
  | string s => exact literal rfl
  | builtin b => exact literal rfl
  | lambda body => exact literal rfl

theorem RealisedAt.cell_succ (a : Addr) (h : Heap) (p : Printed) :
    Realises (depth + 1) ⟨.force a, .ofList [], h, p⟩ (forceCell (depth + 1) a h p) := by
  unfold forceCell
  cases ha : h[a]? with
  | none => exact ⟨0, _, .refl _, step_of_blocked (.entered a h p (.inr ha)) []⟩
  | some c =>
    cases c with
    | underEvaluation => exact ⟨0, _, .refl _, step_of_blocked (.entered a h p (.inl ha)) []⟩
    | value v => exact ⟨1, .single (needMachine_next_inl.mpr (.plain [] (.known a v h p ha)))⟩
    | suspended code env =>
      refine Realises.head (.enterCode a code env [] h p ha) ?_
      exact Realises.andThen (hd.code code env _ p) fun v h p => realises_store depth a v h p
    | application func arg =>
      refine Realises.head (.enterApplication a func arg [] h p ha) ?_
      have hcall : Realises depth ⟨.force func, .ofList [.apply arg], h.write a .underEvaluation, p⟩
          (CallByNeed.andThen (forceCell depth func (h.write a .underEvaluation) p)
            fun v heap printed => applyValue depth v arg heap printed) :=
        Realises.andThen (hd.cell func _ p) fun v h p => hd.value v arg h p
      exact Realises.andThen hcall fun v h p => realises_store depth a v h p

theorem RealisedAt.value_succ (v : Value) (a : Addr) (h : Heap) (p : Printed) :
    Realises (depth + 1) ⟨.give v, .ofList [.apply a], h, p⟩
      (applyValue (depth + 1) v a h p) := by
  cases v with
  | number n => exact ⟨0, _, .refl _, step_of_blocked (.number n a h p) []⟩
  | string s => exact ⟨0, _, .refl _, step_of_blocked (.string s a h p) []⟩
  | closure body env =>
    exact (hd.code body (a :: env) h p).head (.plain [] (.closure body env a h p))
  | primitive b args =>
    simp only [applyValue]
    by_cases hb : args.length + 1 < b.collects
    · simp only [hb, if_true]
      exact ⟨1, .single (needMachine_next_inl.mpr (.plain [] (.collect b args a h p hb)))⟩
    simp only [hb, if_false]
    cases hs : b.isStrict with
    | true =>
      simp only [if_true]
      cases hn : args ++ [a] with
      | nil => simp at hn
      | cons next pending =>
        refine Realises.head (.plain [] (.strictFirst b args a next pending h p hb hs hn)) ?_
        exact realises_forceAll hd.cell b pending [] next h p
    | false =>
      simp only [Bool.false_eq_true, if_false]
      cases ho : handover? b (args ++ [a]) h.size with
      | none => exact ⟨0, _, .refl _, step_of_blocked (.handover b args a h p hb hs ho) []⟩
      | some r =>
        obtain ⟨cells, o⟩ := r
        cases o with
        | result w =>
          have hm : Move _ _ := .plain [] (.result b args a cells w h p hb hs ho)
          exact ⟨1, .single (needMachine_next_inl.mpr hm)⟩
        | call f xs =>
          refine Realises.head (.plain [] (.call b args a cells f xs h p hb hs ho)) ?_
          rw [State.onto_nil]
          exact Realises.andThen (hd.cell f _ p) fun v h p => realises_applyAll hd.value xs v h p

end Depth

/-- **The machine does what the evaluator says, at every depth.** -/
theorem realisedAt : ∀ depth, RealisedAt depth
  | 0 => ⟨fun _ _ _ _ => ⟨_, .refl _⟩, fun _ _ _ => ⟨_, .refl _⟩, fun _ _ _ _ => ⟨_, .refl _⟩⟩
  | depth + 1 =>
    have hd := realisedAt depth
    ⟨hd.code_succ, hd.cell_succ, hd.value_succ⟩

/-! ## 3. Whole runs -/

/-- A state with no frames of its own, on top of a stack. -/
theorem State.onto_frames (focus : Focus) (stack : Stack) (h : Heap) (p : Printed) :
    State.onto ⟨focus, .ofList [], h, p⟩ stack.frames = ⟨focus, stack, h, p⟩ := by
  simp [State.onto]

/-- **The machine refines the evaluator**, on top of any stack and without limits. A value that the
    evaluator finds is what the machine comes to, with the same memory and the same text printed,
    and the stack lies untouched below all the way. A fault that it finds ends the run. Where it
    has no answer at some depth, the machine is still running after that many steps; so a run that
    ends ends as the evaluator says. -/
theorem machine_refines_evaluator (code : Code) (env : Env) (heap : Heap) (printed : Printed)
    (stack : Stack) :
    (∀ depth v heap' printed',
      evaluateCode depth code env heap printed = some (.value v heap' printed') →
      ∃ n, (∀ left taken, run none (n + left) taken ⟨.eval code env, stack, heap, printed⟩ =
          run none left (taken + n) ⟨.give v, stack, heap', printed'⟩) ∧
        ∀ k ≤ n, ∃ l : State, needMachine.Steps k ⟨.eval code env, stack, heap, printed⟩
          (l.onto stack.frames)) ∧
    (∀ depth fault printed',
      evaluateCode depth code env heap printed = some (.fault fault printed') →
      ∃ n, ∀ left taken, run none (n + (left + 1)) taken ⟨.eval code env, stack, heap, printed⟩ =
        ⟨.fault fault, printed', taken + n + 1⟩) ∧
    (∀ depth taken, evaluateCode depth code env heap printed = none →
      (run none depth taken ⟨.eval code env, stack, heap, printed⟩).ending = .outOfTime) := by
  have hstart := State.onto_frames (.eval code env) stack heap printed
  refine ⟨fun depth v heap' printed' he => ?_, fun depth fault printed' he => ?_,
    fun depth taken he => ?_⟩
  all_goals
    have hr := (realisedAt depth).code code env heap printed
    rw [he] at hr
  · obtain ⟨n, hn⟩ := hr
    refine ⟨n, fun left taken => ?_, fun k hk => ?_⟩
    · have hs := needMachine_onto hn stack.frames
      rw [hstart, State.onto_frames] at hs
      rw [run_none_eq, run_none_eq]
      exact runBy_of_steps hs
    · obtain ⟨l, hl, _⟩ := hn.split hk
      have hs := needMachine_onto hl stack.frames
      rw [hstart] at hs
      exact ⟨l, hs⟩
  · obtain ⟨n, t, hn, ht⟩ := hr
    refine ⟨n, fun left taken => ?_⟩
    have hs := needMachine_onto hn stack.frames
    rw [hstart] at hs
    rw [run_none_eq]
    exact runBy_of_end hs (Machine.ofStep_next_inr.mpr (.inr ⟨fault, rfl, step_failed_onto ht _⟩))
  · obtain ⟨t, ht⟩ := hr
    have hs := needMachine_onto ht stack.frames
    rw [hstart] at hs
    rw [run_none_eq]
    exact runBy_outOfTime hs

/-- An argument that is needed twice is worked out once, and its cell keeps the value. -/
example :
    let twice : Code := .lambda (.apply (.apply (.builtin .eq) (.var 0)) (.var 0))
    evaluateCode 9 (.apply twice (.apply (.builtin .print) (.number 1))) [] #[] #[] =
      some (.value (.primitive .true []) #[.value (.string "1"), .value (.number 1)] #["1"]) := by
  decide

end CallByNeed
