/-
  File:      CallByNeed/Proofs/Machine/Move.lean
  Subject:   The machine's step, rule by rule.

  A step looks at the focus and at no more than one frame, and leaves what lies below alone. It
  writes a cell that exists in two places only: a suspended cell is marked when it is entered, and
  an update frame fills its cell. Every other step makes new cells at most.

  * `argument?`, `handover?`, `strictEffect` -- what a step does with an argument, with a saturated
    combinator and with the values of a strict primitive, told without the stack;
  * `State.onto` -- a state with more frames below its own;
  * `Plain`, `Move` -- the rules: those that keep every cell, and all of them;
  * `Blocked` -- the states in which there is no rule;
  * `step_eq_next_iff`, `step_eq_failed_iff`, `step_eq_finished_iff` -- `step` is these rules;
  * `Move.onto` -- a rule does not see the frames below.
-/
import CallByNeed.Machine.Run

namespace CallByNeed

/-! ## 1. The parts of a step, without the stack -/

/-- New cells behind all others, the first one first. -/
def Heap.extend (h : Heap) (cells : List Cell) : Heap := cells.foldl Array.push h

@[simp] theorem Heap.extend_nil (h : Heap) : h.extend [] = h := rfl

@[simp] theorem Heap.extend_cons (h : Heap) (c : Cell) (cells : List Cell) :
    h.extend (c :: cells) = Heap.extend (h.push c) cells := rfl

/-- The value that code is already. -/
def Code.value? (env : Env) : Code → Option Value
  | .number n => some (.number n)
  | .string s => some (.string s)
  | .builtin b => some (.primitive b [])
  | .lambda body => some (.closure body env)
  | .var _ | .apply _ _ => none

/-- The argument `code`: the new cells it takes, numbered from `n`, and its own cell. -/
def argument? (code : Code) (env : Env) (n : Addr) : Except Fault (List Cell × Addr) :=
  match code with
  | .var i =>
    match env[i]? with
    | some a => .ok ([], a)
    | none => .error (.unboundVariable i)
  | .apply f x => .ok ([.suspended (.apply f x) env], n)
  | .number m => .ok ([.value (.number m)], n)
  | .string s => .ok ([.value (.string s)], n)
  | .builtin b => .ok ([.value (.primitive b [])], n)
  | .lambda body => .ok ([.value (.closure body env)], n)

/-- What a saturated combinator comes to: the application of a cell to cells, or a value. -/
inductive Handover where
  | call (func : Addr) (args : List Addr)
  | result (v : Value)
  deriving DecidableEq, Repr

/-- A saturated combinator: the new cells it takes, numbered from `n`, and what it comes to. -/
def handover? (b : Builtin) (args : List Addr) (n : Addr) : Option (List Cell × Handover) :=
  match b, args with
  | .true, [a, _] => some ([], .call a [])
  | .false, [_, a] => some ([], .call a [])
  | .nil, [_, a] => some ([], .call a [])
  | .ite, [c, t, e] => some ([], .call c [t, e])
  | .not, [c] =>
    some ([.value (.primitive .false []), .value (.primitive .true [])], .call c [n, n + 1])
  | .and, [c, d] => some ([.value (.primitive .false [])], .call c [d, n])
  | .or, [c, d] => some ([.value (.primitive .true [])], .call c [n, d])
  | .pair, [a, b, f] => some ([], .call f [a, b])
  | .first, [p] => some ([.value (.primitive .true [])], .call p [n])
  | .second, [p] => some ([.value (.primitive .false [])], .call p [n])
  | .append, [a, l, f, x] =>
    some ([.application l f, .application n x], .call f [a, n + 1])
  | .head, [l] =>
    some ([.value (.primitive .true []), .value (.number 0)], .call l [n, n + 1])
  | .isEmpty, [l] =>
    some ([.value (.primitive .false []), .value (.primitive .true [n]),
      .value (.primitive .true [n + 1]), .value (.primitive .true [])], .call l [n + 2, n + 3])
  | .tail, [l] =>
    some ([.value (.primitive .nil []), .value (.primitive .nil []),
      .value (.primitive .pair [n, n + 1]), .value (.primitive .tailStep []),
      .application l (n + 3), .application (n + 4) (n + 2), .value (.primitive .true [])],
      .call (n + 5) [n + 6])
  | .tailStep, [a, p] =>
    some ([.value (.primitive .false []), .application p n,
      .value (.primitive .append [a, n + 1])], .result (.primitive .pair [n + 1, n + 2]))
  | _, _ => none

/-- A strict primitive on the values of its arguments, and what is printed then. -/
def strictEffect (b : Builtin) (args : List Value) (printed : Printed) :
    Except Fault (Value × Printed) :=
  match b, args with
  | .print, [v] => .ok (.string v.display, printed.push v.display)
  | b, args =>
    match strictResult b args with
    | .ok v => .ok (v, printed)
    | .error fault => .error fault

theorem argumentCell_eq (code : Code) (env : Env) (heap : Heap) :
    argumentCell code env heap =
      match argument? code env heap.size with
      | .ok (cells, a) => .ok (a, heap.extend cells)
      | .error fault => .error fault := by
  cases code with
  | var i =>
    simp only [argumentCell, argument?]
    cases env[i]? <;> rfl
  | _ => rfl

theorem actCombinator_eq (b : Builtin) (args : List Addr) (stack : Stack) (heap : Heap)
    (printed : Printed) :
    actCombinator b args stack heap printed =
      match handover? b args heap.size with
      | some (cells, .call f xs) => applyCell f xs stack (heap.extend cells) printed
      | some (cells, .result v) => .next ⟨.give v, stack, heap.extend cells, printed⟩
      | none => .failed (.typeMismatch b s!"{args.length} arguments") printed := by
  unfold actCombinator
  split
  case h_16 h₁ h₂ h₃ h₄ h₅ h₆ h₇ h₈ h₉ h₁₀ h₁₁ h₁₂ h₁₃ h₁₄ h₁₅ =>
    have hnone : handover? b args heap.size = none := by
      unfold handover?
      split <;> grind
    rw [hnone]
  all_goals simp [handover?, Heap.constant, Heap.ready, Heap.defer, Heap.alloc, Value.ofBuiltin]

/-- Whether a combinator is saturated is a matter of how many arguments it has. -/
theorem handover?_isSome (b : Builtin) (n m : Nat) : ∀ {args args' : List Nat},
    args.length = args'.length → (handover? b args n).isSome = (handover? b args' m).isSome
  | [], [], _ => by cases b <;> rfl
  | [_], [_], _ => by cases b <;> rfl
  | [_, _], [_, _], _ => by cases b <;> rfl
  | [_, _, _], [_, _, _], _ => by cases b <;> rfl
  | [_, _, _, _], [_, _, _, _], _ => by cases b <;> rfl
  | _ :: _ :: _ :: _ :: _ :: _, _ :: _ :: _ :: _ :: _ :: _, _ => by cases b <;> rfl

/-- Only `print` with one argument has an effect. -/
theorem strictEffect_of_ne_print {b : Builtin} {args : List Value} {printed : Printed}
    (hb : ∀ v, b = .print → args ≠ [v]) :
    strictEffect b args printed =
      match strictResult b args with
      | .ok v => .ok (v, printed)
      | .error fault => .error fault := by
  unfold strictEffect
  split
  · rename_i v
    exact absurd rfl (hb v rfl)
  · rfl

theorem completeStrict_eq (b : Builtin) (args : List Value) (stack : Stack) (heap : Heap)
    (printed : Printed) :
    completeStrict b args stack heap printed =
      match strictEffect b args printed with
      | .ok (v, printed) => .next ⟨.give v, stack, heap, printed⟩
      | .error fault => .failed fault printed := by
  unfold completeStrict
  split
  · rfl
  · rename_i hb
    rw [strictEffect_of_ne_print hb]
    cases strictResult b args <;> rfl

/-! ## 2. Stacks and states over further frames -/

/-- The stack with these frames, top first. -/
def Stack.ofList (frames : List Frame) : Stack := ⟨frames, frames.length, rfl⟩

@[simp] theorem Stack.frames_ofList (fs : List Frame) : (Stack.ofList fs).frames = fs := rfl

@[simp] theorem Stack.size_ofList (fs : List Frame) : (Stack.ofList fs).size = fs.length := rfl

@[simp] theorem Stack.ofList_frames (s : Stack) : Stack.ofList s.frames = s := Stack.ext rfl

@[simp] theorem Stack.push_ofList (fs : List Frame) (f : Frame) :
    (Stack.ofList fs).push f = .ofList (f :: fs) := Stack.ext rfl

@[simp] theorem Stack.pop?_ofList_nil : (Stack.ofList []).pop? = none := rfl

@[simp] theorem Stack.pop?_ofList_cons (f : Frame) (fs : List Frame) :
    (Stack.ofList (f :: fs)).pop? = some (f, .ofList fs) := by
  simp only [Stack.ofList, Stack.pop?, Option.some.injEq, Prod.mk.injEq, true_and]
  exact Stack.ext rfl

@[simp] theorem Stack.pushArgs_ofList (fs : List Frame) (args : List Addr) :
    (Stack.ofList fs).pushArgs args = .ofList (args.map .apply ++ fs) := by
  induction args with
  | nil => rfl
  | cons a args ih =>
    show ((Stack.ofList fs).pushArgs args).push (.apply a) = _
    rw [ih, Stack.push_ofList]
    rfl

/-- A state with more frames below its own. -/
def State.onto (s : State) (below : List Frame) : State :=
  ⟨s.focus, .ofList (s.stack.frames ++ below), s.heap, s.printed⟩

@[simp] theorem State.onto_nil (s : State) : s.onto [] = s := by
  simp [State.onto]

theorem State.onto_onto (s : State) (fs gs : List Frame) :
    (s.onto fs).onto gs = s.onto (fs ++ gs) := by
  simp [State.onto]

theorem State.onto_inj {s t : State} {fs : List Frame} (h : s.onto fs = t.onto fs) : s = t := by
  obtain ⟨focus, stack, heap, printed⟩ := s
  simp only [State.onto, State.mk.injEq] at h
  obtain ⟨rfl, hstack, rfl, rfl⟩ := h
  have hframes := congrArg Stack.frames hstack
  simp only [Stack.frames_ofList, List.append_cancel_right_eq] at hframes
  congr 1
  exact Stack.ext hframes

@[simp] theorem State.heap_onto (s : State) (fs : List Frame) : (s.onto fs).heap = s.heap := rfl

@[simp] theorem State.focus_onto (s : State) (fs : List Frame) : (s.onto fs).focus = s.focus := rfl

@[simp] theorem State.printed_onto (s : State) (fs : List Frame) :
    (s.onto fs).printed = s.printed := rfl

@[simp] theorem State.frames_onto (s : State) (fs : List Frame) :
    (s.onto fs).stack.frames = s.stack.frames ++ fs := rfl

/-! ## 3. The rules -/

/-- The rules that keep every cell, on the frame they take off and those they put on the stack. -/
inductive Plain : State → State → Prop where
  | lookup (i : Nat) (env : Env) (a : Addr) (h : Heap) (p : Printed) (hi : env[i]? = some a) :
      Plain ⟨.eval (.var i) env, .ofList [], h, p⟩ ⟨.force a, .ofList [], h, p⟩
  | literal (code : Code) (env : Env) (v : Value) (h : Heap) (p : Printed)
      (hv : code.value? env = some v) :
      Plain ⟨.eval code env, .ofList [], h, p⟩ ⟨.give v, .ofList [], h, p⟩
  | argument (f x : Code) (env : Env) (cells : List Cell) (a : Addr) (h : Heap) (p : Printed)
      (hx : argument? x env h.size = .ok (cells, a)) :
      Plain ⟨.eval (.apply f x) env, .ofList [], h, p⟩
        ⟨.eval f env, .ofList [.apply a], h.extend cells, p⟩
  | known (a : Addr) (v : Value) (h : Heap) (p : Printed) (ha : h[a]? = some (.value v)) :
      Plain ⟨.force a, .ofList [], h, p⟩ ⟨.give v, .ofList [], h, p⟩
  | closure (body : Code) (env : Env) (a : Addr) (h : Heap) (p : Printed) :
      Plain ⟨.give (.closure body env), .ofList [.apply a], h, p⟩
        ⟨.eval body (a :: env), .ofList [], h, p⟩
  | collect (b : Builtin) (args : List Addr) (a : Addr) (h : Heap) (p : Printed)
      (hb : args.length + 1 < b.collects) :
      Plain ⟨.give (.primitive b args), .ofList [.apply a], h, p⟩
        ⟨.give (.primitive b (args ++ [a])), .ofList [], h, p⟩
  | strictFirst (b : Builtin) (args : List Addr) (a next : Addr) (pending : List Addr) (h : Heap)
      (p : Printed) (hb : ¬ args.length + 1 < b.collects) (hs : b.isStrict = true)
      (hn : args ++ [a] = next :: pending) :
      Plain ⟨.give (.primitive b args), .ofList [.apply a], h, p⟩
        ⟨.force next, .ofList [.strict b [] pending], h, p⟩
  | call (b : Builtin) (args : List Addr) (a : Addr) (cells : List Cell) (f : Addr)
      (xs : List Addr) (h : Heap) (p : Printed) (hb : ¬ args.length + 1 < b.collects)
      (hs : b.isStrict = false) (ho : handover? b (args ++ [a]) h.size = some (cells, .call f xs)) :
      Plain ⟨.give (.primitive b args), .ofList [.apply a], h, p⟩
        ⟨.force f, .ofList (xs.map .apply), h.extend cells, p⟩
  | result (b : Builtin) (args : List Addr) (a : Addr) (cells : List Cell) (v : Value) (h : Heap)
      (p : Printed) (hb : ¬ args.length + 1 < b.collects) (hs : b.isStrict = false)
      (ho : handover? b (args ++ [a]) h.size = some (cells, .result v)) :
      Plain ⟨.give (.primitive b args), .ofList [.apply a], h, p⟩
        ⟨.give v, .ofList [], h.extend cells, p⟩
  | strictNext (b : Builtin) (forced : List Value) (next : Addr) (pending : List Addr) (v : Value)
      (h : Heap) (p : Printed) :
      Plain ⟨.give v, .ofList [.strict b forced (next :: pending)], h, p⟩
        ⟨.force next, .ofList [.strict b (forced ++ [v]) pending], h, p⟩
  | strictLast (b : Builtin) (forced : List Value) (v w : Value) (h : Heap) (p p' : Printed)
      (hr : strictEffect b (forced ++ [v]) p = .ok (w, p')) :
      Plain ⟨.give v, .ofList [.strict b forced []], h, p⟩ ⟨.give w, .ofList [], h, p'⟩

/-- All rules of the machine. -/
inductive Move : State → State → Prop where
  | plain {l l' : State} (below : List Frame) (hl : Plain l l') :
      Move (l.onto below) (l'.onto below)
  | enterCode (a : Addr) (code : Code) (env : Env) (fs : List Frame) (h : Heap) (p : Printed)
      (ha : h[a]? = some (.suspended code env)) :
      Move ⟨.force a, .ofList fs, h, p⟩
        ⟨.eval code env, .ofList (.update a :: fs), h.write a .underEvaluation, p⟩
  | enterApplication (a func arg : Addr) (fs : List Frame) (h : Heap) (p : Printed)
      (ha : h[a]? = some (.application func arg)) :
      Move ⟨.force a, .ofList fs, h, p⟩
        ⟨.force func, .ofList (.apply arg :: .update a :: fs), h.write a .underEvaluation, p⟩
  | fill (a : Addr) (v : Value) (fs : List Frame) (h : Heap) (p : Printed) :
      Move ⟨.give v, .ofList (.update a :: fs), h, p⟩
        ⟨.give v, .ofList fs, h.write a (.value v), p⟩

/-- The states without a rule, on the frame that would be taken off, and what is at fault. -/
inductive Blocked : State → Fault → Prop where
  | unbound (i : Nat) (env : Env) (h : Heap) (p : Printed) (hi : env[i]? = none) :
      Blocked ⟨.eval (.var i) env, .ofList [], h, p⟩ (.unboundVariable i)
  | argument (f x : Code) (env : Env) (fault : Fault) (h : Heap) (p : Printed)
      (hx : argument? x env h.size = .error fault) :
      Blocked ⟨.eval (.apply f x) env, .ofList [], h, p⟩ fault
  | entered (a : Addr) (h : Heap) (p : Printed)
      (ha : h[a]? = some .underEvaluation ∨ h[a]? = none) :
      Blocked ⟨.force a, .ofList [], h, p⟩ .infiniteLoop
  | number (n : Int64) (a : Addr) (h : Heap) (p : Printed) :
      Blocked ⟨.give (.number n), .ofList [.apply a], h, p⟩ (.notCallable (decimal n))
  | string (s : String) (a : Addr) (h : Heap) (p : Printed) :
      Blocked ⟨.give (.string s), .ofList [.apply a], h, p⟩ (.notCallable s)
  | handover (b : Builtin) (args : List Addr) (a : Addr) (h : Heap) (p : Printed)
      (hb : ¬ args.length + 1 < b.collects) (hs : b.isStrict = false)
      (ho : handover? b (args ++ [a]) h.size = none) :
      Blocked ⟨.give (.primitive b args), .ofList [.apply a], h, p⟩
        (.typeMismatch b s!"{(args ++ [a]).length} arguments")
  | strictLast (b : Builtin) (forced : List Value) (v : Value) (fault : Fault) (h : Heap)
      (p : Printed) (hr : strictEffect b (forced ++ [v]) p = .error fault) :
      Blocked ⟨.give v, .ofList [.strict b forced []], h, p⟩ fault

/-! ## 4. The rules are the machine's step -/

theorem step_of_plain {l l' : State} (hl : Plain l l') (below : List Frame) :
    step (l.onto below) = .next (l'.onto below) := by
  cases hl with
  | lookup i env a h p hi => simp [State.onto, step, evalStep, hi]
  | literal code env v h p hv =>
    cases code <;> simp_all [State.onto, step, evalStep, Code.value?, Value.ofBuiltin]
  | argument f x env cells a h p hx => simp [State.onto, step, evalStep, argumentCell_eq, hx]
  | known a v h p ha => simp [State.onto, step, forceStep, ha]
  | closure body env a h p => simp [State.onto, step, giveStep, applyStep]
  | collect b args a h p hb => simp [State.onto, step, giveStep, applyStep, hb]
  | strictFirst b args a next pending h p hb hs hn =>
    have hp : ¬ pending.length + 1 < b.collects := by
      have e := congrArg List.length hn
      simp only [List.length_append, List.length_cons, List.length_nil] at e
      omega
    simp [State.onto, step, giveStep, applyStep, act, actStrict, hs, hn, hp]
  | call b args a cells f xs h p hb hs ho =>
    simp [State.onto, step, giveStep, applyStep, act, actCombinator_eq, applyCell, hb, hs, ho]
  | result b args a cells v h p hb hs ho =>
    simp [State.onto, step, giveStep, applyStep, act, actCombinator_eq, hb, hs, ho]
  | strictNext b forced next pending v h p => simp [State.onto, step, giveStep]
  | strictLast b forced v w h p p' hr =>
    simp [State.onto, step, giveStep, completeStrict_eq, hr]

/-- Every rule is a step. -/
theorem step_of_move {s s' : State} (hm : Move s s') : step s = .next s' := by
  cases hm with
  | plain below hl => exact step_of_plain hl below
  | enterCode a code env fs h p ha => simp [step, forceStep, ha]
  | enterApplication a func arg fs h p ha => simp [step, forceStep, ha]
  | fill a v fs h p => simp [step, giveStep]

/-- A state without a rule fails, and prints nothing more. -/
theorem step_of_blocked {l : State} {fault : Fault} (hl : Blocked l fault) (below : List Frame) :
    step (l.onto below) = .failed fault l.printed := by
  cases hl with
  | unbound i env h p hi => simp [State.onto, step, evalStep, hi]
  | argument f x env fault h p hx => simp [State.onto, step, evalStep, argumentCell_eq, hx]
  | entered a h p ha => rcases ha with ha | ha <;> simp [State.onto, step, forceStep, ha]
  | number n a h p => simp [State.onto, step, giveStep, applyStep]
  | string s a h p => simp [State.onto, step, giveStep, applyStep]
  | handover b args a h p hb hs ho =>
    simp [State.onto, step, giveStep, applyStep, act, actCombinator_eq, hb, hs, ho]
  | strictLast b forced v fault h p hr =>
    simp [State.onto, step, giveStep, completeStrict_eq, hr]

/-- What the step of a state is, in the rules' words. -/
theorem step_cases (s : State) :
    (∃ s', step s = .next s' ∧ Move s s') ∨
    (∃ l below fault, s = State.onto l below ∧ Blocked l fault ∧ step s = .failed fault s.printed) ∨
    (∃ v h p, s = ⟨.give v, .ofList [], h, p⟩ ∧ step s = .finished v p) := by
  -- a rule on the top `l` of the stack settles the state
  have next {l l' : State} (below : List Frame) (hl : Plain l l') (hs : s = l.onto below) :
      ∃ s', step s = .next s' ∧ Move s s' := by
    subst hs
    exact ⟨_, step_of_plain hl below, .plain below hl⟩
  have blocked {l : State} {fault : Fault} (below : List Frame) (hl : Blocked l fault)
      (hs : s = l.onto below) :
      ∃ l below fault, s = State.onto l below ∧ Blocked l fault ∧
        step s = .failed fault s.printed := by
    subst hs
    exact ⟨l, below, fault, rfl, hl, step_of_blocked hl below⟩
  obtain ⟨focus, stack, h, p⟩ := s
  obtain ⟨fs, rfl⟩ : ∃ fs, stack = .ofList fs := ⟨stack.frames, (Stack.ofList_frames stack).symm⟩
  cases focus with
  | eval code env =>
    cases code with
    | var i =>
      cases hi : env[i]? with
      | none => exact .inr (.inl (blocked fs (.unbound i env h p hi) rfl))
      | some a => exact .inl (next fs (.lookup i env a h p hi) rfl)
    | apply f x =>
      cases hx : argument? x env h.size with
      | error fault => exact .inr (.inl (blocked fs (.argument f x env fault h p hx) rfl))
      | ok r => exact .inl (next fs (.argument f x env r.1 r.2 h p hx) rfl)
    | number n => exact .inl (next fs (.literal (.number n) env _ h p rfl) rfl)
    | string t => exact .inl (next fs (.literal (.string t) env _ h p rfl) rfl)
    | builtin b => exact .inl (next fs (.literal (.builtin b) env _ h p rfl) rfl)
    | lambda body => exact .inl (next fs (.literal (.lambda body) env _ h p rfl) rfl)
  | force a =>
    cases ha : h[a]? with
    | none => exact .inr (.inl (blocked fs (.entered a h p (.inr ha)) rfl))
    | some c =>
      cases c with
      | underEvaluation => exact .inr (.inl (blocked fs (.entered a h p (.inl ha)) rfl))
      | value v => exact .inl (next fs (.known a v h p ha) rfl)
      | suspended code env =>
        have hm := Move.enterCode a code env fs h p ha
        exact .inl ⟨_, step_of_move hm, hm⟩
      | application func arg =>
        have hm := Move.enterApplication a func arg fs h p ha
        exact .inl ⟨_, step_of_move hm, hm⟩
  | give v =>
    cases fs with
    | nil => exact .inr (.inr ⟨v, h, p, rfl, by simp [step]⟩)
    | cons f fs =>
      cases f with
      | update a =>
        have hm := Move.fill a v fs h p
        exact .inl ⟨_, step_of_move hm, hm⟩
      | strict b forced pending =>
        cases pending with
        | cons a pending => exact .inl (next fs (.strictNext b forced a pending v h p) rfl)
        | nil =>
          cases hr : strictEffect b (forced ++ [v]) p with
          | error fault => exact .inr (.inl (blocked fs (.strictLast b forced v fault h p hr) rfl))
          | ok r => exact .inl (next fs (.strictLast b forced v r.1 h p r.2 hr) rfl)
      | apply a =>
        cases v with
        | number n => exact .inr (.inl (blocked fs (.number n a h p) rfl))
        | string t => exact .inr (.inl (blocked fs (.string t a h p) rfl))
        | closure body env => exact .inl (next fs (.closure body env a h p) rfl)
        | primitive b args =>
          by_cases hb : args.length + 1 < b.collects
          · exact .inl (next fs (.collect b args a h p hb) rfl)
          cases hs : b.isStrict with
          | true =>
            cases hn : args ++ [a] with
            | nil => simp at hn
            | cons first pending =>
              exact .inl (next fs (.strictFirst b args a first pending h p hb hs hn) rfl)
          | false =>
            cases ho : handover? b (args ++ [a]) h.size with
            | none => exact .inr (.inl (blocked fs (.handover b args a h p hb hs ho) rfl))
            | some r =>
              obtain ⟨cells, o⟩ := r
              cases o with
              | call f xs => exact .inl (next fs (.call b args a cells f xs h p hb hs ho) rfl)
              | result w => exact .inl (next fs (.result b args a cells w h p hb hs ho) rfl)

/-- **The steps that go on are the rules.** -/
theorem step_eq_next_iff {s s' : State} : step s = .next s' ↔ Move s s' := by
  refine ⟨fun hs => ?_, step_of_move⟩
  rcases step_cases s with ⟨t, ht, hm⟩ | ⟨_, _, _, _, _, ht⟩ | ⟨_, _, _, _, ht⟩
  · rw [hs] at ht
    cases ht
    exact hm
  · rw [hs] at ht
    cases ht
  · rw [hs] at ht
    cases ht

/-- **The steps that fail are those without a rule.** -/
theorem step_eq_failed_iff {s : State} {fault : Fault} {p : Printed} :
    step s = .failed fault p ↔
      p = s.printed ∧ ∃ l below, s = State.onto l below ∧ Blocked l fault := by
  constructor
  · intro hs
    rcases step_cases s with ⟨_, ht, _⟩ | ⟨l, below, _, hl, hb, ht⟩ | ⟨_, _, _, _, ht⟩
    · rw [hs] at ht
      cases ht
    · rw [hs] at ht
      cases ht
      exact ⟨rfl, l, below, hl, hb⟩
    · rw [hs] at ht
      cases ht
  · rintro ⟨rfl, l, below, rfl, hb⟩
    exact step_of_blocked hb below

/-- **A run is over when a value meets no frame.** -/
theorem step_eq_finished_iff {s : State} {v : Value} {p : Printed} :
    step s = .finished v p ↔ ∃ h, s = ⟨.give v, .ofList [], h, p⟩ := by
  constructor
  · intro hs
    rcases step_cases s with ⟨_, ht, _⟩ | ⟨_, _, _, _, _, ht⟩ | ⟨_, h, _, e, ht⟩
    · rw [hs] at ht
      cases ht
    · rw [hs] at ht
      cases ht
    · rw [hs] at ht
      cases ht
      exact ⟨h, e⟩
  · rintro ⟨h, rfl⟩
    simp [step]

/-- **A rule does not see the frames below.** -/
theorem Move.onto {s s' : State} (hm : Move s s') (below : List Frame) :
    Move (s.onto below) (s'.onto below) := by
  cases hm with
  | plain fs hl =>
    rw [State.onto_onto, State.onto_onto]
    exact .plain _ hl
  | enterCode a code env fs h p ha => exact .enterCode a code env (fs ++ below) h p ha
  | enterApplication a func arg fs h p ha => exact .enterApplication a func arg (fs ++ below) h p ha
  | fill a v fs h p => exact .fill a v (fs ++ below) h p

/-- A fault does not see the frames below. -/
theorem step_failed_onto {s : State} {fault : Fault} {p : Printed}
    (hs : step s = .failed fault p) (below : List Frame) :
    step (s.onto below) = .failed fault p := by
  obtain ⟨rfl, l, fs, rfl, hb⟩ := step_eq_failed_iff.mp hs
  rw [State.onto_onto]
  exact step_of_blocked hb (fs ++ below)

end CallByNeed
