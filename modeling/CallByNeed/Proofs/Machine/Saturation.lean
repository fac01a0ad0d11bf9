/-
  File:      CallByNeed/Proofs/Machine/Saturation.lean
  Subject:   Primitives act on exactly the arguments they collect.

  A primitive value waits for at least one more argument, and a strict primitive that acts has as
  many values, pending cells and cells being forced as it collects. Nothing is assumed about the
  code, which may hold any primitive, also those that cannot be written.

  * `Value.Unsaturated`, `Cell.Unsaturated`, `Focus.Unsaturated`, `Frame.Unsaturated` -- what waits;
  * `handoverAt?` -- a combinator that reads its arguments by position, and `handoverAt?_eq`: with
    all of its arguments it finds every position and is `handover?`;
  * `StrictArm` -- the argument lists that a strict primitive has a rule for;
  * `Unsaturated`, `Unsaturated.move` -- the invariant of a state, and one rule;
  * `primitives_act_saturated` -- it holds in every run of every code, no position is missed, and no
    run ends with a count of arguments.
-/
import CallByNeed.Proofs.Machine.Parts

namespace CallByNeed

/-! ## 1. What waits for an argument -/

/-- A primitive has fewer arguments than it collects. -/
def Value.Unsaturated : Value → Prop
  | .primitive b args => args.length < b.collects
  | .number _ | .string _ | .closure _ _ => True

/-- A cell's value waits, if it has one. -/
def Cell.Unsaturated : Cell → Prop
  | .value v => v.Unsaturated
  | .suspended _ _ | .application _ _ | .underEvaluation => True

/-- The value in the focus waits, if there is one. -/
def Focus.Unsaturated : Focus → Prop
  | .give v => v.Unsaturated
  | .eval _ _ | .force _ => True

/-- A frame of a strict primitive has all of its arguments: the values it has got, the cell that is
    being forced and the cells behind it. -/
def Frame.Unsaturated : Frame → Prop
  | .strict b forced pending =>
    b.isStrict = true ∧ forced.length + 1 + pending.length = b.collects ∧
      ∀ v ∈ forced, v.Unsaturated
  | .apply _ | .update _ => True

theorem Builtin.unsaturated_nil (b : Builtin) : (Value.primitive b []).Unsaturated := by
  show 0 < b.collects
  cases b <;> decide

theorem Value.unsaturated_of_isGround {v : Value} (hv : v.isGround = true) : v.Unsaturated := by
  cases v with
  | closure body env => cases hv
  | number n => trivial
  | string s => trivial
  | primitive b args =>
    cases args with
    | nil => exact b.unsaturated_nil
    | cons a args => cases hv

theorem Code.value?_unsaturated {code : Code} {env : Env} {v : Value}
    (hv : code.value? env = some v) : v.Unsaturated := by
  cases code <;> cases hv
  case builtin b => exact b.unsaturated_nil
  all_goals trivial

theorem argument?_unsaturated {x : Code} {env : Env} {n a : Nat} {cells : List Cell}
    (hx : argument? x env n = .ok (cells, a)) : ∀ c ∈ cells, c.Unsaturated := by
  cases x with
  | var i =>
    simp only [argument?] at hx
    split at hx <;> cases hx
    simp
  | builtin b =>
    cases hx
    simp only [List.mem_singleton, forall_eq]
    exact b.unsaturated_nil
  | _ =>
    cases hx
    simp [Cell.Unsaturated, Value.Unsaturated]

/-! ## 2. Combinators -/

/-- A combinator that takes its arguments by their position, and is stuck at a position that is not
    there. -/
def handoverAt? (b : Builtin) (args : List Addr) (n : Addr) : Option (List Cell × Handover) :=
  match b with
  | .true => do return ([], .call (← args[0]?) [])
  | .false | .nil => do return ([], .call (← args[1]?) [])
  | .ite => do return ([], .call (← args[0]?) [← args[1]?, ← args[2]?])
  | .not => do
    return ([.value (.primitive .false []), .value (.primitive .true [])],
      .call (← args[0]?) [n, n + 1])
  | .and => do return ([.value (.primitive .false [])], .call (← args[0]?) [← args[1]?, n])
  | .or => do return ([.value (.primitive .true [])], .call (← args[0]?) [n, ← args[1]?])
  | .pair => do return ([], .call (← args[2]?) [← args[0]?, ← args[1]?])
  | .first => do return ([.value (.primitive .true [])], .call (← args[0]?) [n])
  | .second => do return ([.value (.primitive .false [])], .call (← args[0]?) [n])
  | .append => do
    return ([.application (← args[1]?) (← args[2]?), .application n (← args[3]?)],
      .call (← args[2]?) [← args[0]?, n + 1])
  | .head => do
    return ([.value (.primitive .true []), .value (.number 0)], .call (← args[0]?) [n, n + 1])
  | .isEmpty => do
    return ([.value (.primitive .false []), .value (.primitive .true [n]),
      .value (.primitive .true [n + 1]), .value (.primitive .true [])],
      .call (← args[0]?) [n + 2, n + 3])
  | .tail => do
    return ([.value (.primitive .nil []), .value (.primitive .nil []),
      .value (.primitive .pair [n, n + 1]), .value (.primitive .tailStep []),
      .application (← args[0]?) (n + 3), .application (n + 4) (n + 2),
      .value (.primitive .true [])], .call (n + 5) [n + 6])
  | .tailStep => do
    return ([.value (.primitive .false []), .application (← args[1]?) n,
      .value (.primitive .append [← args[0]?, n + 1])], .result (.primitive .pair [n + 1, n + 2]))
  | .print | .add | .sub | .mul | .div | .mod | .length | .eq | .lt | .le => none

/-- The combinators are the primitives that are not strict, on the arguments that they collect. -/
theorem handover?_isSome_iff (b : Builtin) (args : List Addr) (n : Addr) :
    (handover? b args n).isSome ↔ b.isStrict = false ∧ args.length = b.collects := by
  rcases args with _ | ⟨a₁, _ | ⟨a₂, _ | ⟨a₃, _ | ⟨a₄, _ | ⟨a₅, args⟩⟩⟩⟩⟩
  all_goals cases b <;> simp [handover?, Builtin.isStrict, Builtin.collects, Builtin.arity]

/-- **A combinator with all of its arguments finds every position that it reads.** -/
theorem handoverAt?_eq {b : Builtin} {args : List Addr} (hargs : args.length = b.collects)
    (n : Addr) : handoverAt? b args n = handover? b args n := by
  rcases args with _ | ⟨a₁, _ | ⟨a₂, _ | ⟨a₃, _ | ⟨a₄, _ | ⟨a₅, args⟩⟩⟩⟩⟩
  all_goals cases b <;> first | rfl | cases hargs

/-- The partial applications that a combinator builds wait for their arguments. -/
theorem handover?_unsaturated {b : Builtin} {args : List Addr} {n : Nat} {cells : List Cell}
    {o : Handover} (ho : handover? b args n = some (cells, o)) :
    (∀ c ∈ cells, c.Unsaturated) ∧ ∀ v, o = .result v → v.Unsaturated := by
  unfold handover? at ho
  split at ho <;> cases ho
  all_goals simp [Cell.Unsaturated, Value.Unsaturated, Builtin.collects, Builtin.arity]

/-! ## 3. Strict primitives -/

/-- The argument lists for which a strict primitive has a rule: one value to print or to measure,
    or two values. -/
inductive StrictArm : Builtin → List Value → Prop where
  | print (v : Value) : StrictArm .print [v]
  | length (v : Value) : StrictArm .length [v]
  | binary (b : Builtin) (v w : Value) : StrictArm b [v, w]

/-- A strict primitive has a rule for the arguments that it collects. -/
theorem StrictArm.of_length {b : Builtin} {args : List Value} (hs : b.isStrict = true)
    (hargs : args.length = b.collects) : StrictArm b args := by
  rcases args with _ | ⟨v, _ | ⟨w, _ | ⟨u, args⟩⟩⟩
  · cases b <;> cases hargs
  · cases b
    case print => exact .print v
    case length => exact .length v
    all_goals first | cases hs; done | simp [Builtin.collects, Builtin.arity] at hargs
  · exact .binary b v w
  · cases b <;> first | cases hs; done | simp [Builtin.collects, Builtin.arity] at hargs

/-- A text that says what a value is starts with a word or a bracket, never with a count. -/
theorem Value.describe_ne_count (v : Value) (n : Nat) : v.describe ≠ s!"{n} arguments" := by
  have hcount : (s!"{n} arguments").toList = Nat.toDigits 10 n ++ " arguments".toList := by
    show (toString n ++ " arguments").toList = _
    rw [String.toList_append]
    congr 1
    show n.repr.toList = _
    rw [Nat.repr_eq_ofList_toDigits, String.toList_ofList]
  obtain ⟨d, ds, hds⟩ := List.exists_cons_of_ne_nil (Nat.toDigits_ne_nil (n := n) (b := 10))
  have hd : d.isDigit = true := by
    refine Nat.isDigit_of_mem_toDigits (b := 10) (n := n) (by decide) (by decide) ?_
    rw [hds]
    exact List.mem_cons_self
  -- the two texts differ in their first character
  have differ {c : Char} (hc : c.isDigit = false) (hv : v.describe.toList.head? = some c) :
      v.describe ≠ s!"{n} arguments" := by
    intro he
    rw [he, hcount, hds] at hv
    cases hv
    rw [hd] at hc
    cases hc
  cases v with
  | number m => exact differ (c := 'n') rfl (by simp [describe])
  | string s => exact differ (c := 's') rfl (by simp [describe])
  | closure body env => exact differ (c := '<') rfl (by simp [describe, display])
  | primitive b args =>
    refine differ (c := '<') rfl ?_
    show ("<builtin @" ++ b.name ++ ">").toList.head? = _
    simp

/-- If a fault speaks of a value, it is one of `args`. -/
def Fault.Describes (args : List Value) : Fault → Prop
  | .typeMismatch _ found => ∃ v ∈ args, found = v.describe
  | .notCallable _ | .divisionByZero _ | .overflow _ | .infiniteLoop | .unboundVariable _ => True

section Describes

variable {b : Builtin} {args : List Value} {fault : Fault}

theorem exactly_describes {n : Int} (h : exactly b n = .error fault) : fault.Describes args := by
  unfold exactly at h
  split at h <;> cases h
  trivial

theorem divided_describes {d : Int64} {n : Int} (h : divided b d n = .error fault) :
    fault.Describes args := by
  unfold divided at h
  split at h
  · cases h
    trivial
  · exact exactly_describes h

theorem arithmetic?_describes {m n : Int64} (h : arithmetic? b m n = some (.error fault)) :
    fault.Describes args := by
  unfold arithmetic? at h
  split at h <;> simp only [Option.some.injEq, reduceCtorEq] at h
  · exact exactly_describes h
  · exact exactly_describes h
  · exact exactly_describes h
  · exact divided_describes h
  · exact divided_describes h

theorem unfitPair_describes {v w : Value} (h : unfitPair b v w = .error fault) :
    fault.Describes [v, w] := by
  unfold unfitPair unfit at h
  cases h
  refine ⟨culprit v w, ?_, rfl⟩
  unfold culprit
  split
  · simp
  · split
    · simp
    · split <;> simp

theorem getD_describes {o : Option (Except Fault Value)} {v w : Value}
    (ho : o = some (.error fault) → fault.Describes [v, w])
    (h : o.getD (unfitPair b v w) = .error fault) : fault.Describes [v, w] := by
  cases o with
  | none => exact unfitPair_describes h
  | some r => exact ho (congrArg some h)

theorem binaryResult_describes {v w : Value} (h : binaryResult b v w = .error fault) :
    fault.Describes [v, w] := by
  unfold binaryResult at h
  split at h
  · cases h
  · exact getD_describes arithmetic?_describes h
  · refine getD_describes (fun ht => ?_) h
    unfold textual? at ht
    split at ht <;> cases ht
  · cases h
  · cases h
  · exact unfitPair_describes h

/-- **A strict primitive that has a rule for its arguments speaks of none but their values.** -/
theorem StrictArm.describes {p : Printed} (ha : StrictArm b args)
    (h : strictEffect b args p = .error fault) : fault.Describes args := by
  cases ha with
  | print v => cases h
  | length v =>
    cases v <;> cases h
    all_goals exact ⟨_, List.mem_singleton.mpr rfl, rfl⟩
  | binary b v w =>
    rw [strictEffect_of_ne_print (by simp)] at h
    have hr : strictResult b [v, w] = binaryResult b v w := by simp [strictResult]
    rw [hr] at h
    split at h <;> cases h
    rename_i hb
    exact binaryResult_describes hb

end Describes

/-! ## 4. The invariant -/

/-- Every primitive of a state waits for an argument, and every strict primitive that acts has all
    of its arguments. -/
def Unsaturated : State → Prop :=
  State.Each Focus.Unsaturated Frame.Unsaturated Cell.Unsaturated

theorem unsaturated_start (code : Code) : Unsaturated (State.start code) where
  focus := trivial
  stack f hf := by simp [State.start, Stack.empty] at hf
  heap a c hc := by simp [State.start] at hc

/-- A primitive that stops waiting has exactly the arguments it collects. -/
theorem Value.Unsaturated.saturates {b : Builtin} {args : List Addr}
    (hv : (Value.primitive b args).Unsaturated) (a : Addr) (hb : ¬ args.length + 1 < b.collects) :
    (args ++ [a]).length = b.collects := by
  have hlt : args.length < b.collects := hv
  simp only [List.length_append, List.length_singleton]
  omega

/-- A rule that writes no cell keeps primitives waiting. -/
theorem Unsaturated.plain {l l' : State} (hl : Plain l l') (hs : Unsaturated l) :
    Unsaturated l' := by
  obtain ⟨hfocus, hstack, hheap⟩ := hs
  cases hl with
  | lookup i env a h p hi => exact ⟨trivial, by simp, hheap⟩
  | literal code env v h p hv => exact ⟨Code.value?_unsaturated hv, by simp, hheap⟩
  | argument f x env cells a h p hx =>
    exact ⟨trivial, by simp [Frame.Unsaturated],
      Heap.forall_extend hheap (argument?_unsaturated hx)⟩
  | known a v h p ha => exact ⟨hheap a _ ha, by simp, hheap⟩
  | closure body env a h p => exact ⟨trivial, by simp, hheap⟩
  | collect b args a h p hb =>
    refine ⟨?_, by simp, hheap⟩
    show (args ++ [a]).length < b.collects
    simpa using hb
  | strictFirst b args a next pending h p hb hs hn =>
    have hlen : (args ++ [a]).length = b.collects := Value.Unsaturated.saturates hfocus a hb
    rw [hn, List.length_cons] at hlen
    refine ⟨trivial, ?_, hheap⟩
    simp only [Stack.frames_ofList, List.mem_singleton, forall_eq]
    refine ⟨hs, ?_, by simp⟩
    show 0 + 1 + pending.length = b.collects
    omega
  | call b args a cells f xs h p hb hs ho =>
    exact ⟨trivial, by simp [Frame.Unsaturated],
      Heap.forall_extend hheap (handover?_unsaturated ho).1⟩
  | result b args a cells v h p hb hs ho =>
    obtain ⟨hcells, hv⟩ := handover?_unsaturated ho
    exact ⟨hv v rfl, by simp, Heap.forall_extend hheap hcells⟩
  | strictNext b forced next pending v h p =>
    obtain ⟨hs, hlen, hforced⟩ := hstack _ (List.mem_singleton.mpr rfl)
    refine ⟨trivial, ?_, hheap⟩
    simp only [Stack.frames_ofList, List.mem_singleton, forall_eq]
    refine ⟨hs, ?_, fun w hw => ?_⟩
    · simp only [List.length_append, List.length_cons, List.length_nil] at hlen ⊢
      omega
    · rcases List.mem_append.mp hw with hw | hw
      · exact hforced w hw
      · obtain rfl := List.mem_singleton.mp hw
        exact hfocus
  | strictLast b forced v w h p p' hr =>
    exact ⟨Value.unsaturated_of_isGround (strictEffect_ground hr), by simp, hheap⟩

theorem partsFit_unsaturated :
    PartsFit Focus.Unsaturated Frame.Unsaturated Cell.Unsaturated where
  force _ := trivial
  apply _ := trivial
  update _ := trivial
  marked := trivial
  entered _ _ _ := trivial
  filled _ h := h

/-- **One rule keeps primitives waiting.** -/
theorem Unsaturated.move {s s' : State} (hm : Move s s') (hs : Unsaturated s) : Unsaturated s' :=
  State.Each.move partsFit_unsaturated (fun _ _ => Unsaturated.plain) hs hm

/-! ## 5. Whole runs -/

theorem Visited.unsaturated {code : Code} {limits : Limits} {n : Nat} {s : State}
    (hv : Visited code limits n s) : Unsaturated s :=
  hv.induction (unsaturated_start code) fun _ _ => Unsaturated.move

/-- No step of such a state fails over the number of arguments. -/
theorem Unsaturated.not_count {s : State} (hs : Unsaturated s) (b : Builtin) (n : Nat)
    (p : Printed) : step s ≠ .failed (.typeMismatch b s!"{n} arguments") p := by
  intro hstep
  obtain ⟨_, l, below, rfl, hb⟩ := step_eq_failed_iff.mp hstep
  obtain ⟨hfocus, hstack, _⟩ := (State.each_onto.mp hs).1
  generalize hfault : Fault.typeMismatch b s!"{n} arguments" = fault at hb
  cases hb with
  | argument f x env fault h p hx =>
    subst hfault
    unfold argument? at hx
    split at hx
    · split at hx <;> cases hx
    all_goals cases hx
  | handover c args a h p hb hlazy ho =>
    have hlen := Value.Unsaturated.saturates hfocus a hb
    have hsome := (handover?_isSome_iff c (args ++ [a]) h.size).mpr ⟨hlazy, hlen⟩
    rw [ho] at hsome
    cases hsome
  | strictLast c forced v fault h p hr =>
    subst hfault
    obtain ⟨hstrict, hlen, _⟩ := hstack _ (List.mem_singleton.mpr rfl)
    have harm : StrictArm c (forced ++ [v]) := .of_length hstrict (by simpa using hlen)
    obtain ⟨w, _, hw⟩ := harm.describes hr
    exact w.describe_ne_count n hw.symm
  | _ => cases hfault

/-- **Primitives act on exactly the arguments they collect.** In every state that a run of any code
    comes to, under any limits, every primitive in the focus, on the stack and in memory has fewer
    arguments than it collects, and every strict frame belongs to a strict primitive and has as many
    values, cells being forced and pending cells as that collects. So a primitive that gets its last
    argument has exactly as many as it collects: a strict one has a first argument to force; any
    other one is a combinator that finds every position it reads. And when the last value of a
    strict primitive comes, the primitive has a rule for its values. No run ends with a count of
    arguments. -/
theorem primitives_act_saturated (code : Code) :
    (∀ limits n s, Visited code limits n s →
      Unsaturated s ∧
      (∀ b args a below, s.focus = .give (.primitive b args) →
        s.stack.frames = .apply a :: below → ¬ args.length + 1 < b.collects →
        (args ++ [a]).length = b.collects ∧
        (b.isStrict = true → ∃ first pending, args ++ [a] = first :: pending) ∧
        (b.isStrict = false ↔ ∃ r, handoverAt? b (args ++ [a]) s.heap.size = some r ∧
          handover? b (args ++ [a]) s.heap.size = some r)) ∧
      (∀ b forced v below, s.focus = .give v → s.stack.frames = .strict b forced [] :: below →
        StrictArm b (forced ++ [v]))) ∧
    ∀ limits b (n : Nat),
      (evaluate code limits).ending ≠ .fault (.typeMismatch b s!"{n} arguments") := by
  refine ⟨fun limits n s hv => ⟨hv.unsaturated, ?_, ?_⟩, ?_⟩
  · intro b args a below hfocus _ hb
    have hprim : (Value.primitive b args).Unsaturated := by
      have h := hv.unsaturated.focus
      rwa [hfocus] at h
    have hlen := hprim.saturates a hb
    refine ⟨hlen, fun _ => List.exists_cons_of_ne_nil (by simp), ?_⟩
    have hsome := handover?_isSome_iff b (args ++ [a]) s.heap.size
    rw [handoverAt?_eq hlen]
    simp only [and_self, ← Option.isSome_iff_exists, hsome, hlen, and_true]
  · intro b forced v below _ hstack
    obtain ⟨hstrict, hlen, _⟩ : (Frame.strict b forced []).Unsaturated :=
      hv.unsaturated.stack _ (by rw [hstack]; exact List.mem_cons_self)
    exact .of_length hstrict (by simpa using hlen)
  · intro limits b n hend
    obtain ⟨m, s, p, hv, hstep⟩ := evaluate_fault hend
    exact hv.unsaturated.not_count b n p hstep

end CallByNeed
