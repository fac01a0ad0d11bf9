/-
  File:      CallByNeed/Proofs/Machine/Scope.lean
  Subject:   Compiled programs never run out of scope.

  Code under `n` lambdas points at those lambdas or at lambdas of its own. Compiling gives such code,
  and the machine keeps each piece of it together with an environment that is deep enough.

  * `Code.InScope` -- the variables of code under `n` lambdas; `Code.ofExpr_inScope`;
  * `Value.InScope`, `Cell.InScope`, `Focus.InScope`, `Frame.InScope` -- the same for everything
    that holds code together with an environment;
  * `InScope` and `InScope.move` -- the invariant of a state and one rule;
  * `compiled_in_scope` -- it holds throughout every run of a compiled program, which therefore
    never fails with `unboundVariable`.
-/
import CallByNeed.Proofs.Machine.Parts

namespace CallByNeed

/-! ## 1. Code -/

/-- Every variable counts fewer lambdas than there are around it, `depth` of them further out. -/
def Code.InScope (depth : Nat) : Code → Prop
  | .number _ | .string _ | .builtin _ => True
  | .var i => i < depth
  | .lambda body => body.InScope (depth + 1)
  | .apply f a => f.InScope depth ∧ a.InScope depth

/-- A variable in scope has its cell. -/
theorem Code.InScope.lookup {i : Nat} {env : Env} (h : (Code.var i).InScope env.length) :
    ∃ a, env[i]? = some a :=
  ⟨_, List.getElem?_eq_getElem h⟩

/-- **Compiled code is in the scope it was compiled in.** -/
theorem Code.ofExpr_inScope {e : Expr} {scope : List String} {code : Code}
    (h : Code.ofExpr scope e = .ok code) : code.InScope scope.length := by
  induction e generalizing scope code with
  | number p n =>
    cases h
    trivial
  | string p s =>
    cases h
    trivial
  | name p x =>
    simp only [ofExpr] at h
    split at h
    · rename_i i hi
      cases h
      obtain ⟨hlt, _⟩ := List.findIdx?_eq_some_iff_getElem.mp hi
      exact hlt
    · cases h
  | builtin p x =>
    simp only [ofExpr] at h
    split at h <;> cases h
    trivial
  | lambda p x body ih =>
    simp only [ofExpr] at h
    split at h
    · cases h
    · rename_i inner hbody
      cases h
      show inner.InScope (scope.length + 1)
      exact ih hbody
  | apply p func arg ihf iha =>
    simp only [ofExpr] at h
    split at h
    · cases h
    · rename_i f hf
      split at h
      · cases h
      · rename_i a ha
        cases h
        exact ⟨ihf hf, iha ha⟩

/-! ## 2. What holds code -/

/-- The body of a closure runs under one lambda more than its environment has cells. -/
def Value.InScope : Value → Prop
  | .closure body env => body.InScope (env.length + 1)
  | .number _ | .string _ | .primitive _ _ => True

/-- A suspension's code is in the scope of its environment. -/
def Cell.InScope : Cell → Prop
  | .suspended code env => code.InScope env.length
  | .value v => v.InScope
  | .application _ _ | .underEvaluation => True

/-- Code that is evaluated is in the scope of its environment. -/
def Focus.InScope : Focus → Prop
  | .eval code env => code.InScope env.length
  | .give v => v.InScope
  | .force _ => True

/-- A frame holds code in the values that a strict primitive has got. -/
def Frame.InScope : Frame → Prop
  | .strict _ forced _ => ∀ v ∈ forced, v.InScope
  | .apply _ | .update _ => True

theorem Value.inScope_of_isGround {v : Value} (hv : v.isGround = true) : v.InScope := by
  cases v with
  | closure body env => cases hv
  | _ => trivial

theorem Code.value?_inScope {code : Code} {env : Env} {v : Value} (hv : code.value? env = some v)
    (hc : code.InScope env.length) : v.InScope := by
  cases code <;> cases hv
  case lambda body => exact hc
  all_goals trivial

/-- The cells of an argument keep its code with its environment. -/
theorem argument?_inScope {x : Code} {env : Env} {n a : Nat} {cells : List Cell}
    (hx : argument? x env n = .ok (cells, a)) (hc : x.InScope env.length) :
    ∀ c ∈ cells, c.InScope := by
  cases x with
  | var i =>
    simp only [argument?] at hx
    split at hx <;> cases hx
    simp
  | lambda body =>
    cases hx
    intro c hm
    obtain rfl := List.mem_singleton.mp hm
    exact hc
  | _ =>
    cases hx
    simp [Cell.InScope, Value.InScope, hc]

/-- An argument in scope has a cell. -/
theorem argument?_isOk {x : Code} {env : Env} (n : Nat) (hc : x.InScope env.length) :
    ∃ r, argument? x env n = .ok r := by
  cases x with
  | var i =>
    obtain ⟨a, ha⟩ := hc.lookup
    exact ⟨([], a), by simp [argument?, ha]⟩
  | _ => exact ⟨_, rfl⟩

/-- A combinator makes no code. -/
theorem handover?_inScope {b : Builtin} {args : List Nat} {n : Nat} {cells : List Cell}
    {o : Handover} (ho : handover? b args n = some (cells, o)) :
    (∀ c ∈ cells, c.InScope) ∧ ∀ v, o = .result v → v.InScope := by
  unfold handover? at ho
  split at ho <;> cases ho
  all_goals simp [Cell.InScope, Value.InScope]

/-! ## 3. The invariant -/

/-- All code of a state is kept with an environment that is deep enough for it: in the focus, on
    the stack and in memory. -/
structure InScope (s : State) : Prop where
  focus : s.focus.InScope
  stack : ∀ f ∈ s.stack.frames, f.InScope
  heap : ∀ (a : Nat) (c : Cell), s.heap[a]? = some c → c.InScope

theorem inScope_start {code : Code} (h : code.InScope 0) : InScope (State.start code) where
  focus := h
  stack f hf := by simp [State.start, Stack.empty] at hf
  heap a c hc := by simp [State.start] at hc

/-- A rule that keeps every cell keeps code in scope: on the frames it takes off and puts on. -/
theorem InScope.plain {l l' : State} (hs : InScope l) (hl : Plain l l') : InScope l' := by
  obtain ⟨hfocus, hstack, hheap⟩ := hs
  cases hl with
  | lookup i env a h p hi => exact ⟨trivial, by simp, hheap⟩
  | literal code env v h p hv => exact ⟨Code.value?_inScope hv hfocus, by simp, hheap⟩
  | argument f x env cells a h p hx =>
    obtain ⟨hf, hc⟩ : f.InScope env.length ∧ x.InScope env.length := hfocus
    exact ⟨hf, by simp [Frame.InScope], Heap.forall_extend hheap (argument?_inScope hx hc)⟩
  | known a v h p ha => exact ⟨hheap a _ ha, by simp, hheap⟩
  | closure body env a h p => exact ⟨hfocus, by simp, hheap⟩
  | collect b args a h p hb => exact ⟨trivial, by simp, hheap⟩
  | strictFirst b args a next pending h p hb hs hn =>
    exact ⟨trivial, by simp [Frame.InScope], hheap⟩
  | call b args a cells f xs h p hb hs ho =>
    exact ⟨trivial, by simp [Frame.InScope], Heap.forall_extend hheap (handover?_inScope ho).1⟩
  | result b args a cells v h p hb hs ho =>
    obtain ⟨hcells, hv⟩ := handover?_inScope ho
    exact ⟨hv v rfl, by simp, Heap.forall_extend hheap hcells⟩
  | strictNext b forced next pending v h p =>
    have hforced : ∀ w ∈ forced, w.InScope := hstack _ (List.mem_singleton.mpr rfl)
    refine ⟨trivial, ?_, hheap⟩
    simp only [Stack.frames_ofList, List.mem_singleton, forall_eq, Frame.InScope, List.mem_append]
    rintro w (hw | rfl)
    · exact hforced w hw
    · exact hfocus
  | strictLast b forced v w h p p' hr =>
    exact ⟨Value.inScope_of_isGround (strictEffect_ground hr), by simp, hheap⟩

theorem inScope_iff {s : State} : InScope s ↔ s.Each Focus.InScope Frame.InScope Cell.InScope :=
  ⟨fun ⟨hfocus, hstack, hheap⟩ => ⟨hfocus, hstack, hheap⟩,
    fun ⟨hfocus, hstack, hheap⟩ => ⟨hfocus, hstack, hheap⟩⟩

theorem partsFit_inScope : PartsFit Focus.InScope Frame.InScope Cell.InScope where
  force _ := trivial
  apply _ := trivial
  update _ := trivial
  marked := trivial
  entered _ _ h := h
  filled _ h := h

/-- **One rule keeps code in scope.** -/
theorem InScope.move {s s' : State} (hs : InScope s) (hm : Move s s') : InScope s' := by
  have hplain (l l' : State) (hl : Plain l l')
      (h : l.Each Focus.InScope Frame.InScope Cell.InScope) :
      l'.Each Focus.InScope Frame.InScope Cell.InScope :=
    inScope_iff.mp ((inScope_iff.mpr h).plain hl)
  exact inScope_iff.mpr (State.Each.move partsFit_inScope hplain (inScope_iff.mp hs) hm)

/-! ## 4. Whole runs -/

theorem Visited.inScope {code : Code} {limits : Limits} {n : Nat} {s : State}
    (hcode : code.InScope 0) (hv : Visited code limits n s) : InScope s :=
  hv.induction (inScope_start hcode) fun _ _ hm hs => hs.move hm

/-- No step of a state in scope misses a variable. -/
theorem InScope.not_unboundVariable {s : State} (hs : InScope s) (i : Nat) (p : Printed) :
    step s ≠ .failed (.unboundVariable i) p := by
  intro hstep
  obtain ⟨_, l, below, rfl, hb⟩ := step_eq_failed_iff.mp hstep
  have hfocus : l.focus.InScope := hs.focus
  generalize hfault : Fault.unboundVariable i = fault at hb
  cases hb with
  | unbound j env h p hj =>
    obtain ⟨a, ha⟩ := Code.InScope.lookup hfocus
    cases hj.symm.trans ha
  | argument f x env fault h p hx =>
    obtain ⟨r, hr⟩ := argument?_isOk h.size hfocus.2
    cases hx.symm.trans hr
  | strictLast b forced v fault h p hr =>
    subst hfault
    cases strictEffect_blamesValues hr
  | _ => cases hfault

/-- **A compiled program never runs out of scope.** Its variables point at lambdas around them; in
    every state that its run comes to, under any limits, the code in the focus, on the stack and in
    memory has an environment that is deep enough; and the run never misses a variable. -/
theorem compiled_in_scope {e : Expr} {code : Code} (he : e.compile = .ok code) :
    code.InScope 0 ∧
    (∀ limits n s, Visited code limits n s → InScope s) ∧
    ∀ limits i, (evaluate code limits).ending ≠ .fault (.unboundVariable i) := by
  have hcode : code.InScope 0 := Code.ofExpr_inScope he
  refine ⟨hcode, fun limits n s hv => hv.inScope hcode, fun limits i hend => ?_⟩
  obtain ⟨n, s, p, hv, hs⟩ := evaluate_fault hend
  exact (hv.inScope hcode).not_unboundVariable i p hs

/-- The program `(\x.\y.x y) (\z.z)`, which keeps an environment in a closure. -/
theorem compiled_in_scope_curried :
    let e : Expr := .apply default
      (.lambda default "x" (.lambda default "y" (.apply default (.name default "x")
        (.name default "y"))))
      (.lambda default "z" (.name default "z"))
    let code : Code := .apply (.lambda (.lambda (.apply (.var 1) (.var 0)))) (.lambda (.var 0))
    e.compile = .ok code ∧ code.InScope 0 ∧
      ∀ limits i, (evaluate code limits).ending ≠ .fault (.unboundVariable i) := by
  intro e code
  have he : e.compile = .ok code := rfl
  obtain ⟨hcode, _, hend⟩ := compiled_in_scope he
  exact ⟨he, hcode, hend⟩

end CallByNeed
