/-
  File:      CallByNeed/Proofs/Machine/Silence.lean
  Subject:   A program that does not mention `@print` prints nothing.

  * `Value.PrintFree`, `Cell.PrintFree`, `Focus.PrintFree`, `Frame.PrintFree` -- parts of a state
    without `@print`;
  * `State.PrintFree`, `State.PrintFree.move`, `State.PrintFree.steps` -- the invariant, one rule
    and a run;
  * `Code.PrintFree.silent` -- a whole program.
-/
import CallByNeed.Proofs.ByName.Encoding
import CallByNeed.Proofs.Machine.Limits
import CallByNeed.Proofs.Machine.Parts

namespace CallByNeed

/-! ## 1. Parts without `@print` -/

/-- A value without `@print` in its code. -/
def Value.PrintFree : Value → Prop
  | .closure body _ => body.PrintFree
  | .primitive b _ => b ≠ .print
  | .number _ | .string _ => True

/-- A cell without `@print` in its code. -/
def Cell.PrintFree : Cell → Prop
  | .suspended code _ => code.PrintFree
  | .value v => v.PrintFree
  | .application _ _ | .underEvaluation => True

/-- A focus without `@print` in its code. -/
def Focus.PrintFree : Focus → Prop
  | .eval code _ => code.PrintFree
  | .give v => v.PrintFree
  | .force _ => True

/-- A frame that does not wait to print. -/
def Frame.PrintFree : Frame → Prop
  | .strict b forced _ => b ≠ .print ∧ ∀ v ∈ forced, v.PrintFree
  | .apply _ | .update _ => True

/-- A state in which `@print` does not occur. -/
abbrev State.PrintFree (s : State) : Prop :=
  s.Each Focus.PrintFree Frame.PrintFree Cell.PrintFree

theorem Code.value?_printFree {code : Code} {env : Env} {v : Value} (hv : code.value? env = some v)
    (hc : code.PrintFree) : v.PrintFree := by
  cases code <;> cases hv
  case builtin b => exact Code.printFree_builtin.mp hc
  case lambda body => exact hc
  all_goals trivial

theorem argument?_printFree {x : Code} {env : Env} {n a : Nat} {cells : List Cell}
    (hx : argument? x env n = .ok (cells, a)) (hc : x.PrintFree) : ∀ c ∈ cells, c.PrintFree := by
  cases x with
  | var i =>
    simp only [argument?] at hx
    split at hx <;> cases hx
    simp
  | builtin b =>
    cases hx
    intro c hm
    obtain rfl := List.mem_singleton.mp hm
    exact Code.printFree_builtin.mp hc
  | lambda body =>
    cases hx
    intro c hm
    obtain rfl := List.mem_singleton.mp hm
    exact hc
  | _ =>
    cases hx
    simp [Cell.PrintFree, Value.PrintFree, hc]

/-- No combinator makes `@print`. -/
theorem handover?_printFree {b : Builtin} {args : List Nat} {n : Nat} {cells : List Cell}
    {o : Handover} (ho : handover? b args n = some (cells, o)) :
    (∀ c ∈ cells, c.PrintFree) ∧ ∀ v, o = .result v → v.PrintFree := by
  unfold handover? at ho
  split at ho <;> cases ho
  all_goals simp [Cell.PrintFree, Value.PrintFree]

theorem Value.Computed.printFree {v : Value} (h : v.Computed) : v.PrintFree := by
  cases h with
  | number n => trivial
  | string s => trivial
  | truth b => cases b <;> exact Builtin.noConfusion

/-- A strict primitive other than `@print` neither prints nor makes `@print`. -/
theorem strictEffect_printFree {b : Builtin} (hb : b ≠ .print) {args : List Value} {p p' : Printed}
    {v : Value} (hr : strictEffect b args p = .ok (v, p')) : v.PrintFree ∧ p' = p := by
  rw [strictEffect_of_ne_print fun _ h => absurd h hb] at hr
  split at hr
  · rename_i w hw
    cases hr
    exact ⟨(strictResult_computed hw).printFree, rfl⟩
  · cases hr

/-! ## 2. The invariant -/

/-- A rule that keeps every cell brings no `@print` and prints nothing. -/
theorem State.PrintFree.plain {l l' : State} (hs : l.PrintFree) (hl : Plain l l') :
    l'.PrintFree ∧ l'.printed = l.printed := by
  obtain ⟨hfocus, hstack, hheap⟩ := hs
  cases hl with
  | lookup i env a h p hi => exact ⟨⟨trivial, by simp, hheap⟩, rfl⟩
  | literal code env v h p hv =>
    exact ⟨⟨Code.value?_printFree hv hfocus, by simp, hheap⟩, rfl⟩
  | argument f x env cells a h p hx =>
    obtain ⟨hf, hc⟩ := Code.printFree_apply.mp hfocus
    exact ⟨⟨hf, by simp [Frame.PrintFree],
      Heap.forall_extend hheap (argument?_printFree hx hc)⟩, rfl⟩
  | known a v h p ha => exact ⟨⟨hheap a _ ha, by simp, hheap⟩, rfl⟩
  | closure body env a h p => exact ⟨⟨hfocus, by simp, hheap⟩, rfl⟩
  | collect b args a h p hb => exact ⟨⟨hfocus, by simp, hheap⟩, rfl⟩
  | strictFirst b args a next pending h p hb hs hn =>
    have hprint : b ≠ .print := hfocus
    exact ⟨⟨trivial, by simp [Frame.PrintFree, hprint], hheap⟩, rfl⟩
  | call b args a cells f xs h p hb hs ho =>
    exact ⟨⟨trivial, by simp [Frame.PrintFree],
      Heap.forall_extend hheap (handover?_printFree ho).1⟩, rfl⟩
  | result b args a cells v h p hb hs ho =>
    obtain ⟨hcells, hv⟩ := handover?_printFree ho
    exact ⟨⟨hv v rfl, by simp, Heap.forall_extend hheap hcells⟩, rfl⟩
  | strictNext b forced next pending v h p =>
    obtain ⟨hprint, hforced⟩ : b ≠ .print ∧ ∀ w ∈ forced, w.PrintFree :=
      hstack _ (List.mem_singleton.mpr rfl)
    refine ⟨⟨trivial, fun f hf => ?_, hheap⟩, rfl⟩
    obtain rfl := List.mem_singleton.mp hf
    refine ⟨hprint, fun w hw => ?_⟩
    rcases List.mem_append.mp hw with hw | hw
    · exact hforced w hw
    · obtain rfl := List.mem_singleton.mp hw
      exact hfocus
  | strictLast b forced v w h p p' hr =>
    obtain ⟨hprint, _⟩ : b ≠ .print ∧ ∀ w ∈ forced, w.PrintFree :=
      hstack _ (List.mem_singleton.mpr rfl)
    obtain ⟨hw, hp⟩ := strictEffect_printFree hprint hr
    exact ⟨⟨hw, by simp, hheap⟩, hp⟩

theorem partsFit_printFree : PartsFit Focus.PrintFree Frame.PrintFree Cell.PrintFree where
  force _ := trivial
  apply _ := trivial
  update _ := trivial
  marked := trivial
  entered _ _ h := h
  filled _ h := h

/-- **One rule brings no `@print` and prints nothing.** -/
theorem State.PrintFree.move {s s' : State} (hs : s.PrintFree) (hm : Move s s') :
    s'.PrintFree ∧ s'.printed = s.printed := by
  refine ⟨State.Each.move partsFit_printFree (fun _ _ hl h => (plain h hl).1) hs hm, ?_⟩
  cases hm with
  | plain below hl => exact (plain (State.each_onto.mp hs).1 hl).2
  | enterCode => rfl
  | enterApplication => rfl
  | fill => rfl

/-- Nor do any number of them. -/
theorem State.PrintFree.steps {s t : State} {n : Nat} (hs : s.PrintFree)
    (ht : needMachine.Steps n s t) : t.printed = s.printed := by
  induction ht with
  | refl s => rfl
  | head h _ ih =>
    obtain ⟨hnext, hprinted⟩ := hs.move (needMachine_next_inl.mp h)
    rw [ih hnext, hprinted]

/-- **A program that does not mention `@print` prints nothing.** -/
theorem Code.PrintFree.silent {code : Code} (hc : code.PrintFree) {n : Nat} {s : State}
    (hs : Iteration code n s) : s.printed = #[] := by
  have hstart : (State.start code).PrintFree :=
    ⟨hc, fun f hf => by simp [State.start, Stack.empty] at hf, fun a c hc => by
      simp [State.start] at hc⟩
  exact hstart.steps hs

end CallByNeed
