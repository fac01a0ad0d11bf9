/-
  File:      CallByNeed/Proofs/Machine/Output.lean
  Subject:   What a run has printed, step by step.

  Only one rule prints: the value that a waiting `@print` gets is shown on a line of its own. So at
  any time the output is made of the lines of the calls that have finished, in their order.

  * `State.rendering?` -- the line that a step prints, if it prints one;
  * `State.renderings` -- the lines that the first steps from a state print;
  * `Move.printed_eq`, `steps_printed_eq` -- one rule, and any number of them;
  * `Printed.text_eq_join`, `Printed.newline_mem_text` -- the output as a text.
-/
import CallByNeed.Proofs.Machine.Runs

namespace CallByNeed

/-! ## 1. Lines that steps print -/

/-- The line that a step from this state prints: a call of `@print` finishes with it. -/
def State.rendering? (s : State) : Option String :=
  match s.focus, s.stack.frames with
  | .give v, .strict .print [] [] :: _ => some v.display
  | _, _ => none

/-- The lines that the first steps from a state print, in their order. -/
def State.renderings : Nat → State → List String
  | 0, _ => []
  | n + 1, s =>
    s.rendering?.toList ++
      match step s with
      | .next s' => s'.renderings n
      | .finished .. | .failed .. => []

/-- A strict primitive that has the values of its arguments prints its line, if it is `@print`. -/
theorem strictEffect_printed_eq {b : Builtin} {forced : List Value} {v w : Value} {h : Heap}
    {p p' : Printed} (hr : strictEffect b (forced ++ [v]) p = .ok (w, p')) (below : List Frame) :
    p'.toList =
      p.toList ++ (State.rendering? ⟨.give v, .ofList (.strict b forced [] :: below), h, p⟩).toList := by
  by_cases hprint : b = .print ∧ forced = []
  · obtain ⟨rfl, rfl⟩ := hprint
    cases hr
    simp [State.rendering?]
  · have hnone : State.rendering? ⟨.give v, .ofList (.strict b forced [] :: below), h, p⟩ = none := by
      unfold State.rendering?
      split
      · rename_i hframes
        simp only [Stack.frames_ofList, List.cons.injEq, Frame.strict.injEq] at hframes
        exact absurd ⟨hframes.1.1, hframes.1.2.1⟩ hprint
      · rfl
    have hargs : ∀ u, b = .print → forced ++ [v] ≠ [u] := by
      intro u hb he
      refine hprint ⟨hb, List.length_eq_zero_iff.mp ?_⟩
      have hlength := congrArg List.length he
      simpa using hlength
    rw [strictEffect_of_ne_print hargs] at hr
    split at hr <;> cases hr
    simp [hnone]

/-- **A rule prints the line of the call that it finishes, and nothing else.** -/
theorem Move.printed_eq {s t : State} (hm : Move s t) :
    t.printed.toList = s.printed.toList ++ s.rendering?.toList := by
  cases hm with
  | plain below hl =>
    cases hl with
    | strictLast b forced v w h p p' hr => exact strictEffect_printed_eq hr below
    | _ => simp [State.rendering?, State.onto]
  | _ => simp [State.rendering?]

/-- **After any number of steps, the output is what it was and the lines of those steps.** -/
theorem steps_printed_eq {n : Nat} {s t : State} (h : needMachine.Steps n s t) :
    t.printed.toList = s.printed.toList ++ s.renderings n := by
  induction h with
  | refl s => simp [State.renderings]
  | @head n s s' t hs _ ih =>
    have hm := needMachine_next_inl.mp hs
    rw [ih, hm.printed_eq, State.renderings, step_eq_next_iff.mpr hm, List.append_assoc]

/-! ## 2. The text of the output -/

/-- The output as a text: every line, and a newline behind it. -/
theorem Printed.text_eq_join (p : Printed) :
    p.text = String.join (p.toList.map (· ++ "\n")) := by
  have onto : ∀ (lines : List String) (front : String),
      lines.foldl (fun text line => text ++ line ++ "\n") front =
        (lines.map (· ++ "\n")).foldl (· ++ ·) front := by
    intro lines
    induction lines with
    | nil => exact fun _ => rfl
    | cons line lines ih =>
      intro front
      rw [List.foldl_cons, List.map_cons, List.foldl_cons, ih, String.append_assoc]
  rw [Printed.text, ← Array.foldl_toList, onto, String.join]

@[simp] theorem Printed.text_empty : Printed.text #[] = "" := rfl

/-- Output that is not empty has a newline in it. -/
theorem Printed.newline_mem_text {p : Printed} (hp : p ≠ #[]) : '\n' ∈ p.text.toList := by
  obtain ⟨front, line, rfl⟩ := Array.exists_push_of_ne_empty hp
  have htext : Printed.text (front.push line) = Printed.text front ++ line ++ "\n" := by
    simp [Printed.text]
  rw [htext, String.toList_append]
  exact List.mem_append_right _ (by decide)

end CallByNeed
