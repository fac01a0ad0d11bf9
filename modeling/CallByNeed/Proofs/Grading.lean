/-
  File:      CallByNeed/Proofs/Grading.lean
  Subject:   An exact verdict tells how a run ended, whatever the run prints.

  A verdict is taken from one text, in which what the run printed stands in front of its ending.
  Output that is not empty has a newline in it, and so has the report of a fault, so a text of one
  line that begins with an arrow can only be a value alone.

  * `Ending.report`, `Program.run_text` -- the text of a run: its output and the report of its ending;
  * `Ending.report_eq_answer_iff`, `Program.run_text_eq_answer_iff` -- when it is a given answer of
    one line;
  * `exact_verdict_unforgeable` -- verdicts, and what a run has printed at any time.
-/
import CallByNeed.Grade
import CallByNeed.Proofs.Machine.Limits

namespace CallByNeed

/-! ## 1. The text of a run -/

/-- How the text of a run tells its ending. -/
def Ending.report : Ending → String
  | .value v => "=> " ++ v.display
  | .fault f => "Runtime Error\n" ++ f.message
  | .outOfTime => "Timeout"
  | .outOfFrames n => "Runtime Error\n" ++ outOfFramesMessage n

/-- The text of a run is its output and the report of its ending. -/
theorem Program.run_text (p : Program) (limits : RunLimits) :
    (p.run limits).text = (evaluate p.code limits.forMachine).printed.text ++
      (evaluate p.code limits.forMachine).ending.report := by
  unfold Program.run
  generalize evaluate p.code limits.forMachine = x
  obtain ⟨ending, printed, steps⟩ := x
  cases ending with
  | outOfTime => rfl
  | value v => exact String.append_assoc
  | fault f => exact String.append_assoc
  | outOfFrames n => exact String.append_assoc

/-! ## 2. Answers of one line -/

section Answer

variable {t : String} (ht : '\n' ∉ t.toList)

include ht

theorem ne_answer_of_newline {text : String} (h : '\n' ∈ text.toList) : text ≠ "=> " ++ t := by
  rintro rfl
  rw [String.toList_append] at h
  rcases List.mem_append.mp h with h | h
  · exact absurd h (by decide)
  · exact ht h

/-- A report is an answer exactly if the run has a value and the answer shows it. -/
theorem Ending.report_eq_answer_iff (e : Ending) :
    e.report = "=> " ++ t ↔ ∃ v, e = .value v ∧ v.display = t := by
  have newline (message : String) : '\n' ∈ ("Runtime Error\n" ++ message).toList := by simp
  cases e with
  | value v =>
    show "=> " ++ v.display = "=> " ++ t ↔ _
    simp
  | fault f => exact iff_of_false (ne_answer_of_newline ht (newline f.message)) (by simp)
  | outOfFrames n =>
    exact iff_of_false (ne_answer_of_newline ht (newline (outOfFramesMessage n))) (by simp)
  | outOfTime =>
    refine iff_of_false (fun he => ?_) (by simp)
    have hhead : ("Timeout").toList.head? = ("=> " ++ t).toList.head? :=
      congrArg (fun s : String => s.toList.head?) he
    simp at hhead

/-- **The text of a run is an answer of one line exactly if the run has printed nothing and ends with
    a value that shows as the answer.** -/
theorem Program.run_text_eq_answer_iff (p : Program) (limits : RunLimits) :
    (p.run limits).text = "=> " ++ t ↔
      ∃ v, (evaluate p.code limits.forMachine).ending = .value v ∧ v.display = t ∧
        (evaluate p.code limits.forMachine).printed = #[] := by
  rw [p.run_text limits]
  by_cases hprinted : (evaluate p.code limits.forMachine).printed = #[]
  · rw [hprinted, Printed.text_empty, String.empty_append, Ending.report_eq_answer_iff ht]
    simp
  · refine iff_of_false (ne_answer_of_newline ht ?_) fun ⟨_, _, _, h⟩ => hprinted h
    rw [String.toList_append]
    exact List.mem_append_left _ (Printed.newline_mem_text hprinted)

end Answer

/-! ## 3. Verdicts -/

/-- **An exact verdict cannot be forged, by printing or by a fault.** A submission passes a problem
    whose answer is `t`, a text of one line, exactly if it compiles under the standard prelude with
    the call injected, and its run ends with a value that shows as `t` and has printed nothing.

    Whatever runs, the output is at any time made of the lines of the calls of `@print` that have
    finished, in their order, each with a newline behind it. -/
theorem exact_verdict_unforgeable (submission : String) (problem : Problem) {t : String}
    (ht : '\n' ∉ t.toList) (hexact : problem.expected = .exact ("=> " ++ t)) :
    ((grade submission problem).passed = true ↔
      ∃ program v,
        compile ⟨submissionSource, submission⟩
          { definitions := .standard
            fragment := some problem.fragment
            limits := { timeLimit := problem.timeLimit } } = .ok program ∧
        (evaluate program.code ⟨problem.timeLimit.steps, some 10000000⟩).ending = .value v ∧
        v.display = t ∧
        (evaluate program.code ⟨problem.timeLimit.steps, some 10000000⟩).printed = #[]) ∧
    ∀ (code : Code) (limits : Limits),
      (∀ n s, Visited code limits n s →
        s.printed.text = String.join (((State.start code).renderings n).map (· ++ "\n"))) ∧
      (evaluate code limits).printed.text = String.join
        (((State.start code).renderings ((evaluate code limits).steps - 1)).map (· ++ "\n")) := by
  refine ⟨?_, fun code limits => ⟨fun n s hv => ?_, ?_⟩⟩
  · have hpassed : (grade submission problem).passed = true ↔
        (execute ⟨submissionSource, submission⟩ problem.options).text = "=> " ++ t := by
      rw [grade, hexact]
      exact beq_iff_eq.trans eq_comm
    rw [hpassed]
    change _ ↔ ∃ program v, compile ⟨submissionSource, submission⟩ problem.options = .ok program ∧ _
    unfold execute
    cases compile ⟨submissionSource, submission⟩ problem.options with
    | error fault =>
      refine iff_of_false (ne_answer_of_newline ht ?_) (by simp)
      show '\n' ∈ ("Compile Error\n" ++ fault.message).toList
      simp
    | ok program =>
      refine (program.run_text_eq_answer_iff ht problem.options.limits).trans ?_
      simp only [Except.ok.injEq, exists_and_left, exists_eq_left']
      exact Iff.rfl
  · rw [Printed.text_eq_join, hv.printed_eq]
  · rw [Printed.text_eq_join, evaluate_printed_eq]

/-- A recursive sum of four passes with ten. -/
theorem exact_verdict_unforgeable_sum :
    ∃ program v,
      compile ⟨submissionSource, "\\sum := Y (\\f.\\n. if (n == 0) 0 (n + f (n - 1))) ; sum"⟩
        { definitions := .standard
          fragment := some "sum 4"
          limits := { timeLimit := .ofSeconds 5 } } = .ok program ∧
      (evaluate program.code ⟨(Duration.ofSeconds 5).steps, some 10000000⟩).ending = .value v ∧
      v.display = "10" ∧
      (evaluate program.code ⟨(Duration.ofSeconds 5).steps, some 10000000⟩).printed = #[] :=
  (exact_verdict_unforgeable _ ⟨"sum 4", .exact "=> 10", .ofSeconds 5⟩ (by decide) rfl).1.mp
    (by decide +kernel)

end CallByNeed
