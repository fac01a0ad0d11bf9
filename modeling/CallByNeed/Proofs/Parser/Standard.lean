/-
  File:      CallByNeed/Proofs/Parser/Standard.lean
  Subject:   Programs with and without the standard prelude.

  A prelude should not be seen in what the reader says about a program. It is seen in three ways.
  Parentheses and quotes are looked at first. The program stands in parentheses, so an operator
  alone is a name there. And where a program ends too early or too late, the reader misses a
  parenthesis or its inside instead.

  * `standardDefinitions_proper` -- the standard definitions can stand in a prelude;
  * `parse_standard` -- what becomes of a program under them, and what it was without them;
  * `operator_read_under_standard` -- the two are not the same.
-/
import CallByNeed.Proofs.Parser.Containment

namespace CallByNeed

/-! ## The standard definitions -/

/-- The name that a definition binds, without its parentheses. -/
def Definition.bound (d : Definition) : String :=
  match d.name.toList with
  | '(' :: cs => String.ofList cs.dropLast
  | _ => d.name

/-- **The standard definitions can stand in a prelude.** -/
theorem standardDefinitions_proper : ∀ d ∈ standardDefinitions, d.Proper := by
  have checks : ∀ d ∈ standardDefinitions, ParamName d.bound ∧ d.name = Expr.nameText d.bound ∧
      (parse ⟨"", d.body⟩ [] defaultDepth).toBool = true ∧ '#' ∉ d.body.toList := by
    decide +kernel
  exact fun d hd => Definition.proper_of_checks (checks d hd)

/-! ## With and without the prelude -/

/-- **A program under the standard prelude, with levels enough, and without it.** There are four cases.

    1. A parenthesis or a quote has no partner: the program is refused both ways, and under the
       prelude the reason is always that.
    2. The program is an operator alone: it is read under the prelude, as a name, but not without.
    3. It is read both ways, and the prelude is around the same tree.
    4. It is refused both ways, at the same place, and for the same reason except at the seam. -/
theorem parse_standard (source : Source) (depth : Nat)
    (hdeep : ¬ (parse source standardDefinitions depth).TooDeep) :
    (¬ Balanced 0 (blankText source.chars) ∧
        (∃ e, (⟨source, depth⟩ : Reading).balanced (blankText source.chars) = .error e ∧
          parse source standardDefinitions depth = .error e) ∧
        ∃ e, parse source [] depth = .error e) ∨
      (∃ op e, LoneOperator ⟨blankText source.chars, 0⟩ op ∧
        parse source standardDefinitions depth = .ok e ∧
        Nests source standardDefinitions (.name ⟨source, -1⟩ op) e ∧
        parse source [] depth = .error ⟨.unexpected .endOfText .operand, source, source.size⟩) ∨
      (∃ u e, parse source [] depth = .ok u ∧ parse source standardDefinitions depth = .ok e ∧
        Nests source standardDefinitions u e) ∨
      ∃ e f, parse source [] depth = .error e ∧
        parse source standardDefinitions depth = .error ⟨f, e.pos⟩ ∧ SeamFault e.fault f := by
  have hne : standardDefinitions ≠ [] := by decide
  by_cases hbal : Balanced 0 (blankText source.chars)
  · rcases parse_wrapped standardDefinitions_proper hne hbal hdeep with
      ⟨op, e, hlone, hparse, hnests⟩ | ⟨u, e, hbare, _, hparse, hnests⟩ |
      ⟨e, f, hbare, hfault, _, hparse⟩
    · have hdepth : 0 < depth := by
        refine Nat.pos_of_ne_zero fun hzero => hdeep ?_
        rw [parse_layers standardDefinitions_proper hne hbal, hzero]
        exact ⟨_, _, rfl⟩
      have hbare := Reading.whole_of_loneOperator (r := ⟨source, depth⟩) hlone (within_program hbal)
        hdepth
      exact .inr (.inl ⟨op, e, hlone, hparse, hnests, (parse_nil source depth).trans hbare⟩)
    · exact .inr (.inr (.inl ⟨u, e, hbare, hparse, hnests⟩))
    · exact .inr (.inr (.inr ⟨e, f, hbare, hparse, hfault⟩))
  · obtain ⟨⟨e, hscan, _, hparse⟩, hbare⟩ := parse_unbalanced hne hbal
    exact .inl ⟨hbal, ⟨e, hscan, hparse⟩, hbare⟩

/-! ## An operator alone -/

theorem parse_plus :
    parse ⟨"main", "+"⟩ [] 1000 = .error ⟨.unexpected .endOfText .operand, ⟨"main", "+"⟩, 1⟩ := by
  decide +kernel

theorem parse_plus_standard : (parse ⟨"main", "+"⟩ standardDefinitions 1000).toBool = true := by
  decide +kernel

/-- **The standard prelude is seen**: an operator alone is no program, but under the prelude it is
    read. -/
theorem operator_read_under_standard :
    ¬ ∀ source depth, ¬ (parse source standardDefinitions depth).TooDeep →
      ¬ (parse source [] depth).TooDeep →
      ((∃ e, parse source standardDefinitions depth = .ok e) ↔ ∃ u, parse source [] depth = .ok u) := by
  intro agree
  cases hread : parse ⟨"main", "+"⟩ standardDefinitions 1000 with
  | error e =>
    have hok := parse_plus_standard
    rw [hread] at hok
    cases hok
  | ok e =>
    have hdeep : ¬ (parse ⟨"main", "+"⟩ standardDefinitions 1000).TooDeep := by
      rintro ⟨limit, p, h⟩
      cases hread.symm.trans h
    have hbare : ¬ (parse ⟨"main", "+"⟩ [] 1000).TooDeep := by
      rintro ⟨limit, p, h⟩
      cases parse_plus.symm.trans h
    obtain ⟨u, hu⟩ := (agree _ _ hdeep hbare).mp ⟨e, hread⟩
    cases parse_plus.symm.trans hu

/-- What is read there is the name of the operator, under all definitions. -/
theorem parse_standard_plus :
    ∃ op e, LoneOperator ⟨blankText (⟨"main", "+"⟩ : Source).chars, 0⟩ op ∧
      parse ⟨"main", "+"⟩ standardDefinitions 1000 = .ok e ∧
      Nests ⟨"main", "+"⟩ standardDefinitions (.name ⟨⟨"main", "+"⟩, -1⟩ op) e ∧
      parse ⟨"main", "+"⟩ [] 1000 = .error ⟨.unexpected .endOfText .operand, ⟨"main", "+"⟩, 1⟩ := by
  have hok := parse_plus_standard
  have failed {e : At ParseFault} (h : parse ⟨"main", "+"⟩ standardDefinitions 1000 = .error e) :
      False := by
    rw [h] at hok
    cases hok
  have hdeep : ¬ (parse ⟨"main", "+"⟩ standardDefinitions 1000).TooDeep :=
    fun ⟨limit, p, h⟩ => failed h
  rcases parse_standard ⟨"main", "+"⟩ 1000 hdeep with ⟨_, ⟨e, _, h⟩, _⟩ | h | ⟨u, _, h, _⟩ | ⟨_, _, _, h, _⟩
  · exact (failed h).elim
  · exact h
  · cases parse_plus.symm.trans h
  · exact (failed h).elim

end CallByNeed
