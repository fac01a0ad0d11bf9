/-
  File:      CallByNeed/Proofs/Machine/Limits.lean
  Subject:   Limits cut a run short and change nothing else.

  The run without limits is a sequence of iterations. A run under limits goes through the same
  iterations up to the first one that meets a limit, and ends there with what was printed so far.

  * `Iteration` -- the states with which the iterations of the run without limits begin;
  * `met?` -- the limit that an iteration meets, the time before the frames;
  * `Halts` -- how a run under a cap and a deadline ends, if it does; either of them may be missing;
  * `evaluate_at` -- as long as no limit is met, the runs with and without limits agree;
  * `halts_of_ends`, `Halts.ends` -- without limits a run halts as the machine ends;
  * `run_moreFrames`, `run_moreTime` -- a limit that was not met can be raised;
  * `Visited.printed_eq`, `evaluate_printed_eq` -- the output during a run and at its end;
  * `Move.size_le`, `Visited.size_le` -- no step adds more than two frames;
  * `limits_cut_short` -- all of it for the run of a program.
-/
import CallByNeed.Proofs.Machine.Output
import Mathlib.Data.List.Infix

namespace CallByNeed

/-! ## 1. The run without limits -/

/-- Iteration `n` of the run without limits, counted from zero, begins with the state `s`. -/
def Iteration (code : Code) (n : Nat) (s : State) : Prop :=
  needMachine.Steps n (State.start code) s

/-- The limit that iteration `n` meets if it begins with the state `s`. The deadline is the first
    iteration for which the time is up, and the time is looked at first. -/
def met? (maxFrames deadline : Option Nat) (n : Nat) (s : State) : Option Ending :=
  if deadline = some n then some .outOfTime
  else match maxFrames with
    | some cap => if cap < s.stack.frames.length then some (.outOfFrames cap) else none
    | none => none

/-- How the run under a cap and a deadline ends. Without a deadline that is how it ends whenever
    there is time enough. -/
def Halts (code : Code) (maxFrames : Option Nat) : (deadline : Option Nat) → Execution → Prop
  | some k, x => evaluate code ⟨k, maxFrames⟩ = x
  | none, x => ∃ k, ∀ left, k ≤ left → evaluate code ⟨left, maxFrames⟩ = x

section Agreement

variable {code : Code} {limits : Limits} {maxFrames deadline : Option Nat} {m n left taken : Nat}
  {s t : State}

theorem exceeded?_eq (maxFrames : Option Nat) (s : State) :
    exceeded? maxFrames s.stack.size =
      match maxFrames with
      | some cap => if cap < s.stack.frames.length then some cap else none
      | none => none := by
  cases maxFrames with
  | none => rfl
  | some cap => simp [exceeded?, Option.filter, s.stack.size_eq]

theorem met?_of_ne (h : deadline ≠ some n) :
    met? maxFrames deadline n s = (exceeded? maxFrames s.stack.size).map .outOfFrames := by
  unfold met?
  rw [if_neg h, exceeded?_eq]
  cases maxFrames with
  | none => rfl
  | some cap =>
    dsimp only
    split <;> rfl

theorem met?_deadline : met? maxFrames (some n) n s = some .outOfTime := if_pos rfl

theorem met?_eq_none (h : met? maxFrames deadline n s = none) :
    deadline ≠ some n ∧ exceeded? maxFrames s.stack.size = none := by
  have hne : deadline ≠ some n := by
    rintro rfl
    rw [met?_deadline] at h
    cases h
  rw [met?_of_ne hne, Option.map_eq_none_iff] at h
  exact ⟨hne, h⟩

/-- The last of some steps. -/
theorem Iteration.pred (h : Iteration code (n + 1) s) :
    ∃ t, Iteration code n t ∧ step t = .next s := by
  obtain ⟨t, ht, hlast⟩ := Machine.Steps.split h (Nat.le_succ n)
  rw [Nat.add_sub_cancel_left] at hlast
  cases hlast with
  | head hs hrefl =>
    cases hrefl
    exact ⟨t, ht, step_eq_next_iff.mpr (needMachine_next_inl.mp hs)⟩

/-- Before an iteration there are all those with smaller numbers. -/
theorem Iteration.earlier (h : Iteration code n s) (hm : m ≤ n) : ∃ t, Iteration code m t := by
  obtain ⟨t, ht, _⟩ := Machine.Steps.split h hm
  exact ⟨t, ht⟩

/-- A run under limits goes through iterations of the run without limits. -/
theorem Visited.iteration (hv : Visited code limits n s) : Iteration code n s := by
  induction hv with
  | start => exact .refl _
  | step _ _ _ hs ih => exact ih.tail (needMachine_next_inl.mpr (step_eq_next_iff.mp hs))

/-- Iterations before any limit is met are iterations of the run under limits. -/
theorem Iteration.visited (h : Iteration code n s)
    (hbefore : ∀ m t, m < n → Iteration code m t →
      m < limits.steps ∧ exceeded? limits.maxFrames t.stack.size = none) :
    Visited code limits n s := by
  induction n generalizing s with
  | zero =>
    cases h
    exact .start
  | succ n ih =>
    obtain ⟨t, ht, hs⟩ := h.pred
    have hv := ih ht fun m u hm hu => hbefore m u (by omega) hu
    obtain ⟨htime, hframes⟩ := hbefore n t (by omega) ht
    exact .step hv htime hframes hs

/-- **Before any limit is met the runs agree**: the run under limits comes to the same iteration,
    and goes on from there. Without a deadline there is time if there is time for this iteration. -/
theorem evaluate_at (h : Iteration code n s)
    (hbefore : ∀ m t, m < n → Iteration code m t → met? maxFrames deadline m t = none)
    (hleft : deadline = some left ∨ deadline = none ∧ n < left) :
    n ≤ left ∧ evaluate code ⟨left, maxFrames⟩ = run maxFrames (left - n) n s := by
  have htime : n ≤ left := by
    rcases hleft with hd | ⟨_, hlt⟩
    · refine Nat.le_of_not_lt fun hlt => ?_
      obtain ⟨t, ht⟩ := h.earlier (Nat.le_of_lt hlt)
      exact (met?_eq_none (hbefore left t hlt ht)).1 hd
    · omega
  have hv : Visited code ⟨left, maxFrames⟩ n s := h.visited fun m t hm ht =>
    ⟨Nat.lt_of_lt_of_le hm htime, (met?_eq_none (hbefore m t hm ht)).2⟩
  exact hv.evaluate_eq

/-- **The first limit that is met ends the run.** -/
theorem evaluate_met {e : Ending} (h : Iteration code n s)
    (hbefore : ∀ m t, m < n → Iteration code m t → met? maxFrames deadline m t = none)
    (hmet : met? maxFrames deadline n s = some e)
    (hleft : deadline = some left ∨ deadline = none ∧ n < left) :
    evaluate code ⟨left, maxFrames⟩ = ⟨e, s.printed, n + 1⟩ := by
  obtain ⟨hle, heval⟩ := evaluate_at h hbefore hleft
  rw [heval]
  by_cases hd : deadline = some n
  · obtain rfl : left = n := by
      rcases hleft with hl | ⟨hnone, _⟩
      · exact Option.some.inj (hl.symm.trans hd)
      · rw [hnone] at hd
        cases hd
    subst hd
    rw [met?_deadline] at hmet
    cases hmet
    rw [Nat.sub_self]
    rfl
  · have hlt : n < left := by
      rcases hleft with hl | ⟨_, hlt⟩
      · have hne : left ≠ n := fun he => hd (he ▸ hl)
        omega
      · exact hlt
    rw [met?_of_ne hd] at hmet
    obtain ⟨cap, hcap, rfl⟩ := Option.map_eq_some_iff.mp hmet
    obtain ⟨k, hk⟩ : ∃ k, left - n = k + 1 := ⟨left - n - 1, by omega⟩
    rw [hk, run, hcap]

/-- **A run that meets no limit ends as it does without limits.** -/
theorem evaluate_unmet {e : Ending} {p : Printed} (h : Iteration code n s)
    (hend : needMachine.next s = .inr (e, p))
    (hunmet : ∀ m t, m ≤ n → Iteration code m t → met? maxFrames deadline m t = none)
    (hleft : deadline = some left ∨ deadline = none ∧ n < left) :
    evaluate code ⟨left, maxFrames⟩ = ⟨e, p, n + 1⟩ := by
  obtain ⟨hle, heval⟩ := evaluate_at h (fun m t hm => hunmet m t (Nat.le_of_lt hm)) hleft
  obtain ⟨hd, hframes⟩ := met?_eq_none (hunmet n s (Nat.le_refl n) h)
  have hlt : n < left := by
    rcases hleft with hl | ⟨_, hlt⟩
    · have hne : left ≠ n := fun he => hd (he ▸ hl)
      omega
    · exact hlt
  obtain ⟨k, hk⟩ : ∃ k, left - n = k + 1 := ⟨left - n - 1, by omega⟩
  rw [heval, hk, run, hframes]
  rcases Machine.ofStep_next_inr.mp hend with ⟨v, rfl, hs⟩ | ⟨fault, rfl, hs⟩
  · rw [hs]
  · rw [hs]

/-- What is so for every time that fits the deadline is how the run halts. -/
theorem halts_of {x : Execution}
    (h : ∀ left, deadline = some left ∨ deadline = none ∧ n < left →
      evaluate code ⟨left, maxFrames⟩ = x) : Halts code maxFrames deadline x := by
  cases deadline with
  | some k => exact h k (.inl rfl)
  | none => exact ⟨n + 1, fun left hleft => h left (.inr ⟨rfl, hleft⟩)⟩

/-- A run that goes on forever and meets no limit does not halt: it takes any number of steps. -/
theorem not_halts_of_forever (hf : needMachine.Forever (State.start code))
    (hunmet : ∀ m t, Iteration code m t → met? maxFrames deadline m t = none) (x : Execution) :
    ¬ Halts code maxFrames deadline x := by
  cases deadline with
  | some k =>
    obtain ⟨t, ht⟩ := hf k
    exact absurd rfl (met?_eq_none (hunmet k t ht)).1
  | none =>
    rintro ⟨k, hk⟩
    -- the same run under two deadlines, each of which is met
    have steps (left : Nat) : (evaluate code ⟨left, maxFrames⟩).steps = left + 1 := by
      obtain ⟨t, ht⟩ := hf left
      have hbefore : ∀ m u, m < left → Iteration code m u →
          met? maxFrames (some left) m u = none := by
        intro m u hm hu
        have hne : some left ≠ some m := by
          intro he
          cases he
          omega
        rw [met?_of_ne hne, (met?_eq_none (hunmet m u hu)).2]
        rfl
      rw [evaluate_met ht hbefore met?_deadline (.inl rfl)]
    have h₀ := hk k (Nat.le_refl k)
    have h₁ := hk (k + 1) (Nat.le_succ k)
    have e := congrArg Execution.steps (h₀.trans h₁.symm)
    rw [steps, steps] at e
    omega

/-- Where the machine ends, the run without limits does. -/
theorem halts_of_ends {e : Ending} {p : Printed}
    (h : needMachine.Ends (State.start code) (e, p)) : ∃ n, Halts code none none ⟨e, p, n⟩ := by
  obtain ⟨n, t, ht, hend⟩ := h
  exact ⟨n + 1, halts_of fun left hleft => evaluate_unmet ht hend (fun _ _ _ _ => rfl) hleft⟩

/-- The run without limits ends where the machine does. -/
theorem Halts.ends {x : Execution} (hx : Halts code none none x) :
    needMachine.Ends (State.start code) (x.ending, x.printed) := by
  rcases needMachine.ends_or_forever (State.start code) with ⟨⟨e, p⟩, hends⟩ | hf
  · obtain ⟨n, k, hk⟩ := halts_of_ends hends
    obtain ⟨k', hk'⟩ := hx
    obtain rfl := (hk' (k + k') (by omega)).symm.trans (hk (k + k') (by omega))
    exact hends
  · exact absurd hx (not_halts_of_forever hf (fun _ _ _ => rfl) x)

end Agreement

/-! ## 2. Raising a limit -/

/-- A limit and a higher one; the highest is none at all. -/
def Raised : Option Nat → Option Nat → Prop
  | _, none => True
  | some a, some b => a ≤ b
  | none, some _ => False

section Raising

variable {code : Code} {maxFrames maxFrames' deadline deadline' : Option Nat}
  {left left' taken : Nat}
  {s : State} {x : Execution}

theorem exceeded?_raised (h : Raised maxFrames maxFrames') {frames : Nat}
    (hnone : exceeded? maxFrames frames = none) : exceeded? maxFrames' frames = none := by
  cases maxFrames' with
  | none => rfl
  | some b =>
    cases maxFrames with
    | none => cases h
    | some a =>
      have hab : a ≤ b := h
      simp only [exceeded?, Option.filter, decide_eq_true_eq, ite_eq_right_iff, reduceCtorEq,
        imp_false] at hnone ⊢
      omega

/-- **A run that did not exceed its cap is the same under a higher one.** -/
theorem run_moreFrames (h : Raised maxFrames maxFrames')
    (hx : ∀ cap, (run maxFrames left taken s).ending ≠ .outOfFrames cap) :
    run maxFrames' left taken s = run maxFrames left taken s := by
  induction left generalizing taken s with
  | zero => rfl
  | succ left ih =>
    rw [run] at hx ⊢
    rw [run]
    cases hc : exceeded? maxFrames s.stack.size with
    | some cap =>
      rw [hc] at hx
      exact absurd rfl (hx cap)
    | none =>
      rw [hc] at hx
      rw [exceeded?_raised h hc]
      cases hs : step s with
      | next s' =>
        rw [hs] at hx
        exact ih hx
      | finished v p => rfl
      | failed fault p => rfl

/-- **A run that ended in time is the same with more time.** -/
theorem run_moreTime (hle : left ≤ left') (hx : (run maxFrames left taken s).ending ≠ .outOfTime) :
    run maxFrames left' taken s = run maxFrames left taken s := by
  induction left generalizing left' taken s with
  | zero => exact absurd rfl hx
  | succ left ih =>
    obtain ⟨more, rfl⟩ : ∃ more, left' = more + 1 := ⟨left' - 1, by omega⟩
    rw [run] at hx ⊢
    rw [run]
    cases hc : exceeded? maxFrames s.stack.size with
    | some cap => rfl
    | none =>
      rw [hc] at hx
      cases hs : step s with
      | next s' =>
        rw [hs] at hx
        exact ih (by omega) hx
      | finished v p => rfl
      | failed fault p => rfl

theorem Halts.moreFrames (hx : Halts code maxFrames deadline x) (h : Raised maxFrames maxFrames')
    (hne : ∀ cap, x.ending ≠ .outOfFrames cap) : Halts code maxFrames' deadline x := by
  have raise {left : Nat} (he : evaluate code ⟨left, maxFrames⟩ = x) :
      evaluate code ⟨left, maxFrames'⟩ = x := by
    subst he
    exact run_moreFrames h hne
  cases deadline with
  | some k => exact raise hx
  | none =>
    obtain ⟨k, hk⟩ := hx
    exact ⟨k, fun left hleft => raise (hk left hleft)⟩

theorem Halts.moreTime (hx : Halts code maxFrames deadline x) (h : Raised deadline deadline')
    (hne : x.ending ≠ .outOfTime) : Halts code maxFrames deadline' x := by
  have raise {left left' : Nat} (hle : left ≤ left') (he : evaluate code ⟨left, maxFrames⟩ = x) :
      evaluate code ⟨left', maxFrames⟩ = x := by
    subst he
    exact run_moreTime hle hne
  cases deadline with
  | none =>
    cases deadline' with
    | none => exact hx
    | some k' => cases h
  | some k =>
    cases deadline' with
    | none => exact ⟨k, fun left hleft => raise hleft hx⟩
    | some k' => exact raise h hx

end Raising

/-! ## 3. What is printed -/

section Output

variable {code : Code} {maxFrames deadline : Option Nat} {limits : Limits} {n m left : Nat}
  {s t : State} {x : Execution}

/-- **Steps take back nothing that was printed.** -/
theorem steps_printed_grows (h : needMachine.Steps n s t) :
    s.printed.toList <+: t.printed.toList := by
  rw [steps_printed_eq h]
  exact List.prefix_append _ _

/-- **What is printed up to an iteration is printed up to every later one.** -/
theorem Iteration.printed_grows (hs : Iteration code n s) (ht : Iteration code m t) (hle : n ≤ m) :
    s.printed.toList <+: t.printed.toList := by
  obtain ⟨u, hu, hut⟩ := Machine.Steps.split ht hle
  obtain rfl := hu.unique hs
  exact steps_printed_grows hut

/-- The last iteration prints nothing more. -/
theorem printed_of_end {e : Ending} {p : Printed} (h : needMachine.next s = .inr (e, p)) :
    p = s.printed := by
  rcases Machine.ofStep_next_inr.mp h with ⟨v, _, hs⟩ | ⟨fault, _, hs⟩
  · obtain ⟨h, rfl⟩ := step_eq_finished_iff.mp hs
    rfl
  · exact (step_eq_failed_iff.mp hs).1

/-- **A run under limits ends at one of its iterations**, with what was printed up to there. -/
theorem run_last (hv : Visited code limits n s) (hn : n + left = limits.steps)
    (hx : run limits.maxFrames left n s = x) :
    ∃ m t, Visited code limits m t ∧ x.steps = m + 1 ∧ x.printed = t.printed := by
  induction left generalizing n s with
  | zero =>
    subst hx
    exact ⟨n, s, hv, rfl, rfl⟩
  | succ left ih =>
    rw [run] at hx
    cases hc : exceeded? limits.maxFrames s.stack.size with
    | some cap =>
      rw [hc] at hx
      subst hx
      exact ⟨n, s, hv, rfl, rfl⟩
    | none =>
      rw [hc] at hx
      cases hs : step s with
      | next s' =>
        rw [hs] at hx
        exact ih (.step hv (by omega) hc hs) (by omega) hx
      | finished v p =>
        rw [hs] at hx
        subst hx
        have hend : needMachine.next s = .inr (.value v, p) :=
          Machine.ofStep_next_inr.mpr (.inl ⟨v, rfl, hs⟩)
        exact ⟨n, s, hv, rfl, printed_of_end hend⟩
      | failed fault p =>
        rw [hs] at hx
        subst hx
        exact ⟨n, s, hv, rfl, (step_eq_failed_iff.mp hs).1⟩

/-- **At the start of every iteration, the output is made of the lines printed so far.** -/
theorem Visited.printed_eq (hv : Visited code limits n s) :
    s.printed.toList = (State.start code).renderings n := by
  simpa [State.start] using steps_printed_eq hv.iteration

/-- At the end it is made of the lines of all steps but the last. -/
theorem evaluate_printed_eq (code : Code) (limits : Limits) :
    (evaluate code limits).printed.toList =
      (State.start code).renderings ((evaluate code limits).steps - 1) := by
  have hstart : Visited code limits 0 (State.start code) := .start
  obtain ⟨n, s, hv, hsteps, hprinted⟩ := run_last hstart (Nat.zero_add _) rfl
  change (evaluate code limits).steps = n + 1 at hsteps
  change (evaluate code limits).printed = s.printed at hprinted
  rw [hsteps, hprinted, hv.printed_eq, Nat.add_sub_cancel]

theorem Halts.last (hx : Halts code maxFrames deadline x) :
    ∃ n s, Iteration code n s ∧ x.steps = n + 1 ∧ x.printed = s.printed := by
  have last {left : Nat} (he : evaluate code ⟨left, maxFrames⟩ = x) :
      ∃ n s, Iteration code n s ∧ x.steps = n + 1 ∧ x.printed = s.printed := by
    obtain ⟨n, s, hv, hsteps, hprinted⟩ := run_last .start
      (Nat.zero_add _) he
    exact ⟨n, s, hv.iteration, hsteps, hprinted⟩
  cases deadline with
  | some k => exact last hx
  | none =>
    obtain ⟨k, hk⟩ := hx
    exact last (hk k (Nat.le_refl k))

end Output

/-! ## 4. How far a step can exceed the cap -/

/-- No combinator hands on more than two arguments. -/
theorem handover?_args_length {b : Builtin} {args xs : List Addr} {n f : Nat} {cells : List Cell}
    (ho : handover? b args n = some (cells, .call f xs)) : xs.length ≤ 2 := by
  unfold handover? at ho
  split at ho <;> cases ho
  all_goals simp

/-- **No step adds more than two frames.** -/
theorem Move.size_le {s s' : State} (hm : Move s s') : s'.stack.size ≤ s.stack.size + 2 := by
  have hsize (t : State) : t.stack.size = t.stack.frames.length := t.stack.size_eq
  rw [hsize, hsize]
  cases hm with
  | @plain l l' below hl =>
    have hl : l'.stack.frames.length ≤ l.stack.frames.length + 2 := by
      cases hl with
      | call b args a cells f xs h p hb hs ho =>
        have hxs := handover?_args_length ho
        simp only [Stack.frames_ofList, List.length_map, List.length_cons]
        omega
      | _ => simp
    simp only [State.frames_onto, List.length_append]
    omega
  | _ =>
    simp only [Stack.frames_ofList, List.length_cons]
    omega

/-- **A run under a cap never has more than two frames beyond it.** -/
theorem Visited.size_le {code : Code} {limits : Limits} {cap n : Nat} {s : State}
    (hcap : limits.maxFrames = some cap) (hv : Visited code limits n s) :
    s.stack.size ≤ cap + 2 := by
  cases hv with
  | start => exact Nat.zero_le _
  | @step n t s _ _ hc hs =>
    have hmore := (step_eq_next_iff.mp hs).size_le
    have hbelow : t.stack.size ≤ cap := by
      rw [hcap, exceeded?, Option.filter] at hc
      split at hc
      · cases hc
      · rename_i h
        simpa using h
    omega

/-! ## 5. Runs of programs -/

/-- **Limits only cut a run short.** Under any cap and any deadline, or without either:

    * the run ends at the first iteration that meets a limit, with what was printed up to there;
    * if none does, it ends as the run without limits, after as many steps, or never like that run;
    * its stack never holds more than two frames beyond the cap;
    * a limit that did not end it can be raised;
    * what it prints is the beginning of what is printed without limits. -/
theorem limits_cut_short (code : Code) (maxFrames deadline : Option Nat) :
    (∀ n s e, Iteration code n s → met? maxFrames deadline n s = some e →
      (∀ m t, m < n → Iteration code m t → met? maxFrames deadline m t = none) →
      Halts code maxFrames deadline ⟨e, s.printed, n + 1⟩) ∧
    (∀ n s e p, Iteration code n s → needMachine.next s = .inr (e, p) →
      (∀ m t, m ≤ n → Iteration code m t → met? maxFrames deadline m t = none) →
      Halts code maxFrames deadline ⟨e, p, n + 1⟩) ∧
    (needMachine.Forever (State.start code) →
      (∀ m t, Iteration code m t → met? maxFrames deadline m t = none) →
      ∀ x, ¬ Halts code maxFrames deadline x) ∧
    (∀ cap time n s, maxFrames = some cap → Visited code ⟨time, maxFrames⟩ n s →
      s.stack.frames.length ≤ cap + 2) ∧
    (∀ x, Halts code maxFrames deadline x →
      (∀ maxFrames', Raised maxFrames maxFrames' → (∀ cap, x.ending ≠ .outOfFrames cap) →
        Halts code maxFrames' deadline x) ∧
      (∀ deadline', Raised deadline deadline' → x.ending ≠ .outOfTime →
        Halts code maxFrames deadline' x)) ∧
    (∀ x, Halts code maxFrames deadline x → ∃ n s, Iteration code n s ∧ x.steps = n + 1 ∧
      x.printed = s.printed ∧
      (∀ m t, Iteration code m t → n ≤ m → x.printed.toList <+: t.printed.toList) ∧
      ∀ e p, needMachine.Ends (State.start code) (e, p) → x.printed.toList <+: p.toList) := by
  refine ⟨?_, ?_, not_halts_of_forever, ?_, ?_, ?_⟩
  · intro n s e hs hmet hbefore
    exact halts_of fun left hleft => evaluate_met hs hbefore hmet hleft
  · intro n s e p hs hend hunmet
    exact halts_of fun left hleft => evaluate_unmet hs hend hunmet hleft
  · intro cap time n s hcap hv
    have hsize := hv.size_le hcap
    rwa [s.stack.size_eq] at hsize
  · intro x hx
    exact ⟨fun _ hraised hne => hx.moreFrames hraised hne,
      fun _ hraised hne => hx.moreTime hraised hne⟩
  · intro x hx
    obtain ⟨n, s, hs, hsteps, hprinted⟩ := hx.last
    refine ⟨n, s, hs, hsteps, hprinted, fun m t ht hle => ?_, fun e p hends => ?_⟩
    · rw [hprinted]
      exact hs.printed_grows ht hle
    · obtain ⟨m, t, ht, hend⟩ := hends
      rw [hprinted, printed_of_end hend]
      exact hs.printed_grows ht (ht.le_of_ended hend hs)

end CallByNeed
