/-
  File:      CallByNeed/Proofs/ByName/Agreement.lean
  Subject:   Keeping values saves work and changes no result.

  The machine by name is the machine with one change: a suspended cell is neither marked nor filled,
  so its work is done again at every demand. The two machines make different cells in a different
  order, and neither follows the other. But the machine without memory follows both: by need a
  filled cell stands for the steps that lead to its value, by name every step is one step.

  * `stepByName`, `evaluateByName` -- the machine by name;
  * `Redo`, `stepByName_cases` -- its rules;
  * `need_followed`, `name_followed` -- both machines are followed by the one without memory;
  * `memoization_unobservable` -- they end alike, and run forever alike.
-/
import CallByNeed.Proofs.ByName.Unfolding

namespace CallByNeed

/-! ## 1. The machine by name -/

/-- Forces a cell by name: a suspended cell stays as it is. -/
def forceByName (a : Addr) (stack : Stack) (heap : Heap) (printed : Printed) : Transition :=
  match heap[a]? with
  | some (.value v) => .next ⟨.give v, stack, heap, printed⟩
  | some (.suspended code env) => .next ⟨.eval code env, stack, heap, printed⟩
  | some (.application func arg) => .next ⟨.force func, stack.push (.apply arg), heap, printed⟩
  | some .underEvaluation | none => .failed .infiniteLoop printed

/-- One step by name. -/
def stepByName (s : State) : Transition :=
  match s.focus with
  | .force a => forceByName a s.stack s.heap s.printed
  | .eval _ _ | .give _ => step s

/-- Runs a program by name, without limits but the time. -/
def evaluateByName (code : Code) (steps : Nat) : Execution :=
  runBy stepByName steps 0 (State.start code)

/-- The rules by name. -/
inductive Redo : State → State → Prop where
  | plain {l l' : State} (below : List Frame) (hl : Plain l l') :
      Redo (l.onto below) (l'.onto below)
  | openCode (a : Addr) (code : Code) (env : Env) (fs : List Frame) (h : Heap) (p : Printed)
      (ha : h[a]? = some (.suspended code env)) :
      Redo ⟨.force a, .ofList fs, h, p⟩ ⟨.eval code env, .ofList fs, h, p⟩
  | openApplication (a func arg : Addr) (fs : List Frame) (h : Heap) (p : Printed)
      (ha : h[a]? = some (.application func arg)) :
      Redo ⟨.force a, .ofList fs, h, p⟩ ⟨.force func, .ofList (.apply arg :: fs), h, p⟩

/-- Without a demand and without an update frame there is no difference between the machines. -/
theorem Move.redo {s s' : State} (hm : Move s s') (hf : ∀ a, s.focus ≠ .force a)
    (hs : ∀ a, Frame.update a ∉ s.stack.frames) : Redo s s' := by
  cases hm with
  | plain below hl => exact .plain below hl
  | enterCode a => exact absurd rfl (hf a)
  | enterApplication a => exact absurd rfl (hf a)
  | fill a => exact absurd List.mem_cons_self (hs a)

/-- What the step of a state by name is, in the rules' words. -/
theorem stepByName_cases (s : State) (hs : ∀ a, Frame.update a ∉ s.stack.frames) :
    (∃ s', stepByName s = .next s' ∧ Redo s s') ∨
    (∃ l below fault, s = State.onto l below ∧ Blocked l fault ∧
      stepByName s = .failed fault s.printed) ∨
    (∃ v h p, s = ⟨.give v, .ofList [], h, p⟩ ∧ stepByName s = .finished v p) := by
  obtain ⟨focus, stack, h, p⟩ := s
  cases focus with
  | eval code env =>
    exact (step_cases ⟨.eval code env, stack, h, p⟩).imp_left
      fun ⟨s', hs', hm⟩ => ⟨s', hs', hm.redo (by simp) hs⟩
  | give v =>
    exact (step_cases ⟨.give v, stack, h, p⟩).imp_left
      fun ⟨s', hs', hm⟩ => ⟨s', hs', hm.redo (by simp) hs⟩
  | force a =>
    obtain ⟨fs, rfl⟩ : ∃ fs, stack = .ofList fs := ⟨stack.frames, (Stack.ofList_frames stack).symm⟩
    cases ha : h[a]? with
    | none =>
      refine .inr (.inl ⟨_, fs, _, rfl, .entered a h p (.inr ha), ?_⟩)
      simp only [stepByName, forceByName, ha]
    | some c =>
      cases c with
      | underEvaluation =>
        refine .inr (.inl ⟨_, fs, _, rfl, .entered a h p (.inl ha), ?_⟩)
        simp only [stepByName, forceByName, ha]
      | value v =>
        refine .inl ⟨_, ?_, .plain fs (.known a v h p ha)⟩
        simp only [stepByName, forceByName, ha]
        rfl
      | suspended code env =>
        refine .inl ⟨_, ?_, .openCode a code env fs h p ha⟩
        simp only [stepByName, forceByName, ha]
      | application func arg =>
        refine .inl ⟨_, ?_, .openApplication a func arg fs h p ha⟩
        simp only [stepByName, forceByName, ha, Stack.push_ofList]

/-! ## 2. The order of memory by name -/

/-- What holds of every state by name: memory is in order, and no value is waited for. -/
structure Unmarked (s : State) : Prop where
  orderly : Orderly s
  updates : ∀ a, Frame.update a ∉ s.stack.frames

theorem Unmarked.redo {s s' : State} (hu : Unmarked s) (hm : Redo s s') : Unmarked s' := by
  obtain ⟨ho, hn⟩ := hu
  cases hm with
  | @plain l l' below hl =>
    obtain ⟨cells, hF⟩ := hl.fresh
    refine ⟨ho.plain hl, fun a ha => ?_⟩
    rcases List.mem_append.mp ha with ha | ha
    · exact hF.after a ha
    · exact hn a (List.mem_append_right _ ha)
  | openCode a code env fs h p ha =>
    exact ⟨ho.demand [] ha (by simp) (by simp [Focus.refs, Cell.refs]), hn⟩
  | openApplication a func arg fs h p ha =>
    refine ⟨ho.demand [.apply arg] ha (by simp) (by simp [Focus.refs, Frame.refs, Cell.refs]), ?_⟩
    intro b hb
    exact hn b ((List.mem_cons.mp hb).resolve_left (by simp))

/-! ## 3. Both machines are followed by the one without memory -/

/-- How an ending looks without memory. -/
def Alike : Ending × Printed → Except Fault Meaning → Prop
  | (.value v, _), .ok m => m.blank = v.blank
  | (.fault fault, _), .error fault' => fault' = fault
  | _, _ => False

/-- A state of the machine, and the state without memory that it stands for. -/
def ByNeed (s : State) (t : TreeState) : Prop := Orderly s ∧ ∃ g, Unfolds g s ∧ t = s.over g

/-- A state by name, and the state without memory that it stands for. -/
def ByName (s : State) (t : TreeState) : Prop := Unmarked s ∧ ∃ g, Unfolds g s ∧ t = s.over g

theorem unfolds_start (code : Code) : Unfolds (fun _ => default) (State.start code) :=
  ⟨fun a c hc => by simp [State.start] at hc, fun above t below hf => by
    simp [State.start, Stack.empty] at hf⟩

theorem Cell.Holds.forceTree_suspended {g : Nat → Tree} {t : Tree} {code : Code} {env : Env}
    (hc : (Cell.suspended code env).Holds g t) :
    forceTree t = ⟨(Focus.eval code env).over g, framesOver g []⟩ := by
  obtain rfl : t = .suspended code (env.map g) := hc
  rfl

theorem Cell.Holds.forceTree_application {g : Nat → Tree} {t : Tree} {func arg : Nat}
    (hc : (Cell.application func arg).Holds g t) :
    forceTree t = ⟨(Focus.force func).over g, framesOver g [.apply arg]⟩ := by
  obtain rfl : t = .application (g func) (g arg) := hc
  rfl

/-- A state in order without a rule ends alike without memory. -/
theorem alike_blocked {g : Nat → Tree} {l : State} {below : List Frame} {fault : Fault}
    (p : Printed) (ho : Orderly (l.onto below)) (hl : Blocked l fault) :
    ∃ d, treeMachine.next ((l.onto below).over g) = .inr d ∧ Alike (.fault fault, p) d :=
  ⟨.error fault, hl.tree below fun _ => ho.forced, rfl⟩

/-- A result is one without memory. -/
theorem alike_finished {g : Nat → Tree} {v : Value} {h : Heap} {p : Printed} :
    ∃ d, treeMachine.next (State.over g ⟨.give v, .ofList [], h, p⟩) = .inr d ∧
      Alike (.value v, p) d :=
  ⟨.ok (v.over g), rfl, Value.blank_over g v⟩

/-- **The machine is followed by the one without memory.** -/
theorem need_followed :
    Follows needMachine treeMachine ByNeed Alike fun s => s.stack.frames.length where
  step s s' t hR hs := by
    have hm := needMachine_next_inl.mp hs
    obtain ⟨ho, g, hu, rfl⟩ := hR
    have ho' := ho.move hm
    cases hm with
    | plain below hl =>
      obtain ⟨g', k, hu', hk⟩ := hu.plain ho hl
      exact ⟨k + 1, _, hk, ⟨ho', g', hu', rfl⟩, by simp⟩
    | enterCode a code env fs h p ha =>
      have ht := (hu.cells a _ ha).forceTree_suspended
      exact ⟨1, _, .single (next_force ht fs), ⟨ho', g, hu.enter [] (by simp) ht, rfl⟩, by simp⟩
    | enterApplication a func arg fs h p ha =>
      have ht := (hu.cells a _ ha).forceTree_application
      exact ⟨1, _, .single (next_force ht fs),
        ⟨ho', g, hu.enter [.apply arg] (by simp) ht, rfl⟩, by simp⟩
    | fill a v fs h p =>
      -- the value is kept, and without memory nothing happens
      exact ⟨0, _, .refl _, ⟨ho', g, hu.fill, rfl⟩, by simp⟩
  last s t e hR hlast := by
    obtain ⟨ho, g, hu, rfl⟩ := hR
    obtain ⟨e, p⟩ := e
    rcases Machine.ofStep_next_inr.mp hlast with ⟨v, rfl, hs⟩ | ⟨fault, rfl, hs⟩
    · obtain ⟨h, rfl⟩ := step_eq_finished_iff.mp hs
      exact alike_finished
    · obtain ⟨_, l, below, rfl, hl⟩ := step_eq_failed_iff.mp hs
      exact alike_blocked p ho hl

/-- A demand by name of a suspended cell. -/
theorem Unfolds.reopen {g : Nat → Tree} {a : Nat} {fs : List Frame} {h : Heap} {p : Printed}
    (hu : Unfolds g ⟨.force a, .ofList fs, h, p⟩) {s' : State} (hh : s'.heap = h)
    (hn : ∀ b, Frame.update b ∉ s'.stack.frames) : Unfolds g s' := by
  refine ⟨fun b c hc => ?_, fun above t rest hf => ?_⟩
  · rw [hh] at hc
    exact hu.cells b c hc
  · exact absurd (by simp [hf]) (hn t)

/-- **The machine by name is followed by the one without memory.** -/
theorem name_followed :
    Follows (.ofStep stepByName) treeMachine ByName Alike fun s => s.stack.frames.length where
  step s s' t hR hs := by
    obtain ⟨hn, g, hu, rfl⟩ := hR
    have hs := Machine.ofStep_next_inl.mp hs
    have hm : Redo s s' := by
      rcases stepByName_cases s hn.updates with ⟨u, hu, hm⟩ | ⟨_, _, _, _, _, hu⟩ | ⟨_, _, _, _, hu⟩
      · rw [hs] at hu
        cases hu
        exact hm
      · rw [hs] at hu
        cases hu
      · rw [hs] at hu
        cases hu
    have hn' := hn.redo hm
    cases hm with
    | plain below hl =>
      obtain ⟨g', k, hu', hk⟩ := hu.plain hn.orderly hl
      exact ⟨k + 1, _, hk, ⟨hn', g', hu', rfl⟩, by simp⟩
    | openCode a code env fs h p ha =>
      have ht := (hu.cells a _ ha).forceTree_suspended
      exact ⟨1, _, .single (next_force ht fs), ⟨hn', g, hu.reopen rfl hn'.updates, rfl⟩, by simp⟩
    | openApplication a func arg fs h p ha =>
      have ht := (hu.cells a _ ha).forceTree_application
      exact ⟨1, _, .single (next_force ht fs), ⟨hn', g, hu.reopen rfl hn'.updates, rfl⟩, by simp⟩
  last s t e hR hlast := by
    obtain ⟨hn, g, hu, rfl⟩ := hR
    have hlast : (stepByName s).outcome = .inr e := hlast
    rcases stepByName_cases s hn.updates with
      ⟨_, hs, _⟩ | ⟨l, below, fault, rfl, hl, hs⟩ | ⟨v, h, p, rfl, hs⟩
    · rw [hs] at hlast
      cases hlast
    · rw [hs] at hlast
      cases hlast
      exact alike_blocked _ hn.orderly hl
    · rw [hs] at hlast
      cases hlast
      exact alike_finished

/-! ## 4. The two machines end alike -/

/-- What a value is, without what it holds. -/
inductive Kind where
  | number
  | string
  | closure
  | primitive
  deriving DecidableEq, Repr

/-- The kind of a value. -/
def Value.kind : Value → Kind
  | .number _ => .number
  | .string _ => .string
  | .closure _ _ => .closure
  | .primitive _ _ => .primitive

/-- What can be seen of a value from outside: its kind and its texts. -/
structure Value.LooksLike (v w : Value) : Prop where
  kind : v.kind = w.kind
  display : v.display = w.display
  debug : v.debug = w.debug

theorem Value.looksLike_of_blank {v w : Value} (h : v.blank = w.blank) : v.LooksLike w := by
  refine ⟨?_, ?_, ?_⟩
  · cases v <;> cases w <;> first | rfl | cases h
  · rw [← Value.display_blank v, h, Value.display_blank]
  · rw [← Value.debug_blank v, h, Value.debug_blank]

section Transfer

variable {f f' : State → Transition} {R R' : State → TreeState → Prop} {size size' : State → Nat}
  {s s' : State} {t : TreeState}

/-- A value carries over from one machine to another. -/
theorem value_transfer (hF : Follows (.ofStep f) treeMachine R Alike size)
    (hF' : Follows (.ofStep f') treeMachine R' Alike size') (hR : R s t) (hR' : R' s' t) {v : Value}
    (hv : ∃ n, (runBy f n 0 s).ending = .value v) :
    ∃ w, (∃ n, (runBy f' n 0 s').ending = .value w) ∧ v.blank = w.blank := by
  obtain ⟨p, hends⟩ := (exists_ending_iff (by simp)).mp hv
  obtain ⟨⟨e, q⟩, d, hends', hd, hd'⟩ := hF.agree hF' hR hR' hends
  cases d with
  | error fault => cases hd
  | ok m =>
    have hd : m.blank = v.blank := hd
    cases e with
    | value w => exact ⟨w, (exists_ending_iff (by simp)).mpr ⟨q, hends'⟩, hd.symm.trans hd'⟩
    | fault => cases hd'
    | outOfTime => cases hd'
    | outOfFrames => cases hd'

/-- A fault carries over from one machine to another. -/
theorem fault_transfer (hF : Follows (.ofStep f) treeMachine R Alike size)
    (hF' : Follows (.ofStep f') treeMachine R' Alike size') (hR : R s t) (hR' : R' s' t)
    {fault : Fault} (hf : ∃ n, (runBy f n 0 s).ending = .fault fault) :
    ∃ n, (runBy f' n 0 s').ending = .fault fault := by
  obtain ⟨p, hends⟩ := (exists_ending_iff (by simp)).mp hf
  obtain ⟨⟨e, q⟩, d, hends', hd, hd'⟩ := hF.agree hF' hR hR' hends
  cases d with
  | ok m => cases hd
  | error fault' =>
    obtain rfl : fault' = fault := hd
    cases e with
    | fault fault =>
      obtain rfl : fault' = fault := hd'
      exact (exists_ending_iff (by simp)).mpr ⟨q, hends'⟩
    | value => cases hd'
    | outOfTime => cases hd'
    | outOfFrames => cases hd'

/-- An endless run carries over from one machine to another. -/
theorem endless_transfer (hF : Follows (.ofStep f) treeMachine R Alike size)
    (hF' : Follows (.ofStep f') treeMachine R' Alike size') (hR : R s t) (hR' : R' s' t)
    (he : ∀ n, (runBy f n 0 s).ending = .outOfTime) : ∀ n, (runBy f' n 0 s').ending = .outOfTime :=
  forall_outOfTime_iff.mpr (hF.agree_forever hF' hR hR' (forall_outOfTime_iff.mp he))

end Transfer

/-- **Keeping values cannot be seen**, whatever the code: with time enough the machine comes to a
    value exactly if the machine by name does, and the two look alike; it comes to a fault exactly
    if the machine by name comes to this fault; and no time is enough for the one exactly if none is
    for the other. -/
theorem memoization_unobservable (code : Code) :
    (∀ v, (∃ n, (evaluate code ⟨n, none⟩).ending = .value v) →
      ∃ w, (∃ n, (evaluateByName code n).ending = .value w) ∧ v.LooksLike w) ∧
    (∀ w, (∃ n, (evaluateByName code n).ending = .value w) →
      ∃ v, (∃ n, (evaluate code ⟨n, none⟩).ending = .value v) ∧ v.LooksLike w) ∧
    (∀ fault, (∃ n, (evaluate code ⟨n, none⟩).ending = .fault fault) ↔
      ∃ n, (evaluateByName code n).ending = .fault fault) ∧
    ((∀ n, (evaluate code ⟨n, none⟩).ending = .outOfTime) ↔
      ∀ n, (evaluateByName code n).ending = .outOfTime) := by
  have hrun : ∀ n, evaluate code ⟨n, none⟩ = runBy step n 0 (State.start code) :=
    fun n => run_none_eq n 0 _
  have hneed : ByNeed (State.start code) ((State.start code).over fun _ => default) :=
    ⟨orderly_start code, _, unfolds_start code, rfl⟩
  have hname : ByName (State.start code) ((State.start code).over fun _ => default) :=
    ⟨⟨orderly_start code, by simp [State.start, Stack.empty]⟩, _, unfolds_start code, rfl⟩
  simp only [hrun, evaluateByName]
  refine ⟨fun v hv => ?_, fun w hw => ?_, fun fault => ⟨?_, ?_⟩, ?_, ?_⟩
  · obtain ⟨w, hw, hvw⟩ := value_transfer need_followed name_followed hneed hname hv
    exact ⟨w, hw, Value.looksLike_of_blank hvw⟩
  · obtain ⟨v, hv, hwv⟩ := value_transfer name_followed need_followed hname hneed hw
    exact ⟨v, hv, Value.looksLike_of_blank hwv.symm⟩
  · exact fault_transfer need_followed name_followed hneed hname
  · exact fault_transfer name_followed need_followed hname hneed
  · exact endless_transfer need_followed name_followed hneed hname
  · exact endless_transfer name_followed need_followed hname hneed

/-- What can be seen is what is printed: by name the argument of `\x.@eq x x` prints twice. -/
example :
    let twice : Code := .lambda (.apply (.apply (.builtin .eq) (.var 0)) (.var 0))
    let code : Code := .apply twice (.apply (.builtin .print) (.number 1))
    (evaluate code ⟨100, none⟩).printed = #["1"] ∧
      (evaluateByName code 100).printed = #["1", "1"] ∧
      (evaluate code ⟨100, none⟩).ending = (evaluateByName code 100).ending := by
  decide

end CallByNeed
