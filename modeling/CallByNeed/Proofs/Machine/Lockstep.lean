/-
  File:      CallByNeed/Proofs/Machine/Lockstep.lean
  Subject:   Arguments that cannot be used cannot be observed.

  Two states that are twins take the same step, unless they force a pair of cells that differ. Where
  a function does not use its parameter, the two states have an argument on top of the stack that
  stands for nothing, until the function takes it.

  * `Control`, `State.Twin` -- focus and stack, and whole states, that are the same but for code and
    cells that are not looked at;
  * `Parting` -- both force cells that may differ;
  * `State.Twin.step` -- one step; `State.Twin.run` -- a run under any limits, if they never part;
  * `Code.SameButUnused` -- programs that differ in arguments which cannot be used;
    `Code.SameButUnused.twin`: they are twins;
  * `Execution.SeenAs` -- what is seen of a run;
  * `unused_arguments_unobservable` -- their runs.
-/
import CallByNeed.Proofs.ByName.Agreement
import CallByNeed.Proofs.Machine.Limits
import CallByNeed.Proofs.Machine.Twins

namespace CallByNeed

/-! ## 1. States -/

/-- What the machine does next and what waits for it, the same but for code and cells. -/
inductive Control (U : Code → Code → Prop) (D : Cell → Cell → Prop) (ρ : Nat → Nat → Prop) :
    Focus → List Frame → Focus → List Frame → Prop where
  | eval {live : Live} {code code' : Code} {env env' : Env} {fs fs' : List Frame}
      (hcode : code.Twin U D live code') (henv : Shared ρ live env env')
      (hfs : List.Forall₂ (Frame.Twin U D ρ) fs fs') :
      Control U D ρ (.eval code env) fs (.eval code' env') fs'
  | force {a a' : Nat} {fs fs' : List Frame} (ha : ρ a a')
      (hfs : List.Forall₂ (Frame.Twin U D ρ) fs fs') : Control U D ρ (.force a) fs (.force a') fs'
  | give {v v' : Value} {fs fs' : List Frame} (hv : v.Twin U D ρ v')
      (hfs : List.Forall₂ (Frame.Twin U D ρ) fs fs') : Control U D ρ (.give v) fs (.give v') fs'
  /-- A function that does not use its parameter, and its argument: -/
  | unusedEval {live : Live} {body body' : Code} {env env' : Env} {fs fs' : List Frame}
      (hbody : body.Twin U D (live.under False) body') (henv : Shared ρ live env env') (a a' : Nat)
      (hfs : List.Forall₂ (Frame.Twin U D ρ) fs fs') :
      Control U D ρ (.eval (.lambda body) env) (.apply a :: fs)
        (.eval (.lambda body') env') (.apply a' :: fs')
  /-- the same one step later. -/
  | unusedGive {live : Live} {body body' : Code} {env env' : Env} {fs fs' : List Frame}
      (hbody : body.Twin U D (live.under False) body') (henv : Shared ρ live env env') (a a' : Nat)
      (hfs : List.Forall₂ (Frame.Twin U D ρ) fs fs') :
      Control U D ρ (.give (.closure body env)) (.apply a :: fs)
        (.give (.closure body' env')) (.apply a' :: fs')

/-- Two states that are the same but for code and cells. -/
def State.Twin (U : Code → Code → Prop) (D : Cell → Cell → Prop) (s s' : State) : Prop :=
  s.printed = s'.printed ∧ ∃ ρ, Paired U D ρ s.heap s'.heap ∧
    Control U D ρ s.focus s.stack.frames s'.focus s'.stack.frames

/-- Both states force cells that may differ. -/
def Parting (D : Cell → Cell → Prop) (s s' : State) : Prop :=
  ∃ a a' c c', s.focus = .force a ∧ s'.focus = .force a' ∧
    s.heap[a]? = some c ∧ s'.heap[a']? = some c' ∧ D c c'

/-- Two steps that lead to twins, or to the same end. -/
inductive Tandem (U : Code → Code → Prop) (D : Cell → Cell → Prop) :
    Transition → Transition → Prop where
  | next {s s' : State} (hs : s.Twin U D s') : Tandem U D (.next s) (.next s')
  | finished {ρ : Nat → Nat → Prop} {v v' : Value} (hv : v.Twin U D ρ v') (p : Printed) :
      Tandem U D (.finished v p) (.finished v' p)
  | failed (fault : Fault) (p : Printed) : Tandem U D (.failed fault p) (.failed fault p)

section Lockstep

variable {U : Code → Code → Prop} {D : Cell → Cell → Prop} {ρ : Nat → Nat → Prop} {h h' : Heap}
  {p : Printed} {fs fs' : List Frame}

/-- Frames stay twins when cells are added. -/
theorem forall₂_frames_mono {σ : Nat → Nat → Prop} (hle : ∀ a a', ρ a a' → σ a a')
    (hfs : List.Forall₂ (Frame.Twin U D ρ) fs fs') : List.Forall₂ (Frame.Twin U D σ) fs fs' :=
  hfs.imp fun _ _ => Frame.Twin.mono hle

/-- Frames that apply a value to cells that stand for each other. -/
theorem forall₂_applies {xs xs' : List Nat} (hxs : List.Forall₂ ρ xs xs') :
    List.Forall₂ (Frame.Twin U D ρ) (xs.map .apply) (xs'.map .apply) :=
  List.forall₂_map_left_iff.mpr (List.forall₂_map_right_iff.mpr (hxs.imp fun _ _ => .apply))

/-- Both take a rule that keeps every cell. -/
theorem Tandem.plain {l l' m m' : State} (hl : Plain l m) (hl' : Plain l' m')
    (hm : (m.onto fs).Twin U D (m'.onto fs')) :
    Tandem U D (step (l.onto fs)) (step (l'.onto fs')) := by
  rw [step_of_plain hl, step_of_plain hl']
  exact .next hm

/-- Both are blocked in the same way. -/
theorem Tandem.blocked {l l' : State} {fault : Fault} (hl : Blocked l fault)
    (hl' : Blocked l' fault) (hp : l.printed = l'.printed) :
    Tandem U D (step (l.onto fs)) (step (l'.onto fs')) := by
  rw [step_of_blocked hl, step_of_blocked hl', hp]
  exact .failed fault l'.printed

/-! ## 2. One step -/

/-- Evaluating twins. -/
theorem eval_tandem {live : Live} {code code' : Code} {env env' : Env}
    (hcode : code.Twin U D live code') (henv : Shared ρ live env env')
    (hfs : List.Forall₂ (Frame.Twin U D ρ) fs fs') (hpair : Paired U D ρ h h')
    (hscope : code.InScope env.length) (hscope' : code'.InScope env'.length) :
    Tandem U D (step ⟨.eval code env, .ofList fs, h, p⟩)
      (step ⟨.eval code' env', .ofList fs', h', p⟩) := by
  cases hcode with
  | number _ n =>
    exact .plain (.literal _ env _ h p rfl) (.literal _ env' _ h' p rfl)
      ⟨rfl, ρ, hpair, .give (.number n) hfs⟩
  | string _ s =>
    exact .plain (.literal _ env _ h p rfl) (.literal _ env' _ h' p rfl)
      ⟨rfl, ρ, hpair, .give (.string s) hfs⟩
  | builtin _ b =>
    exact .plain (.literal _ env _ h p rfl) (.literal _ env' _ h' p rfl)
      ⟨rfl, ρ, hpair, .give (.primitive b .nil) hfs⟩
  | lambda hbody =>
    exact .plain (.literal _ env _ h p rfl) (.literal _ env' _ h' p rfl)
      ⟨rfl, ρ, hpair, .give (.closure hbody henv) hfs⟩
  | var hi =>
    obtain ⟨a, a', ha, ha', hρ⟩ := henv _ hi
    exact .plain (.lookup _ env a h p ha) (.lookup _ env' a' h' p ha')
      ⟨rfl, ρ, hpair, .force hρ hfs⟩
  | apply hf hx =>
    obtain ⟨cells, cells', a, a', ha, ha', hcells, hgrown⟩ :=
      argument?_twin hx henv h.size h'.size
    exact .plain (.argument _ _ env cells a h p ha) (.argument _ _ env' cells' a' h' p ha')
      ⟨rfl, _, hpair.extend hcells, .eval hf (henv.mono grown_old)
        (.cons (.apply hgrown) (forall₂_frames_mono grown_old hfs))⟩
  | unused hbody hx =>
    -- the two arguments need not take the same number of cells
    obtain ⟨⟨cells, a⟩, ha⟩ := argument?_isOk h.size hscope.2
    obtain ⟨⟨cells', a'⟩, ha'⟩ := argument?_isOk h'.size hscope'.2
    exact .plain (.argument _ _ env cells a h p ha) (.argument _ _ env' cells' a' h' p ha')
      ⟨rfl, ρ, hpair.unrelated cells cells', .unusedEval hbody henv a a' hfs⟩
  | swapped hf hx =>
    obtain ⟨c, c', ha, ha', hc⟩ := hx env env' h.size h'.size
    have hcells : List.Forall₂ (Cell.Twin U D (grown ρ h.size h'.size [c].length)) [c] [c'] :=
      .cons (.swapped hc) .nil
    exact .plain (.argument _ _ env _ _ h p ha) (.argument _ _ env' _ _ h' p ha')
      ⟨rfl, _, hpair.extend hcells, .eval hf (henv.mono grown_old)
        (.cons (.apply (grown_new 0 Nat.one_pos)) (forall₂_frames_mono grown_old hfs))⟩

/-- Forcing cells that stand for each other. -/
theorem force_tandem {a a' : Nat} (ha : ρ a a') (hfs : List.Forall₂ (Frame.Twin U D ρ) fs fs')
    (hpair : Paired U D ρ h h') :
    Parting D ⟨.force a, .ofList fs, h, p⟩ ⟨.force a', .ofList fs', h', p⟩ ∨
    Tandem U D (step ⟨.force a, .ofList fs, h, p⟩) (step ⟨.force a', .ofList fs', h', p⟩) := by
  obtain ⟨c, c', hc, hc', htwin⟩ := hpair.cells a a' ha
  have hmarked := hpair.write ha .underEvaluation
  cases htwin with
  | suspended hcode henv =>
    rw [step_of_move (.enterCode a _ _ fs h p hc), step_of_move (.enterCode a' _ _ fs' h' p hc')]
    exact .inr (.next ⟨rfl, ρ, hmarked, .eval hcode henv (.cons (.update ha) hfs)⟩)
  | application hf hx =>
    rw [step_of_move (.enterApplication a _ _ fs h p hc),
      step_of_move (.enterApplication a' _ _ fs' h' p hc')]
    exact .inr (.next ⟨rfl, ρ, hmarked, .force hf (.cons (.apply hx) (.cons (.update ha) hfs))⟩)
  | underEvaluation =>
    exact .inr (.blocked (.entered a h p (.inl hc)) (.entered a' h' p (.inl hc')) rfl)
  | value hv =>
    exact .inr (.plain (.known a _ h p hc) (.known a' _ h' p hc') ⟨rfl, ρ, hpair, .give hv hfs⟩)
  | swapped hd => exact .inl ⟨a, a', c, c', rfl, rfl, hc, hc', hd⟩

/-- Applying primitives that are twins. -/
theorem primitive_tandem {b : Builtin} {args args' : List Nat} {a a' : Nat}
    (hargs : List.Forall₂ ρ args args') (ha : ρ a a')
    (hfs : List.Forall₂ (Frame.Twin U D ρ) fs fs') (hpair : Paired U D ρ h h') :
    Tandem U D (step ⟨.give (.primitive b args), .ofList (.apply a :: fs), h, p⟩)
      (step ⟨.give (.primitive b args'), .ofList (.apply a' :: fs'), h', p⟩) := by
  have hmore : List.Forall₂ ρ (args ++ [a]) (args' ++ [a']) :=
    List.rel_append hargs (.cons ha .nil)
  have hlen : args.length = args'.length := hargs.length_eq
  by_cases hb : args.length + 1 < b.collects
  · exact .plain (.collect b args a h p hb) (.collect b args' a' h' p (hlen ▸ hb))
      ⟨rfl, ρ, hpair, .give (.primitive b hmore) hfs⟩
  have hb' : ¬ args'.length + 1 < b.collects := hlen ▸ hb
  cases hs : b.isStrict with
  | true =>
    generalize hn : args ++ [a] = more at hmore
    generalize hn' : args' ++ [a'] = more' at hmore
    cases hmore with
    | nil => simp at hn
    | cons hfirst hpending =>
      exact .plain (.strictFirst b args a _ _ h p hb hs hn)
        (.strictFirst b args' a' _ _ h' p hb' hs hn')
        ⟨rfl, ρ, hpair, .force hfirst (.cons (.strict b .nil hpending) hfs)⟩
  | false =>
    rcases handover?_twin (U := U) (D := D) hmore b h.size h'.size with ⟨ho, ho'⟩ |
      ⟨cells, cells', o, o', ho, ho', hcells, htwin⟩
    · have hblocked := Blocked.handover b args' a' h' p hb' hs ho'
      have hsame : (args' ++ [a']).length = (args ++ [a]).length := by simp [hlen]
      rw [hsame] at hblocked
      exact .blocked (.handover b args a h p hb hs ho) hblocked rfl
    · have hgrown := hpair.extend hcells
      have hfs' : List.Forall₂ (Frame.Twin U D (grown ρ h.size h'.size cells.length)) fs fs' :=
        forall₂_frames_mono grown_old hfs
      cases htwin with
      | call hf hxs =>
        exact .plain (.call b args a cells _ _ h p hb hs ho)
          (.call b args' a' cells' _ _ h' p hb' hs ho')
          ⟨rfl, _, hgrown, .force hf (List.rel_append (forall₂_applies hxs) hfs')⟩
      | result hv =>
        exact .plain (.result b args a cells _ h p hb hs ho)
          (.result b args' a' cells' _ h' p hb' hs ho') ⟨rfl, _, hgrown, .give hv hfs'⟩

/-- Giving twins to frames that are twins. -/
theorem give_tandem {v v' : Value} (hv : v.Twin U D ρ v')
    (hfs : List.Forall₂ (Frame.Twin U D ρ) fs fs') (hpair : Paired U D ρ h h') :
    Tandem U D (step ⟨.give v, .ofList fs, h, p⟩) (step ⟨.give v', .ofList fs', h', p⟩) := by
  cases hfs with
  | nil =>
    rw [step_eq_finished_iff.mpr ⟨h, rfl⟩, step_eq_finished_iff.mpr ⟨h', rfl⟩]
    exact .finished hv p
  | cons hf hfs =>
    cases hf with
    | update ha =>
      rw [step_of_move (.fill _ v _ h p), step_of_move (.fill _ v' _ h' p)]
      exact .next ⟨rfl, ρ, hpair.write ha (.value hv), .give hv hfs⟩
    | apply ha =>
      cases hv with
      | number n => exact .blocked (.number n _ h p) (.number n _ h' p) rfl
      | string s => exact .blocked (.string s _ h p) (.string s _ h' p) rfl
      | closure hbody henv =>
        exact .plain (.closure _ _ _ h p) (.closure _ _ _ h' p)
          ⟨rfl, ρ, hpair, .eval hbody (henv.cons fun _ => ha) hfs⟩
      | primitive b hargs => exact primitive_tandem hargs ha hfs hpair
    | @strict b vs vs' xs xs' hvs hxs =>
      have hmore : List.Forall₂ (Value.Twin U D ρ) (vs ++ [v]) (vs' ++ [v']) :=
        List.rel_append hvs (.cons hv .nil)
      cases hxs with
      | cons hx hxs =>
        exact .plain (.strictNext b vs _ _ v h p) (.strictNext b vs' _ _ v' h' p)
          ⟨rfl, ρ, hpair, .force hx (.cons (.strict b hmore hxs) hfs)⟩
      | nil =>
        have hsame := strictEffect_twin hmore b p
        cases hr : strictEffect b (vs ++ [v]) p with
        | error fault =>
          exact .blocked (.strictLast b vs v fault h p hr)
            (.strictLast b vs' v' fault h' p (hsame ▸ hr)) rfl
        | ok r =>
          exact .plain (.strictLast b vs v r.1 h p r.2 hr)
            (.strictLast b vs' v' r.1 h' p r.2 (hsame ▸ hr))
            ⟨rfl, ρ, hpair, .give (Value.twin_of_isGround (strictEffect_ground hr)) hfs⟩

/-- **Twins take the same step**, unless they force cells that differ. -/
theorem State.Twin.step {s s' : State} (ht : s.Twin U D s') (hs : InScope s) (hs' : InScope s') :
    Parting D s s' ∨ Tandem U D (CallByNeed.step s) (CallByNeed.step s') := by
  obtain ⟨focus, stack, h, p⟩ := s
  obtain ⟨focus', stack', h', p'⟩ := s'
  obtain ⟨fs, rfl⟩ : ∃ fs, stack = .ofList fs := ⟨stack.frames, (Stack.ofList_frames stack).symm⟩
  obtain ⟨fs', rfl⟩ : ∃ fs', stack' = .ofList fs' :=
    ⟨stack'.frames, (Stack.ofList_frames stack').symm⟩
  obtain ⟨hprinted, ρ, hpair, hcontrol⟩ := ht
  obtain rfl : p = p' := hprinted
  simp only [Stack.frames_ofList] at hcontrol hpair
  cases hcontrol with
  | eval hcode henv hfs => exact .inr (eval_tandem hcode henv hfs hpair hs.focus hs'.focus)
  | force ha hfs => exact force_tandem ha hfs hpair
  | give hv hfs => exact .inr (give_tandem hv hfs hpair)
  | unusedEval hbody henv a a' hfs =>
    exact .inr (.plain (.literal _ _ _ h p rfl) (.literal _ _ _ h' p rfl)
      ⟨rfl, ρ, hpair, .unusedGive hbody henv a a' hfs⟩)
  | unusedGive hbody henv a a' hfs =>
    exact .inr (.plain (.closure _ _ a h p) (.closure _ _ a' h' p)
      ⟨rfl, ρ, hpair, .eval hbody (henv.cons False.elim) hfs⟩)

/-! ## 3. Runs -/

theorem Control.length_eq {focus focus' : Focus} (hc : Control U D ρ focus fs focus' fs') :
    fs.length = fs'.length := by
  cases hc with
  | eval _ _ hfs => exact hfs.length_eq
  | force _ hfs => exact hfs.length_eq
  | give _ hfs => exact hfs.length_eq
  | unusedEval _ _ _ _ hfs => simp only [List.length_cons, hfs.length_eq]
  | unusedGive _ _ _ _ hfs => simp only [List.length_cons, hfs.length_eq]

theorem State.Twin.size_eq {s s' : State} (ht : s.Twin U D s') : s.stack.size = s'.stack.size := by
  obtain ⟨_, ρ, _, hcontrol⟩ := ht
  rw [s.stack.size_eq, s'.stack.size_eq, hcontrol.length_eq]

/-- Code stays in scope throughout a run. -/
theorem InScope.steps {n : Nat} {s t : State} (hs : InScope s) (ht : needMachine.Steps n s t) :
    InScope t := by
  induction ht with
  | refl s => exact hs
  | head h _ ih => exact ih (hs.move (needMachine_next_inl.mp h))

/-- The two runs never force cells that differ. -/
def NeverPart (U : Code → Code → Prop) (D : Cell → Cell → Prop) (s s' : State) : Prop :=
  ∀ n t t', needMachine.Steps n s t → needMachine.Steps n s' t' → t.Twin U D t' → ¬ Parting D t t'

/-- How a run ended, but for code and cells of a value. -/
def Ending.face : Ending → Ending
  | .value v => .value v.face
  | .fault f => .fault f
  | .outOfTime => .outOfTime
  | .outOfFrames n => .outOfFrames n

/-- What is seen of a run. -/
def Execution.face (x : Execution) : Execution := ⟨x.ending.face, x.printed, x.steps⟩

/-- **Runs from twins look the same under any limits**, if they never part. -/
theorem State.Twin.run {s s' : State} (ht : s.Twin U D s') (hs : InScope s) (hs' : InScope s')
    (hnever : NeverPart U D s s') (maxFrames : Option Nat) (left taken : Nat) :
    (CallByNeed.run maxFrames left taken s).face =
      (CallByNeed.run maxFrames left taken s').face := by
  induction left generalizing taken s s' with
  | zero =>
    show (⟨.outOfTime, s.printed, taken + 1⟩ : Execution) = ⟨.outOfTime, s'.printed, taken + 1⟩
    rw [ht.1]
  | succ left ih =>
    rw [CallByNeed.run, CallByNeed.run, ← ht.size_eq]
    cases hc : exceeded? maxFrames s.stack.size with
    | some cap =>
      show (⟨.outOfFrames cap, s.printed, taken + 1⟩ : Execution) =
        ⟨.outOfFrames cap, s'.printed, taken + 1⟩
      rw [ht.1]
    | none =>
      rcases ht.step hs hs' with hpart | htandem
      · exact absurd hpart (hnever 0 s s' (.refl s) (.refl s') ht)
      generalize hstep : CallByNeed.step s = r at htandem ⊢
      generalize hstep' : CallByNeed.step s' = r' at htandem ⊢
      cases htandem with
      | @next t t' htwin =>
        have hmove := step_eq_next_iff.mp hstep
        have hmove' := step_eq_next_iff.mp hstep'
        refine ih htwin (hs.move hmove) (hs'.move hmove') (fun n u u' hu hu' => ?_) (taken + 1)
        exact hnever (n + 1) u u' (.head (needMachine_next_inl.mpr hmove) hu)
          (.head (needMachine_next_inl.mpr hmove') hu')
      | @finished ρ v v' hv p =>
        show (⟨.value v.face, p, taken + 1⟩ : Execution) = ⟨.value v'.face, p, taken + 1⟩
        rw [hv.face]
      | failed fault p => rfl

end Lockstep

section Closed

variable {U : Code → Code → Prop} {D : Cell → Cell → Prop} {c c' : Code}

/-- Closed code does not look at the memory it is in. -/
theorem twin_closed (h : c.Twin U D (fun _ => False) c') (env env' : Env) (m m' : Heap)
    (p : Printed) :
    State.Twin U D ⟨.eval c env, .ofList [], m, p⟩ ⟨.eval c' env', .ofList [], m', p⟩ := by
  refine ⟨rfl, fun _ _ => False, ⟨fun _ _ => False.elim, fun _ _ _ => False.elim,
    fun _ _ _ => False.elim⟩, ?_⟩
  exact .eval h (fun _ => False.elim) .nil

/-- Programs that are twins, before they run. -/
theorem twin_start (h : c.Twin U D (fun _ => False) c') :
    (State.start c).Twin U D (State.start c') :=
  twin_closed h [] [] #[] #[] #[]

end Closed

/-! ## 4. Arguments that cannot be used -/

/-- Programs that are equal but for the arguments of lambdas that do not use their parameter, in
    neither program. -/
inductive Code.SameButUnused : Code → Code → Prop where
  | refl (c : Code) : SameButUnused c c
  | lambda {body body' : Code} (hbody : SameButUnused body body') :
      SameButUnused (.lambda body) (.lambda body')
  | apply {f f' x x' : Code} (hf : SameButUnused f f') (hx : SameButUnused x x') :
      SameButUnused (.apply f x) (.apply f' x')
  | unused {body body' : Code} (hbody : SameButUnused body body') (h : body.uses 0 = false)
      (h' : body'.uses 0 = false) (x x' : Code) :
      SameButUnused (.apply (.lambda body) x) (.apply (.lambda body') x')

/-- **Programs that differ in arguments which cannot be used are twins**, if all that is used is
    live. -/
theorem Code.SameButUnused.twin {D : Cell → Cell → Prop} {c c' : Code} (h : c.SameButUnused c')
    {live : Live} (hlive : ∀ i, c.uses i = true → live i) :
    c.Twin (fun _ _ => True) D live c' := by
  induction h generalizing live with
  | refl c => exact c.twin_refl hlive
  | lambda _ ih =>
    refine .lambda (ih fun i hi => ?_)
    cases i with
    | zero => trivial
    | succ i => exact hlive i hi
  | apply _ _ ihf ihx =>
    exact .apply (ihf fun i hi => hlive i (by simp [uses, hi]))
      (ihx fun i hi => hlive i (by simp [uses, hi]))
  | unused _ hunused _ x x' ih =>
    refine .unused (ih fun i hi => ?_) trivial
    cases i with
    | zero => simp [hunused] at hi
    | succ i => exact hlive i (by simp [uses, hi])

/-! ## 5. Their runs -/

/-- The same ending, or values of the same kind that are shown alike. -/
def Ending.SeenAs : Ending → Ending → Prop
  | .value v, .value w => v.kind = w.kind ∧ v.display = w.display
  | e, e' => e = e'

/-- Runs of the same length that print the same and end alike. -/
structure Execution.SeenAs (x x' : Execution) : Prop where
  steps : x.steps = x'.steps
  printed : x.printed = x'.printed
  ending : x.ending.SeenAs x'.ending

theorem Ending.seenAs_of_face {e e' : Ending} (h : e.face = e'.face) : e.SeenAs e' := by
  cases e with
  | value v =>
    cases e' with
    | value w =>
      have hface : v.face = w.face := Ending.value.inj h
      refine ⟨?_, ?_⟩
      · cases v <;> cases w <;> first | rfl | cases hface
      · rw [← v.display_face, hface, w.display_face]
    | _ => cases h
  | _ =>
    cases e' with
    | value w => cases h
    | _ => exact h

theorem Execution.seenAs_of_face {x x' : Execution} (h : x.face = x'.face) : x.SeenAs x' := by
  obtain ⟨hending, hprinted, hsteps⟩ := Execution.mk.inj h
  exact ⟨hsteps, hprinted, Ending.seenAs_of_face hending⟩

theorem Ending.SeenAs.ne_outOfTime {e e' : Ending} (h : e.SeenAs e') (he : e ≠ .outOfTime) :
    e' ≠ .outOfTime := by
  intro he'
  subst he'
  cases e with
  | outOfTime => exact he rfl
  | _ => cases h

/-- A run that is out of time began one step more than it had time for. -/
theorem run_outOfTime_steps {maxFrames : Option Nat} {left taken : Nat} {s : State}
    (h : (run maxFrames left taken s).ending = .outOfTime) :
    (run maxFrames left taken s).steps = taken + left + 1 := by
  induction left generalizing taken s with
  | zero => rfl
  | succ left ih =>
    rw [run] at h ⊢
    cases hc : exceeded? maxFrames s.stack.size with
    | some cap =>
      rw [hc] at h
      cases h
    | none =>
      rw [hc] at h
      cases hs : step s with
      | next s' =>
        rw [hs] at h
        have hsteps := ih h
        dsimp only
        omega
      | finished v p =>
        rw [hs] at h
        cases h
      | failed fault p =>
        rw [hs] at h
        cases h

/-- Without a deadline no run is out of time. -/
theorem Halts.ne_outOfTime {code : Code} {maxFrames : Option Nat} {x : Execution}
    (hx : Halts code maxFrames none x) : x.ending ≠ .outOfTime := by
  obtain ⟨k, hk⟩ := hx
  intro he
  -- with more time it would have taken more steps
  have hsteps (time : Nat) (htime : k ≤ time) : x.steps = 0 + time + 1 := by
    have hrun := hk time htime
    rw [← hrun] at he ⊢
    exact run_outOfTime_steps he
  have h₀ := hsteps k (Nat.le_refl k)
  have h₁ := hsteps (k + 1) (Nat.le_succ k)
  omega

/-- Runs that are seen alike under every deadline are seen alike without one. -/
theorem halts_of_seenAs {p p' : Code} {maxFrames : Option Nat}
    (h : ∀ time, (evaluate p ⟨time, maxFrames⟩).SeenAs (evaluate p' ⟨time, maxFrames⟩))
    {x : Execution} (hx : Halts p maxFrames none x) :
    ∃ x', Halts p' maxFrames none x' ∧ x.SeenAs x' := by
  have hne := hx.ne_outOfTime
  obtain ⟨k, hk⟩ := hx
  have hseen := h k
  rw [hk k (Nat.le_refl k)] at hseen
  have hhalts : Halts p' maxFrames (some k) (evaluate p' ⟨k, maxFrames⟩) := rfl
  exact ⟨_, hhalts.moreTime trivial (hseen.ending.ne_outOfTime hne), hseen⟩

/-- **Arguments that cannot be used cannot be observed.** The two programs differ only in arguments
    of lambdas that do not use their parameter, whatever these arguments would do. Under any cap and
    any deadline, and under any cap without a deadline, their runs take the same number of steps,
    print the same and end alike, or neither ends. -/
theorem unused_arguments_unobservable {p p' : Code} (hp : p.InScope 0) (hp' : p'.InScope 0)
    (h : p.SameButUnused p') (maxFrames : Option Nat) :
    (∀ time, (evaluate p ⟨time, maxFrames⟩).SeenAs (evaluate p' ⟨time, maxFrames⟩)) ∧
    ((∃ x x', Halts p maxFrames none x ∧ Halts p' maxFrames none x' ∧ x.SeenAs x') ∨
      (∀ x, ¬ Halts p maxFrames none x) ∧ ∀ x, ¬ Halts p' maxFrames none x) := by
  -- no two cells may differ, so the runs never part
  have htwin : p.Twin (fun _ _ => True) (fun _ _ => False) (fun _ => False) p' :=
    h.twin fun i hi => absurd (hp.lt_of_uses hi) (Nat.not_lt_zero i)
  have hnever : NeverPart (fun _ _ => True) (fun _ _ => False) (State.start p) (State.start p') :=
    fun n t t' _ _ _ ⟨_, _, _, _, _, _, _, _, hd⟩ => hd
  have hseen (time : Nat) :
      (evaluate p ⟨time, maxFrames⟩).face = (evaluate p' ⟨time, maxFrames⟩).face :=
    (twin_start htwin).run (inScope_start hp) (inScope_start hp') hnever maxFrames time 0
  have hforth := fun time => Execution.seenAs_of_face (hseen time)
  have hback := fun time => Execution.seenAs_of_face (hseen time).symm
  refine ⟨hforth, ?_⟩
  by_cases hhalts : ∃ x, Halts p maxFrames none x
  · obtain ⟨x, hx⟩ := hhalts
    obtain ⟨x', hx', hxx'⟩ := halts_of_seenAs hforth hx
    exact .inl ⟨x, x', hx, hx', hxx'⟩
  · refine .inr ⟨fun x hx => hhalts ⟨x, hx⟩, fun x' hx' => ?_⟩
    obtain ⟨x, hx, _⟩ := halts_of_seenAs hback hx'
    exact hhalts ⟨x, hx⟩

/-- `(\x.1) (@print 2)` and `(\x.1) ((\y.y y) (\y.y y))`: the one argument would print, the other
    one would never end. -/
theorem unused_arguments_unobservable_endless :
    let prints : Code := .apply (.builtin .print) (.number 2)
    let endless : Code := .apply (.lambda (.apply (.var 0) (.var 0)))
      (.lambda (.apply (.var 0) (.var 0)))
    let p : Code := .apply (.lambda (.number 1)) prints
    let p' : Code := .apply (.lambda (.number 1)) endless
    p.SameButUnused p' ∧ ∃ x x', Halts p none none x ∧ Halts p' none none x' ∧ x.SeenAs x' := by
  intro prints endless p p'
  have h : p.SameButUnused p' := .unused (.refl _) rfl rfl _ _
  have hp : p.InScope 0 := ⟨trivial, trivial, trivial⟩
  have hp' : p'.InScope 0 := by simp [p', endless, Code.InScope]
  obtain ⟨_, hhalts | ⟨hnever, _⟩⟩ := unused_arguments_unobservable hp hp' h none
  · exact ⟨h, hhalts⟩
  · have hx : Halts p none (some 5) ⟨.value (.number 1), #[], 5⟩ := by
      show evaluate p ⟨5, none⟩ = _
      decide
    have hend : Halts p none none ⟨.value (.number 1), #[], 5⟩ := hx.moreTime trivial (by simp)
    exact absurd hend (hnever _)

end CallByNeed
