/-
  File:      CallByNeed/Proofs/Machine/Replay.lean
  Subject:   Closed code runs the same wherever it is forced.

  By itself a program starts with no memory. As an argument it waits in a cell among others, and the
  frames of whatever asked for it wait below. If these only update cells, its run is the same: it
  prints the same and ends alike, but the cells have other numbers.

  * `Verbatim`, `verbatim_followed` -- the same code in another memory;
  * `State.Prints` -- what is printed on the way; `ends_onto`, `prints_onto`: updates below change
    neither this nor the end;
  * `State.EndsLike` -- a run that prints what another one prints and ends as that one;
  * `Code.cell` -- the cell of closed code that is an argument; `cell_runs`: when it is forced;
  * `Code.RunsLike` -- the same for programs.
-/
import CallByNeed.Proofs.Machine.Lockstep

namespace CallByNeed

/-! ## 1. The same code in another memory -/

/-- How a run ended, but for the cells of a value. -/
def Ending.blank : Ending → Ending
  | .value v => .value v.blank
  | .fault f => .fault f
  | .outOfTime => .outOfTime
  | .outOfFrames n => .outOfFrames n

/-- Code that differs nowhere is the same code. -/
theorem Code.Twin.eq {live : Live} {c c' : Code} (h : c.Twin Eq (fun _ _ => False) live c') :
    c = c' := by
  induction h with
  | number | string | builtin | var => rfl
  | lambda _ ih => rw [ih]
  | apply _ _ ihf ihx => rw [ihf, ihx]
  | unused _ hx ih => rw [ih, hx]
  | swapped _ hx =>
    obtain ⟨_, _, _, _, hd⟩ := hx [] [] 0 0
    exact hd.elim

theorem Value.Twin.blank {ρ : Nat → Nat → Prop} {v v' : Value}
    (h : v.Twin Eq (fun _ _ => False) ρ v') : v.blank = v'.blank := by
  cases h with
  | number | string => rfl
  | closure hbody _ => simp only [Value.blank, hbody.eq]
  | primitive b hargs => simp [Value.blank, hargs.length_eq]

/-- The same state but for the numbers of its cells. -/
structure Verbatim (s s' : State) : Prop where
  twin : s.Twin Eq (fun _ _ => False) s'
  left : InScope s
  right : InScope s'

/-- The same end but for the numbers of cells. -/
def SameEnd (r r' : Ending × Printed) : Prop := r'.1.blank = r.1.blank ∧ r'.2 = r.2

/-- The same code takes the same step. -/
theorem Verbatim.tandem {s t : State} (h : Verbatim s t) :
    Tandem Eq (fun _ _ => False) (step s) (step t) := by
  rcases h.twin.step h.left h.right with ⟨_, _, _, _, _, _, _, _, hd⟩ | htandem
  · exact hd.elim
  · exact htandem

/-- **The same code does the same in another memory.** -/
theorem verbatim_followed : Follows needMachine needMachine Verbatim SameEnd fun _ => 0 where
  step s s' t hR hs := by
    have hmove := needMachine_next_inl.mp hs
    have htandem := hR.tandem
    rw [step_of_move hmove] at htandem
    generalize ht : step t = r at htandem
    cases htandem with
    | next hnext =>
      have hmove' := step_eq_next_iff.mp ht
      exact ⟨1, _, .single (needMachine_next_inl.mpr hmove'),
        ⟨hnext, hR.left.move hmove, hR.right.move hmove'⟩, by simp⟩
  last s t e hR hs := by
    have htandem := hR.tandem
    have hs : (step s).outcome = .inr e := hs
    generalize step s = r at htandem hs
    generalize ht : step t = r' at htandem
    cases htandem with
    | next => cases hs
    | finished hv p =>
      cases hs
      exact ⟨_, Machine.ofStep_next_inr.mpr (.inl ⟨_, rfl, ht⟩),
        congrArg Ending.value hv.blank.symm, rfl⟩
    | failed fault p =>
      cases hs
      exact ⟨_, Machine.ofStep_next_inr.mpr (.inr ⟨_, rfl, ht⟩), rfl, rfl⟩

/-- Every state that the follower comes to is one that it follows. -/
theorem Verbatim.back {s t t' : State} {n : Nat} (h : Verbatim s t)
    (ht : needMachine.Steps n t t') : ∃ s', needMachine.Steps n s s' ∧ Verbatim s' t' := by
  induction ht generalizing s with
  | refl t => exact ⟨s, .refl s, h⟩
  | head hnext _ ih =>
    have hmove := needMachine_next_inl.mp hnext
    have htandem := h.tandem
    rw [step_of_move hmove] at htandem
    generalize hs : step s = r at htandem
    cases htandem with
    | next htwin =>
      have hmove' := step_eq_next_iff.mp hs
      obtain ⟨u, hu, hverbatim⟩ := ih ⟨htwin, h.left.move hmove', h.right.move hmove⟩
      exact ⟨u, .head (needMachine_next_inl.mpr hmove') hu, hverbatim⟩

/-! ## 2. What is printed on the way -/

/-- At some time this is what the run has printed. -/
def State.Prints (s : State) (p : Printed) : Prop :=
  ∃ n t, needMachine.Steps n s t ∧ t.printed = p

section Prints

variable {s t u : State} {m n : Nat} {p : Printed} {us : List Frame}

/-- A run that has printed nothing in the end has printed nothing before. -/
theorem printed_between (hs : needMachine.Steps m s t) (ht : needMachine.Steps n t u)
    (hu : u.printed = s.printed) : t.printed = s.printed := by
  have hst := steps_printed_grows hs
  have htu := steps_printed_grows ht
  rw [hu] at htu
  exact Array.toList_inj.mp (htu.eq_of_length_le hst.length_le)

/-- A run that ends without printing prints nothing. -/
theorem prints_iff_of_ends {e : Ending} (h : needMachine.Ends s (e, s.printed)) :
    s.Prints p ↔ p = s.printed := by
  constructor
  · intro ⟨n, t, ht, hp⟩
    obtain ⟨m, u, hu, hlast⟩ := h
    obtain ⟨r, hr, hru⟩ := hu.split (hu.le_of_ended hlast ht)
    obtain rfl := hr.unique ht
    rw [← hp]
    exact printed_between hr hru (printed_of_end hlast).symm
  · intro hp
    exact ⟨0, s, .refl s, hp.symm⟩

/-- Steps that print nothing do not change what is printed. -/
theorem prints_iff_of_steps (hu : needMachine.Steps n u s) (hp : s.printed = u.printed) :
    u.Prints p ↔ s.Prints p := by
  constructor
  · intro ⟨m, t, ht, htp⟩
    rcases Nat.le_total m n with hle | hle
    · obtain ⟨r, hr, hrs⟩ := hu.split hle
      obtain rfl := hr.unique ht
      exact ⟨0, s, .refl s, by rw [hp, ← printed_between hr hrs hp, htp]⟩
    · obtain ⟨r, hr, hrt⟩ := ht.split hle
      obtain rfl := hr.unique hu
      exact ⟨_, t, hrt, htp⟩
  · intro ⟨m, t, ht, htp⟩
    exact ⟨n + m, t, hu.trans ht, htp⟩

/-- Nothing but updates waits. -/
def OnlyUpdates (fs : List Frame) : Prop := ∀ f ∈ fs, ∃ a, f = .update a

theorem onlyUpdates_nil : OnlyUpdates [] := fun _ h => absurd h List.not_mem_nil

theorem onlyUpdates_cons {f : Frame} {fs : List Frame} :
    OnlyUpdates (f :: fs) ↔ (∃ a, f = .update a) ∧ OnlyUpdates fs :=
  List.forall_mem_cons

/-- A value goes through updates unchanged. -/
theorem ends_give (hus : OnlyUpdates us) (v : Value) (h : Heap) (p : Printed) :
    needMachine.Ends ⟨.give v, .ofList us, h, p⟩ (.value v, p) := by
  induction us generalizing h with
  | nil =>
    exact ⟨0, _, .refl _,
      Machine.ofStep_next_inr.mpr (.inl ⟨v, rfl, step_eq_finished_iff.mpr ⟨h, rfl⟩⟩)⟩
  | cons f us ih =>
    obtain ⟨⟨a, rfl⟩, hrest⟩ := onlyUpdates_cons.mp hus
    have hfill := needMachine_next_inl.mpr (.fill a v us h p)
    exact (Machine.Steps.single hfill).ends (ih hrest _)

/-- **Updates below do not change how a run ends.** -/
theorem ends_onto (hus : OnlyUpdates us) {r : Ending × Printed}
    (h : needMachine.Ends s r) : needMachine.Ends (s.onto us) r := by
  obtain ⟨n, t, ht, hlast⟩ := h
  obtain ⟨e, p⟩ := r
  refine (needMachine_onto ht us).ends ?_
  rcases Machine.ofStep_next_inr.mp hlast with ⟨v, rfl, hs⟩ | ⟨fault, rfl, hs⟩
  · obtain ⟨h, rfl⟩ := step_eq_finished_iff.mp hs
    exact ends_give hus v h p
  · exact ⟨0, _, .refl _,
      Machine.ofStep_next_inr.mpr (.inr ⟨fault, rfl, step_failed_onto hs us⟩)⟩

/-- **Nor do they change what it prints.** -/
theorem prints_onto (hus : OnlyUpdates us) : (s.onto us).Prints p ↔ s.Prints p := by
  constructor
  · intro ⟨m, t, ht, htp⟩
    rcases needMachine.ends_or_forever s with ⟨⟨e, q⟩, n, u, hu, hlast⟩ | hf
    · rcases Nat.le_total m n with hle | hle
      · obtain ⟨r, hr, _⟩ := hu.split hle
        obtain rfl := (needMachine_onto hr us).unique ht
        exact ⟨m, r, hr, htp⟩
      · -- the updates come after the end, and print nothing
        obtain rfl := printed_of_end hlast
        obtain ⟨r, hr, hrt⟩ := ht.split hle
        obtain rfl := hr.unique (needMachine_onto hu us)
        have hends : needMachine.Ends (u.onto us) (e, u.printed) :=
          ends_onto hus ⟨0, u, .refl u, hlast⟩
        have hprinted := (prints_iff_of_ends hends).mp ⟨_, t, hrt, htp⟩
        exact ⟨n, u, hu, hprinted.symm⟩
    · obtain ⟨u, hu⟩ := hf m
      obtain rfl := (needMachine_onto hu us).unique ht
      exact ⟨m, u, hu, htp⟩
  · intro ⟨n, t, ht, htp⟩
    exact ⟨n, t.onto us, needMachine_onto ht us, htp⟩

end Prints

/-! ## 3. Runs that end alike -/

/-- A run prints what another one prints and ends as that one does, but for the numbers of cells,
    and never if that one never does. -/
structure State.EndsLike (s t : State) : Prop where
  prints : ∀ p, s.Prints p ↔ t.Prints p
  ends : ∀ r, needMachine.Ends t r → ∃ r', needMachine.Ends s r' ∧ SameEnd r r'
  forever : needMachine.Forever t → needMachine.Forever s

section EndsLike

variable {s t u : State} {us : List Frame}

theorem Verbatim.endsLike (h : Verbatim t s) : s.EndsLike t := by
  refine ⟨fun p => ⟨?_, ?_⟩, fun _ hr => verbatim_followed.ends h hr, verbatim_followed.forever h⟩
  · intro ⟨n, s', hs', hp⟩
    obtain ⟨t', ht', hverbatim⟩ := h.back hs'
    exact ⟨n, t', ht', hverbatim.twin.1.trans hp⟩
  · intro ⟨n, t', ht', hp⟩
    obtain ⟨m, s', hs', hverbatim⟩ := verbatim_followed.steps h ht'
    exact ⟨m, s', hs', hverbatim.twin.1.symm.trans hp⟩

theorem State.EndsLike.of_steps {n : Nat} (h : s.EndsLike t) (hu : needMachine.Steps n u s)
    (hp : s.printed = u.printed) : u.EndsLike t := by
  refine ⟨fun p => (prints_iff_of_steps hu hp).trans (h.prints p), fun r hr => ?_,
    fun hf => hu.forever (h.forever hf)⟩
  obtain ⟨r', hr', hsame⟩ := h.ends r hr
  exact ⟨r', hu.ends hr', hsame⟩

theorem State.EndsLike.onto (h : s.EndsLike t) (hus : OnlyUpdates us) :
    (s.onto us).EndsLike t := by
  refine ⟨fun p => (prints_onto hus).trans (h.prints p), fun r hr => ?_, fun hf n => ?_⟩
  · obtain ⟨r', hr', hsame⟩ := h.ends r hr
    exact ⟨r', ends_onto hus hr', hsame⟩
  · obtain ⟨u, hu⟩ := h.forever hf n
    exact ⟨u.onto us, needMachine_onto hu us⟩

/-! ## 4. Closed code as an argument -/

/-- The cell that closed code takes as an argument. -/
def Code.cell (env : Env) : Code → Cell
  | .number n => .value (.number n)
  | .string s => .value (.string s)
  | .builtin b => .value (.primitive b [])
  | .lambda body => .value (.closure body env)
  | .apply f x => .suspended (.apply f x) env
  | .var _ => .underEvaluation

theorem Code.InScope.argument? {c : Code} (h : c.InScope 0) (env : Env) (n : Nat) :
    argument? c env n = .ok ([c.cell env], n) := by
  cases c with
  | var i => exact absurd h (Nat.not_lt_zero i)
  | _ => rfl

/-- What is a value already, where it stands and by itself. -/
theorem endsLike_of_value {c : Code} {v w : Value} (hw : c.value? [] = some w)
    (hsame : v.blank = w.blank) (h : Heap) :
    State.EndsLike ⟨.give v, .ofList [], h, #[]⟩ (State.start c) := by
  have halone : needMachine.Ends (State.start c) (.value w, #[]) :=
    (Machine.Steps.single (needMachine_next_inl.mpr (.plain [] (.literal c [] w #[] #[] hw)))).ends
      (ends_give onlyUpdates_nil w #[] #[])
  have hhere : needMachine.Ends ⟨.give v, .ofList [], h, #[]⟩ (.value v, #[]) :=
    ends_give onlyUpdates_nil v h #[]
  refine ⟨fun p => (prints_iff_of_ends hhere).trans (prints_iff_of_ends halone).symm,
    fun r hr => ?_, fun hf => absurd hf halone.not_forever⟩
  obtain rfl := halone.unique hr
  exact ⟨_, hhere, congrArg Ending.value hsame, rfl⟩

/-- **Closed code that is forced runs as it does by itself**, if only updates wait for it. -/
theorem cell_runs {c : Code} (hc : c.InScope 0) {a : Nat} {h : Heap} {env : Env}
    (hs : InScope ⟨.force a, .ofList us, h, #[]⟩) (ha : h[a]? = some (c.cell env))
    (hus : OnlyUpdates us) :
    State.EndsLike ⟨.force a, .ofList us, h, #[]⟩ (State.start c) := by
  -- what is a value already is given at once
  have hvalue {v w : Value} (hcell : c.cell env = .value v) (hw : c.value? [] = some w)
      (hsame : v.blank = w.blank) :
      State.EndsLike ⟨.force a, .ofList us, h, #[]⟩ (State.start c) := by
    rw [hcell] at ha
    exact ((endsLike_of_value hw hsame h).onto hus).of_steps
      (.single (needMachine_next_inl.mpr (.plain us (.known a v h #[] ha)))) rfl
  cases c with
  | number n => exact hvalue rfl rfl rfl
  | string s => exact hvalue rfl rfl rfl
  | builtin b => exact hvalue rfl rfl rfl
  | lambda body => exact hvalue rfl rfl rfl
  | var i => exact absurd hc (Nat.not_lt_zero i)
  | apply f x =>
    have hmove := Move.enterCode a (.apply f x) env us h #[] ha
    obtain ⟨hfocus, _, hheap⟩ := hs.move hmove
    let s₁ : State := ⟨.eval (.apply f x) env, .ofList [], h.write a .underEvaluation, #[]⟩
    have hverbatim : Verbatim (State.start (.apply f x)) s₁ :=
      ⟨twin_closed hc.twin [] env #[] _ #[], inScope_start hc, ⟨hfocus, by simp [s₁], hheap⟩⟩
    have hupdates : OnlyUpdates (.update a :: us) := onlyUpdates_cons.mpr ⟨⟨a, rfl⟩, hus⟩
    exact (hverbatim.endsLike.onto hupdates).of_steps (.single (needMachine_next_inl.mpr hmove)) rfl

end EndsLike

/-! ## 5. Programs -/

/-- Without limits the one program does what the other one does: at some time it has printed what
    that one has; it comes to the same fault, or to the same value but for its cells, with the same
    output; and it never ends if that one does not. -/
structure Code.RunsLike (c d : Code) : Prop where
  prints : ∀ p, (∃ n s, Iteration c n s ∧ s.printed = p) ↔ ∃ n s, Iteration d n s ∧ s.printed = p
  halts : ∀ x, Halts d none none x →
    ∃ y, Halts c none none y ∧ y.printed = x.printed ∧ y.ending.blank = x.ending.blank
  endless : (∀ x, ¬ Halts d none none x) → ∀ y, ¬ Halts c none none y

theorem State.EndsLike.runsLike {c d : Code} (h : (State.start c).EndsLike (State.start d)) :
    c.RunsLike d := by
  refine ⟨h.prints, fun x hx => ?_, fun hnever y => ?_⟩
  · obtain ⟨⟨e, p⟩, hends, hblank, hprinted⟩ := h.ends _ hx.ends
    obtain ⟨n, hn⟩ := halts_of_ends hends
    exact ⟨_, hn, hprinted, hblank⟩
  · rcases needMachine.ends_or_forever (State.start d) with ⟨⟨e, p⟩, hends⟩ | hf
    · obtain ⟨n, hn⟩ := halts_of_ends hends
      exact absurd hn (hnever _)
    · exact not_halts_of_forever (h.forever hf) (fun _ _ _ => rfl) y

end CallByNeed
