/-
  File:      CallByNeed/Proofs/Machine/Twins.lean
  Subject:   Two states of the machine that differ where it does not look.

  Two programs that are the same but for some arguments make different cells, and different numbers
  of them. A relation between cell numbers tells which cells stand for each other; the others are
  never looked at. Code is compared under the variables that it may look at: the cell of a variable
  that is not live may be anything.

  * `Live`, `Code.uses`, `Shared` -- variables that code may look at, those that occur in it, and
    environments that agree on variables;
  * `Code.Twin` -- code that is the same but for arguments: those of a function that does not use
    its parameter, and those whose cells may differ;
  * `Value.Twin`, `Cell.Twin`, `Frame.Twin` -- the same for everything that holds code or cells;
  * `Paired` -- memories in which related cells are twins; `Paired.extend`, `Paired.unrelated`,
    `Paired.write`: what a step does to them;
  * `argument?_twin`, `handover?_twin`, `strictEffect_twin` -- the parts of a step.
-/
import CallByNeed.Proofs.Machine.Scope
import Mathlib.Data.List.Forall2

namespace CallByNeed

/-! ## 1. Code and environments -/

/-- The variables that code may look at. -/
abbrev Live := Nat → Prop

/-- The variables under one more lambda, which uses its parameter or does not. -/
def Live.under (used : Prop) (live : Live) : Live
  | 0 => used
  | i + 1 => live i

/-- Whether a variable, counted from outside the code, occurs in it. -/
def Code.uses (i : Nat) : Code → Bool
  | .var j => i == j
  | .lambda body => body.uses (i + 1)
  | .apply f x => f.uses i || x.uses i
  | .number _ | .string _ | .builtin _ => false

/-- Code uses only variables in scope. -/
theorem Code.InScope.lt_of_uses {c : Code} {depth i : Nat} (h : c.InScope depth)
    (hi : c.uses i = true) : i < depth := by
  induction c generalizing depth i with
  | number n => cases hi
  | string s => cases hi
  | builtin b => cases hi
  | var j =>
    obtain rfl : i = j := beq_iff_eq.mp hi
    exact h
  | lambda body ih => exact Nat.lt_of_succ_lt_succ (ih h hi)
  | apply f x ihf ihx =>
    rcases Bool.or_eq_true_iff.mp hi with hi | hi
    · exact ihf h.1 hi
    · exact ihx h.2 hi

/-- The two arguments take one cell each, and these may differ as `D` says. -/
def Swaps (D : Cell → Cell → Prop) (x x' : Code) : Prop :=
  ∀ env env' n n', ∃ c c',
    argument? x env n = .ok ([c], n) ∧ argument? x' env' n' = .ok ([c'], n') ∧ D c c'

/-- The same code but for arguments. Those of a function that does not use its parameter may differ
    as `U` says; those of any function may differ if their cells may. -/
inductive Code.Twin (U : Code → Code → Prop) (D : Cell → Cell → Prop) :
    Live → Code → Code → Prop where
  | number (live : Live) (n : Int64) : Twin U D live (.number n) (.number n)
  | string (live : Live) (s : String) : Twin U D live (.string s) (.string s)
  | builtin (live : Live) (b : Builtin) : Twin U D live (.builtin b) (.builtin b)
  | var {live : Live} {i : Nat} (hi : live i) : Twin U D live (.var i) (.var i)
  | lambda {live : Live} {body body' : Code} (hbody : Twin U D (live.under True) body body') :
      Twin U D live (.lambda body) (.lambda body')
  | apply {live : Live} {f f' x x' : Code} (hf : Twin U D live f f') (hx : Twin U D live x x') :
      Twin U D live (.apply f x) (.apply f' x')
  | unused {live : Live} {body body' x x' : Code} (hbody : Twin U D (live.under False) body body')
      (hx : U x x') : Twin U D live (.apply (.lambda body) x) (.apply (.lambda body') x')
  | swapped {live : Live} {f f' x x' : Code} (hf : Twin U D live f f') (hx : Swaps D x x') :
      Twin U D live (.apply f x) (.apply f' x')

section Twins

variable {U : Code → Code → Prop} {D : Cell → Cell → Prop} {ρ σ : Nat → Nat → Prop}

/-- Code is its own twin if all that it uses is live. -/
theorem Code.twin_refl (c : Code) {live : Live} (hlive : ∀ i, c.uses i = true → live i) :
    c.Twin U D live c := by
  induction c generalizing live with
  | number n => exact .number live n
  | string s => exact .string live s
  | builtin b => exact .builtin live b
  | var i => exact .var (hlive i (beq_self_eq_true i))
  | lambda body ih =>
    refine .lambda (ih fun i hi => ?_)
    cases i with
    | zero => trivial
    | succ i => exact hlive i hi
  | apply f x ihf ihx =>
    exact .apply (ihf fun i hi => hlive i (by simp [uses, hi]))
      (ihx fun i hi => hlive i (by simp [uses, hi]))

/-- Closed code looks at no variable. -/
theorem Code.InScope.twin {c : Code} (h : c.InScope 0) : c.Twin U D (fun _ => False) c :=
  c.twin_refl fun _ hi => absurd (h.lt_of_uses hi) (Nat.not_lt_zero _)

/-- Environments in which a live variable has cells that stand for each other. -/
def Shared (ρ : Nat → Nat → Prop) (live : Live) (env env' : Env) : Prop :=
  ∀ i, live i → ∃ a a', env[i]? = some a ∧ env'[i]? = some a' ∧ ρ a a'

theorem Shared.cons {live : Live} {env env' : Env} {a a' : Nat} {used : Prop}
    (h : Shared ρ live env env') (ha : used → ρ a a') :
    Shared ρ (live.under used) (a :: env) (a' :: env') := by
  intro i hi
  cases i with
  | zero => exact ⟨a, a', rfl, rfl, ha hi⟩
  | succ i => exact h i hi

theorem Shared.mono {live : Live} {env env' : Env} (hle : ∀ a a', ρ a a' → σ a a')
    (h : Shared ρ live env env') : Shared σ live env env' := by
  intro i hi
  obtain ⟨a, a', ha, ha', hρ⟩ := h i hi
  exact ⟨a, a', ha, ha', hle a a' hρ⟩

/-! ## 2. Values, cells and frames -/

/-- The same value but for its code and its cells. -/
inductive Value.Twin (U : Code → Code → Prop) (D : Cell → Cell → Prop) (ρ : Nat → Nat → Prop) :
    Value → Value → Prop where
  | number (n : Int64) : Twin U D ρ (.number n) (.number n)
  | string (s : String) : Twin U D ρ (.string s) (.string s)
  | closure {live : Live} {body body' : Code} {env env' : Env}
      (hbody : body.Twin U D (live.under True) body') (henv : Shared ρ live env env') :
      Twin U D ρ (.closure body env) (.closure body' env')
  | primitive (b : Builtin) {args args' : List Nat} (hargs : List.Forall₂ ρ args args') :
      Twin U D ρ (.primitive b args) (.primitive b args')

/-- Cells that stand for each other. -/
inductive Cell.Twin (U : Code → Code → Prop) (D : Cell → Cell → Prop) (ρ : Nat → Nat → Prop) :
    Cell → Cell → Prop where
  | suspended {live : Live} {code code' : Code} {env env' : Env} (hcode : code.Twin U D live code')
      (henv : Shared ρ live env env') : Twin U D ρ (.suspended code env) (.suspended code' env')
  | application {f f' x x' : Nat} (hf : ρ f f') (hx : ρ x x') :
      Twin U D ρ (.application f x) (.application f' x')
  | underEvaluation : Twin U D ρ .underEvaluation .underEvaluation
  | value {v v' : Value} (hv : v.Twin U D ρ v') : Twin U D ρ (.value v) (.value v')
  | swapped {c c' : Cell} (hc : D c c') : Twin U D ρ c c'

/-- Waiting work that is the same but for code and cells. -/
inductive Frame.Twin (U : Code → Code → Prop) (D : Cell → Cell → Prop) (ρ : Nat → Nat → Prop) :
    Frame → Frame → Prop where
  | apply {a a' : Nat} (ha : ρ a a') : Twin U D ρ (.apply a) (.apply a')
  | update {a a' : Nat} (ha : ρ a a') : Twin U D ρ (.update a) (.update a')
  | strict (b : Builtin) {vs vs' : List Value} {xs xs' : List Nat}
      (hvs : List.Forall₂ (Value.Twin U D ρ) vs vs') (hxs : List.Forall₂ ρ xs xs') :
      Twin U D ρ (.strict b vs xs) (.strict b vs' xs')

theorem Value.Twin.mono (hle : ∀ a a', ρ a a' → σ a a') {v v' : Value} (h : v.Twin U D ρ v') :
    v.Twin U D σ v' := by
  cases h with
  | number n => exact .number n
  | string s => exact .string s
  | closure hbody henv => exact .closure hbody (henv.mono hle)
  | primitive b hargs => exact .primitive b (hargs.imp hle)

theorem Cell.Twin.mono (hle : ∀ a a', ρ a a' → σ a a') {c c' : Cell} (h : c.Twin U D ρ c') :
    c.Twin U D σ c' := by
  cases h with
  | suspended hcode henv => exact .suspended hcode (henv.mono hle)
  | application hf hx => exact .application (hle _ _ hf) (hle _ _ hx)
  | underEvaluation => exact .underEvaluation
  | value hv => exact .value (hv.mono hle)
  | swapped hc => exact .swapped hc

theorem Frame.Twin.mono (hle : ∀ a a', ρ a a' → σ a a') {f f' : Frame} (h : f.Twin U D ρ f') :
    f.Twin U D σ f' := by
  cases h with
  | apply ha => exact .apply (hle _ _ ha)
  | update ha => exact .update (hle _ _ ha)
  | strict b hvs hxs => exact .strict b (hvs.imp fun _ _ => Value.Twin.mono hle) (hxs.imp hle)

/-- Twins look the same to a strict primitive. -/
theorem Value.Twin.face {v v' : Value} (h : v.Twin U D ρ v') : v.face = v'.face := by
  cases h <;> rfl

/-- What is made of neither code nor cells is its own twin. -/
theorem Value.twin_of_isGround {v : Value} (h : v.isGround = true) : v.Twin U D ρ v := by
  cases v with
  | number n => exact .number n
  | string s => exact .string s
  | closure body env => cases h
  | primitive b args =>
    cases args with
    | nil => exact .primitive b .nil
    | cons a args => cases h

/-! ## 3. Memory -/

/-- Cells that stand for each other are twins, and each has one partner at most. -/
structure Paired (U : Code → Code → Prop) (D : Cell → Cell → Prop) (ρ : Nat → Nat → Prop)
    (h h' : Heap) : Prop where
  cells : ∀ a a', ρ a a' → ∃ c c', h[a]? = some c ∧ h'[a']? = some c' ∧ c.Twin U D ρ c'
  right : ∀ a b b', ρ a b → ρ a b' → b = b'
  left : ∀ a a' b, ρ a b → ρ a' b → a = a'

/-- `k` cells from `n` on and as many from `n'` on stand for each other too. -/
def grown (ρ : Nat → Nat → Prop) (n n' k : Nat) (a a' : Nat) : Prop :=
  ρ a a' ∨ ∃ i < k, a = n + i ∧ a' = n' + i

theorem grown_old {n n' k : Nat} (a a' : Nat) (h : ρ a a') : grown ρ n n' k a a' := .inl h

theorem grown_new {n n' k : Nat} (i : Nat) (hi : i < k) : grown ρ n n' k (n + i) (n' + i) :=
  .inr ⟨i, hi, rfl, rfl⟩

section Memory

variable {h h' : Heap}

theorem Paired.lt (hpair : Paired U D ρ h h') {a a' : Nat} (ha : ρ a a') :
    a < h.size ∧ a' < h'.size := by
  obtain ⟨c, c', hc, hc', _⟩ := hpair.cells a a' ha
  exact ⟨(Array.getElem?_eq_some_iff.mp hc).1, (Array.getElem?_eq_some_iff.mp hc').1⟩

/-- **New cells that are twins** of each other. -/
theorem Paired.extend (hpair : Paired U D ρ h h') {cells cells' : List Cell}
    (hcells : List.Forall₂ (Cell.Twin U D (grown ρ h.size h'.size cells.length)) cells cells') :
    Paired U D (grown ρ h.size h'.size cells.length) (h.extend cells) (h'.extend cells') := by
  refine ⟨fun a a' ha => ?_, fun a b b' hb hb' => ?_, fun a a' b ha ha' => ?_⟩
  · rcases ha with ha | ⟨i, hi, rfl, rfl⟩
    · obtain ⟨c, c', hc, hc', htwin⟩ := hpair.cells a a' ha
      obtain ⟨hlt, hlt'⟩ := hpair.lt ha
      refine ⟨c, c', ?_, ?_, htwin.mono grown_old⟩
      · rw [Heap.getElem?_extend, if_pos hlt, hc]
      · rw [Heap.getElem?_extend, if_pos hlt', hc']
    · have hi' : i < cells'.length := hcells.length_eq ▸ hi
      refine ⟨cells[i], cells'[i], ?_, ?_, hcells.get hi hi'⟩
      · rw [Heap.getElem?_extend, if_neg (by omega), Nat.add_sub_cancel_left,
          List.getElem?_eq_getElem]
      · rw [Heap.getElem?_extend, if_neg (by omega), Nat.add_sub_cancel_left,
          List.getElem?_eq_getElem]
  · rcases hb with hb | ⟨i, _, rfl, rfl⟩
    · have hlt := (hpair.lt hb).1
      rcases hb' with hb' | ⟨j, _, hj, _⟩
      · exact hpair.right a b b' hb hb'
      · omega
    · rcases hb' with hb' | ⟨j, _, hj, rfl⟩
      · have hlt := (hpair.lt hb').1
        omega
      · omega
  · rcases ha with ha | ⟨i, _, rfl, rfl⟩
    · have hlt := (hpair.lt ha).2
      rcases ha' with ha' | ⟨j, _, _, hj⟩
      · exact hpair.left a a' b ha ha'
      · omega
    · rcases ha' with ha' | ⟨j, _, rfl, hj⟩
      · have hlt := (hpair.lt ha').2
        omega
      · omega

/-- New cells that stand for nothing. -/
theorem Paired.unrelated (hpair : Paired U D ρ h h') (cells cells' : List Cell) :
    Paired U D ρ (h.extend cells) (h'.extend cells') := by
  refine ⟨fun a a' ha => ?_, hpair.right, hpair.left⟩
  obtain ⟨c, c', hc, hc', htwin⟩ := hpair.cells a a' ha
  obtain ⟨hlt, hlt'⟩ := hpair.lt ha
  refine ⟨c, c', ?_, ?_, htwin⟩
  · rw [Heap.getElem?_extend, if_pos hlt, hc]
  · rw [Heap.getElem?_extend, if_pos hlt', hc']

/-- **Both cells of a pair are written.** -/
theorem Paired.write (hpair : Paired U D ρ h h') {b b' : Nat} (hb : ρ b b') {d d' : Cell}
    (hd : d.Twin U D ρ d') : Paired U D ρ (h.write b d) (h'.write b' d') := by
  refine ⟨fun a a' ha => ?_, hpair.right, hpair.left⟩
  obtain ⟨hlt, hlt'⟩ := hpair.lt hb
  by_cases hab : a = b
  · subst hab
    obtain rfl := hpair.right a a' b' ha hb
    refine ⟨d, d', ?_, ?_, hd⟩
    · rw [Heap.getElem?_write, if_pos ⟨rfl, hlt⟩]
    · rw [Heap.getElem?_write, if_pos ⟨rfl, hlt'⟩]
  · have hab' : a' ≠ b' := by
      intro he
      subst he
      exact hab (hpair.left a b a' ha hb)
    obtain ⟨c, c', hc, hc', htwin⟩ := hpair.cells a a' ha
    refine ⟨c, c', ?_, ?_, htwin⟩
    · rw [Heap.getElem?_write, if_neg fun he => hab he.1, hc]
    · rw [Heap.getElem?_write, if_neg fun he => hab' he.1, hc']

end Memory

/-! ## 4. The parts of a step -/

/-- **Arguments that are twins take cells that are twins.** -/
theorem argument?_twin {live : Live} {x x' : Code} {env env' : Env} (hx : x.Twin U D live x')
    (henv : Shared ρ live env env') (n n' : Nat) :
    ∃ cells cells' a a', argument? x env n = .ok (cells, a) ∧
      argument? x' env' n' = .ok (cells', a') ∧
      List.Forall₂ (Cell.Twin U D (grown ρ n n' cells.length)) cells cells' ∧
      grown ρ n n' cells.length a a' := by
  -- one new cell on each side
  have one {c c' : Cell} (hc : c.Twin U D (grown ρ n n' 1) c') :
      List.Forall₂ (Cell.Twin U D (grown ρ n n' 1)) [c] [c'] ∧ grown ρ n n' 1 n n' :=
    ⟨.cons hc .nil, grown_new 0 Nat.one_pos⟩
  have henv₁ : Shared (grown ρ n n' 1) live env env' := henv.mono grown_old
  cases hx with
  | number _ m => exact ⟨_, _, n, n', rfl, rfl, one (.value (.number m))⟩
  | string _ s => exact ⟨_, _, n, n', rfl, rfl, one (.value (.string s))⟩
  | builtin _ b => exact ⟨_, _, n, n', rfl, rfl, one (.value (.primitive b .nil))⟩
  | var hi =>
    obtain ⟨a, a', ha, ha', hρ⟩ := henv _ hi
    exact ⟨[], [], a, a', by simp [argument?, ha], by simp [argument?, ha'], .nil, .inl hρ⟩
  | lambda hbody => exact ⟨_, _, n, n', rfl, rfl, one (.value (.closure hbody henv₁))⟩
  | apply hf hx => exact ⟨_, _, n, n', rfl, rfl, one (.suspended (.apply hf hx) henv₁)⟩
  | unused hbody hx => exact ⟨_, _, n, n', rfl, rfl, one (.suspended (.unused hbody hx) henv₁)⟩
  | swapped hf hx => exact ⟨_, _, n, n', rfl, rfl, one (.suspended (.swapped hf hx) henv₁)⟩

/-- What combinators come to, the same but for cells. -/
inductive Handover.Twin (U : Code → Code → Prop) (D : Cell → Cell → Prop) (ρ : Nat → Nat → Prop) :
    Handover → Handover → Prop where
  | call {f f' : Nat} {xs xs' : List Nat} (hf : ρ f f') (hxs : List.Forall₂ ρ xs xs') :
      Twin U D ρ (.call f xs) (.call f' xs')
  | result {v v' : Value} (hv : v.Twin U D ρ v') : Twin U D ρ (.result v) (.result v')

/-- **A combinator does the same with cells that stand for each other.** -/
theorem handover?_twin {args args' : List Nat} (hargs : List.Forall₂ ρ args args') (b : Builtin)
    (n n' : Nat) :
    (handover? b args n = none ∧ handover? b args' n' = none) ∨
    ∃ cells cells' o o', handover? b args n = some (cells, o) ∧
      handover? b args' n' = some (cells', o') ∧
      List.Forall₂ (Cell.Twin U D (grown ρ n n' cells.length)) cells cells' ∧
      o.Twin U D (grown ρ n n' cells.length) o' := by
  cases ho : handover? b args n with
  | none =>
    have hsome := handover?_isSome b n n' hargs.length_eq
    rw [ho, Option.isSome_none, eq_comm, Option.isSome_eq_false_iff,
      Option.isNone_iff_eq_none] at hsome
    exact .inl ⟨rfl, hsome⟩
  | some r =>
    obtain ⟨cells, o⟩ := r
    refine .inr ?_
    unfold handover? at ho
    split at ho <;> cases ho
    -- row by row: an argument is an old cell, every other number is that of a new one
    all_goals
      rcases hargs with _ | ⟨h₁, _ | ⟨h₂, _ | ⟨h₃, _ | ⟨h₄, _ | _⟩⟩⟩⟩
      refine ⟨_, _, _, _, rfl, rfl, ?_, ?_⟩
      all_goals
        repeat' first
          | exact grown_old _ _ ‹_›
          | exact grown_new 0 (by simp)
          | exact grown_new _ (by simp)
          | constructor

/-- **A strict primitive does the same with values that are twins.** -/
theorem strictEffect_twin {vs vs' : List Value} (hvs : List.Forall₂ (Value.Twin U D ρ) vs vs')
    (b : Builtin) (p : Printed) : strictEffect b vs p = strictEffect b vs' p := by
  have hfaces : vs.map Value.face = vs'.map Value.face := by
    induction hvs with
    | nil => rfl
    | cons hv _ ih => rw [List.map_cons, List.map_cons, hv.face, ih]
  rw [← strictEffect_face, hfaces, strictEffect_face]

end Twins

end CallByNeed
