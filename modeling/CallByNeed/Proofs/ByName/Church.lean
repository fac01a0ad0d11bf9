/-
  File:      CallByNeed/Proofs/ByName/Church.lean
  Subject:   Primitives and their encodings as lambda terms.

  A primitive collects its arguments and acts on all of them at once; the term that encodes it
  takes one argument after the other. While both collect, the term is a closure over the arguments
  of the primitive (`Meaning.EncodedBy.collecting`), and when the last argument has come both hand
  over to the same cell, or come to values that are encoded again (`encoded_fires`).

  * `Builtin.church`, `Code.encode` -- the terms, and code with each primitive replaced by its own;
  * `Builtin.church_under` -- a term has as many lambdas as its primitive collects arguments;
  * `Tree.EncodedBy`, `Meaning.EncodedBy`, `TreeState.EncodedBy` -- what stands for what while both
    programs run without memory.
-/
import CallByNeed.Proofs.ByName.Tree
import Mathlib.Data.List.Forall2

namespace CallByNeed

/-! ## 1. The terms -/

/-- The primitives that occur in code. -/
def Code.builtins : Code → List Builtin
  | .builtin b => [b]
  | .lambda body => body.builtins
  | .apply f x => f.builtins ++ x.builtins
  | .number _ | .string _ | .var _ => []

/-- Code that prints nothing. -/
def Code.PrintFree (c : Code) : Prop := .print ∉ c.builtins

instance (c : Code) : Decidable c.PrintFree := inferInstanceAs (Decidable (_ ∉ _))

/-- A function and its arguments. -/
def Code.call (f : Code) (args : List Code) : Code := args.foldl .apply f

namespace Church

/-- `\x.\y.x` -/
def yes : Code := .lambda (.lambda (.var 1))

/-- `\x.\y.y` -/
def no : Code := .lambda (.lambda (.var 0))

/-- `\f.\x.x` -/
def nil : Code := .lambda (.lambda (.var 0))

/-- `\x.\y.\f.f x y` -/
def pair : Code := .lambda (.lambda (.lambda (.call (.var 0) [.var 2, .var 1])))

/-- `\a.\l.\f.\x.f a (l f x)` -/
def append : Code :=
  .lambda (.lambda (.lambda (.lambda (.call (.var 1) [.var 3, .call (.var 2) [.var 1, .var 0]]))))

/-- `\a.\p.(\s.pair s (append a s)) (p false)` -/
def tailStep : Code :=
  .lambda (.lambda (.call
    (.lambda (.call pair [.var 0, .call append [.var 2, .var 0]]))
    [.call (.var 0) [no]]))

end Church

open Church in
/-- The term that encodes a primitive. A strict one has none and stays what it is. -/
def Builtin.church : Builtin → Code
  | true => yes
  | false => no
  | ite => .lambda (.lambda (.lambda (.call (.var 2) [.var 1, .var 0])))
  | not => .lambda (.call (.var 0) [no, yes])
  | and => .lambda (.lambda (.call (.var 1) [.var 0, no]))
  | or => .lambda (.lambda (.call (.var 1) [yes, .var 0]))
  | pair => Church.pair
  | first => .lambda (.call (.var 0) [yes])
  | second => .lambda (.call (.var 0) [no])
  | nil => Church.nil
  | append => Church.append
  | head => .lambda (.call (.var 0) [yes, .number 0])
  | isEmpty => .lambda (.call (.var 0) [.lambda (.lambda no), yes])
  | tail =>
    .lambda (.call (.var 0) [Church.tailStep, .call Church.pair [Church.nil, Church.nil], yes])
  | tailStep => Church.tailStep
  | b => .builtin b

/-- Code with every primitive replaced by its term. -/
def Code.encode : Code → Code
  | .builtin b => b.church
  | .lambda body => .lambda body.encode
  | .apply f x => .apply f.encode x.encode
  | c => c

/-- Code under `n` lambdas. -/
def Code.under : Nat → Code → Code
  | 0, c => c
  | n + 1, c => .lambda (c.under n)

/-- **A term takes as many arguments as its primitive collects.** -/
theorem Builtin.church_under {b : Builtin} (hb : b.isStrict = Bool.false) :
    ∃ body : Code, b.church = body.under b.collects := by
  cases b <;> first | exact ⟨_, rfl⟩ | cases hb

theorem Builtin.church_strict {b : Builtin} (hb : b.isStrict = Bool.true) :
    b.church = .builtin b := by
  cases b <;> first | rfl | cases hb

/-! ## 2. What stands for what -/

/-- Primitives that occur where code is encoded: the strict ones, and the truth values that these
    come to. -/
def Builtin.isKept : Builtin → Bool
  | print => Bool.false
  | true | false => Bool.true
  | b => b.isStrict

mutual

/-- A cell, and the cell in its place when the code is encoded. -/
inductive Tree.EncodedBy : Tree → Tree → Prop where
  | suspended {code : Code} {env env' : List Tree} (hcode : code.PrintFree)
      (henv : List.Forall₂ Tree.EncodedBy env env') :
      Tree.EncodedBy (.suspended code env) (.suspended code.encode env')
  /-- The value is there already, or it is still to be worked out from the term. -/
  | ready {v w : Meaning} {u : Tree} {n : Nat}
      (hu : treeMachine.Steps (n + 1) ⟨.force u, []⟩ ⟨.give w, []⟩) (hv : Meaning.EncodedBy v w) :
      Tree.EncodedBy (.ready v) u
  /-- Both come to the application of a cell to cells. -/
  | deferred {t u f g : Tree} {xs ys : List Tree} {m n : Nat}
      (ht : treeMachine.Steps (m + 1) ⟨.force t, []⟩ ⟨.force f, xs.map .apply⟩)
      (hu : treeMachine.Steps (n + 1) ⟨.force u, []⟩ ⟨.force g, ys.map .apply⟩)
      (hf : Tree.EncodedBy f g) (hxs : List.Forall₂ Tree.EncodedBy xs ys) : Tree.EncodedBy t u

/-- A value, and the value in its place when the code is encoded. -/
inductive Meaning.EncodedBy : Meaning → Meaning → Prop where
  | number (n : Int64) : Meaning.EncodedBy (.number n) (.number n)
  | string (s : String) : Meaning.EncodedBy (.string s) (.string s)
  | closure {code : Code} {env env' : List Tree} (hcode : code.PrintFree)
      (henv : List.Forall₂ Tree.EncodedBy env env') :
      Meaning.EncodedBy (.closure code env) (.closure code.encode env')
  | kept {b : Builtin} {args args' : List Tree} (hb : b.isKept = true)
      (hargs : List.Forall₂ Tree.EncodedBy args args') (hlen : args.length < b.collects) :
      Meaning.EncodedBy (.primitive b args) (.primitive b args')
  /-- The term waits for the same arguments. Its own variables are the innermost ones. -/
  | collecting {b : Builtin} {body : Code} {args args' env rest : List Tree} {n : Nat}
      (hb : b.church = body.under b.collects) (hargs : List.Forall₂ Tree.EncodedBy args args')
      (hn : args.length + (n + 1) = b.collects) (henv : env = args'.reverse ++ rest) :
      Meaning.EncodedBy (.primitive b args) (.closure (body.under n) env)
  /-- What `isEmpty` folds with: `true (true false)` for `\a.\r.false`, -/
  | ignoresTwo (env : List Tree) :
      Meaning.EncodedBy
        (.primitive .true [.ready (.primitive .true [.ready (.primitive .false [])])])
        (.closure (.lambda Church.no) env)
  /-- and what is left of it after one argument. -/
  | ignoresOne (env : List Tree) :
      Meaning.EncodedBy (.primitive .true [.ready (.primitive .false [])]) (.closure Church.no env)

end

/-- What the machine does next, in both programs. -/
inductive TreeFocus.EncodedBy : TreeFocus → TreeFocus → Prop where
  | eval {code : Code} {env env' : List Tree} (hcode : code.PrintFree)
      (henv : List.Forall₂ Tree.EncodedBy env env') :
      TreeFocus.EncodedBy (.eval code env) (.eval code.encode env')
  | force {t u : Tree} (ht : t.EncodedBy u) : TreeFocus.EncodedBy (.force t) (.force u)
  | give {v w : Meaning} (hv : v.EncodedBy w) : TreeFocus.EncodedBy (.give v) (.give w)

/-- Waiting work, in both programs. -/
inductive TreeFrame.EncodedBy : TreeFrame → TreeFrame → Prop where
  | apply {t u : Tree} (ht : t.EncodedBy u) : TreeFrame.EncodedBy (.apply t) (.apply u)
  | strict {b : Builtin} {vs ws : List Meaning} {ts us : List Tree} (hb : b ≠ .print)
      (hvs : List.Forall₂ Meaning.EncodedBy vs ws) (hts : List.Forall₂ Tree.EncodedBy ts us) :
      TreeFrame.EncodedBy (.strict b vs ts) (.strict b ws us)

/-- A state of the program, and the state of the encoded program at that moment. -/
structure TreeState.EncodedBy (s t : TreeState) : Prop where
  focus : s.focus.EncodedBy t.focus
  frames : List.Forall₂ TreeFrame.EncodedBy s.frames t.frames

theorem TreeState.EncodedBy.onto {s t : TreeState} (h : s.EncodedBy t) {fs gs : List TreeFrame}
    (hfs : List.Forall₂ TreeFrame.EncodedBy fs gs) : (s.onto fs).EncodedBy (t.onto gs) :=
  ⟨h.focus, List.rel_append h.frames hfs⟩

theorem Tree.EncodedBy.value {v w : Meaning} (h : v.EncodedBy w) :
    Tree.EncodedBy (.ready v) (.ready w) :=
  .ready (.single rfl) h

/-- A primitive that has got no argument yet. -/
theorem Meaning.EncodedBy.unapplied {b : Builtin} {body : Code} {n : Nat}
    (hb : b.church = body.under b.collects) (hn : n + 1 = b.collects) (env : List Tree) :
    Meaning.EncodedBy (.primitive b []) (.closure (body.under n) env) :=
  .collecting hb .nil (by simpa using hn) rfl

/-- A primitive that has got two arguments. -/
theorem Meaning.EncodedBy.two {b : Builtin} {body : Code} {t t' u u' : Tree} {n : Nat}
    (hb : b.church = body.under b.collects) (hn : n + 3 = b.collects) (ht : t.EncodedBy t')
    (hu : u.EncodedBy u') (env : List Tree) :
    Meaning.EncodedBy (.primitive b [t, u]) (.closure (body.under n) (u' :: t' :: env)) :=
  .collecting hb (.cons ht (.cons hu .nil)) (by simp only [List.length_cons]; simp; omega) rfl

/-- A term takes two arguments and waits for more. -/
theorem steps_two {b : Builtin} {body x y : Code} {env : List Tree} {t u : Tree} {n : Nat}
    (hb : b.church = body.under b.collects) (hn : n + 3 = b.collects)
    (hx : argumentTree env x = .ok t) (hy : argumentTree env y = .ok u) :
    treeMachine.Steps 7 ⟨.eval (.call b.church [x, y]) env, []⟩
      ⟨.give (.closure (body.under n) (u :: t :: env)), []⟩ := by
  have hnext₁ : treeMachine.next ⟨.eval (.call b.church [x, y]) env, []⟩ =
      .inl ⟨.eval (.apply b.church x) env, [.apply u]⟩ := by
    simp [treeMachine, Code.call, evalTree, hy, resume, TreeState.onto]
  have hnext₂ : treeMachine.next ⟨.eval (.apply b.church x) env, [.apply u]⟩ =
      .inl ⟨.eval b.church env, [.apply t, .apply u]⟩ := by
    simp [treeMachine, evalTree, hx, resume, TreeState.onto]
  refine .head hnext₁ (.head hnext₂ ?_)
  rw [hb, ← hn]
  exact .head rfl (.head rfl (.head rfl (.head rfl (.single rfl))))

/-- A primitive with two arguments, and the suspended application of its term to them. -/
theorem Tree.EncodedBy.two {b : Builtin} {body x y : Code} {env : List Tree} {t t' u u' : Tree}
    {n : Nat} (hb : b.church = body.under b.collects) (hn : n + 3 = b.collects)
    (hx : argumentTree env x = .ok t') (hy : argumentTree env y = .ok u') (ht : t.EncodedBy t')
    (hu : u.EncodedBy u') :
    Tree.EncodedBy (.ready (.primitive b [t, u])) (.suspended (.call b.church [x, y]) env) :=
  .ready (.head rfl (steps_two hb hn hx hy)) (.two hb hn ht hu env)

/-! ## 3. Primitives that have all of their arguments -/

/-- Two states that come to states of the same moment. -/
def Meets (s t : TreeState) : Prop :=
  ∃ k m s' t', treeMachine.Steps k s s' ∧ treeMachine.Steps m t t' ∧ s'.EncodedBy t'

/-- A combinator on these arguments, and the body of its term, meet. -/
def Fires (b : Builtin) (args : List Tree) (body : Code) (env : List Tree) : Prop :=
  ∃ s, handoverTree b args = some s ∧ Meets s ⟨.eval body env, []⟩

/-- Both force a cell under frames that apply its value. -/
theorem Meets.call {s t : TreeState} {f g : Tree} {fs gs : List TreeFrame} {k m : Nat}
    (hs : treeMachine.Steps k s ⟨.force f, fs⟩) (ht : treeMachine.Steps m t ⟨.force g, gs⟩)
    (hf : f.EncodedBy g) (hfs : List.Forall₂ TreeFrame.EncodedBy fs gs) : Meets s t :=
  ⟨k, m, _, _, hs, ht, .force hf, hfs⟩

/-- `true` as an argument, under any environment. -/
theorem yes_encodedBy (env : List Tree) :
    Tree.EncodedBy (.ready (.primitive .true [])) (.ready (.closure (.lambda (.var 1)) env)) :=
  .value (.unapplied (b := .true) (n := 1) rfl rfl env)

theorem no_encodedBy (env : List Tree) :
    Tree.EncodedBy (.ready (.primitive .false [])) (.ready (.closure (.lambda (.var 0)) env)) :=
  .value (.unapplied (b := .false) (n := 1) rfl rfl env)

theorem nil_encodedBy (env : List Tree) :
    Tree.EncodedBy (.ready (.primitive .nil [])) (.ready (.closure (.lambda (.var 0)) env)) :=
  .value (.unapplied (b := .nil) (n := 1) rfl rfl env)

/-- **A combinator that has all of its arguments and the body of its term hand over alike.** -/
theorem encoded_fires {b : Builtin} {body : Code} {args args' : List Tree}
    (hb : b.church = body.under b.collects) (hargs : List.Forall₂ Tree.EncodedBy args args')
    (hlen : args.length = b.collects) (rest : List Tree) :
    Fires b args body (args'.reverse ++ rest) := by
  cases b <;> cases hb
  case true =>
    match args, args', hargs, hlen with
    | [a, _], [_, _], .cons ha (.cons _ .nil), _ =>
      exact ⟨_, rfl, .call (.refl _) (.single rfl) ha .nil⟩
  case false =>
    match args, args', hargs, hlen with
    | [_, a], [_, _], .cons _ (.cons ha .nil), _ =>
      exact ⟨_, rfl, .call (.refl _) (.single rfl) ha .nil⟩
  case nil =>
    match args, args', hargs, hlen with
    | [_, a], [_, _], .cons _ (.cons ha .nil), _ =>
      exact ⟨_, rfl, .call (.refl _) (.single rfl) ha .nil⟩
  case ite =>
    match args, args', hargs, hlen with
    | [_, _, _], [_, _, _], .cons hc (.cons ht (.cons he .nil)), _ =>
      refine ⟨_, rfl, .call (.refl _) (.head rfl (.head rfl (.single rfl))) hc ?_⟩
      exact .cons (.apply ht) (.cons (.apply he) .nil)
  case not =>
    match args, args', hargs, hlen with
    | [_], [_], .cons hc .nil, _ =>
      refine ⟨_, rfl, .call (.refl _) (.head rfl (.head rfl (.single rfl))) hc ?_⟩
      exact .cons (.apply (no_encodedBy _)) (.cons (.apply (yes_encodedBy _)) .nil)
  case and =>
    match args, args', hargs, hlen with
    | [_, _], [_, _], .cons hc (.cons hd .nil), _ =>
      refine ⟨_, rfl, .call (.refl _) (.head rfl (.head rfl (.single rfl))) hc ?_⟩
      exact .cons (.apply hd) (.cons (.apply (no_encodedBy _)) .nil)
  case or =>
    match args, args', hargs, hlen with
    | [_, _], [_, _], .cons hc (.cons hd .nil), _ =>
      refine ⟨_, rfl, .call (.refl _) (.head rfl (.head rfl (.single rfl))) hc ?_⟩
      exact .cons (.apply (yes_encodedBy _)) (.cons (.apply hd) .nil)
  case pair =>
    match args, args', hargs, hlen with
    | [_, _, _], [_, _, _], .cons ha (.cons hb (.cons hf .nil)), _ =>
      refine ⟨_, rfl, .call (.refl _) (.head rfl (.head rfl (.single rfl))) hf ?_⟩
      exact .cons (.apply ha) (.cons (.apply hb) .nil)
  case first =>
    match args, args', hargs, hlen with
    | [_], [_], .cons hp .nil, _ =>
      refine ⟨_, rfl, .call (.refl _) (.head rfl (.single rfl)) hp ?_⟩
      exact .cons (.apply (yes_encodedBy _)) .nil
  case second =>
    match args, args', hargs, hlen with
    | [_], [_], .cons hp .nil, _ =>
      refine ⟨_, rfl, .call (.refl _) (.head rfl (.single rfl)) hp ?_⟩
      exact .cons (.apply (no_encodedBy _)) .nil
  case head =>
    match args, args', hargs, hlen with
    | [_], [_], .cons hl .nil, _ =>
      refine ⟨_, rfl, .call (.refl _) (.head rfl (.head rfl (.single rfl))) hl ?_⟩
      exact .cons (.apply (yes_encodedBy _)) (.cons (.apply (.value (.number 0))) .nil)
  case isEmpty =>
    match args, args', hargs, hlen with
    | [_], [_], .cons hl .nil, _ =>
      refine ⟨_, rfl, .call (.refl _) (.head rfl (.head rfl (.single rfl))) hl ?_⟩
      exact .cons (.apply (.value (.ignoresTwo _))) (.cons (.apply (yes_encodedBy _)) .nil)
  case append =>
    match args, args', hargs, hlen with
    | [_, _, _, _], [_, _, _, _], .cons ha (.cons hl (.cons hf (.cons hx .nil))), _ =>
      refine ⟨_, rfl, .call (.refl _) (.head rfl (.head rfl (.single rfl))) hf ?_⟩
      refine .cons (.apply ha) (.cons (.apply ?_) .nil)
      -- the rest of the fold is an application of cells here and suspended code there
      exact .deferred (.head rfl (.single rfl))
        (.head rfl (.head rfl (.head rfl (.single rfl)))) hl (.cons hf (.cons hx .nil))
  case tail =>
    match args, args', hargs, hlen with
    | [_], [_], .cons hl .nil, _ =>
      refine ⟨_, rfl, .call (.head rfl (.single rfl))
        (.head rfl (.head rfl (.head rfl (.single rfl)))) hl ?_⟩
      refine .cons (.apply ?_) (.cons (.apply ?_) (.cons (.apply (yes_encodedBy _)) .nil))
      · exact .value (.unapplied (b := .tailStep) (n := 1) rfl rfl _)
      · exact .two (n := 0) rfl rfl rfl rfl (nil_encodedBy _) (nil_encodedBy _)
  case tailStep =>
    match args, args', hargs, hlen with
    | [a, p], [a', p'], .cons ha (.cons hp .nil), _ =>
      have hlist : Tree.EncodedBy (.application p (.ready (.primitive .false [])))
          (.suspended (.call (.var 0) [Church.no]) (p' :: a' :: rest)) :=
        .deferred (.single rfl) (.head rfl (.head rfl (.single rfl))) hp
          (.cons (no_encodedBy _) .nil)
      refine ⟨_, rfl, 0, 10, _, _, .refl _, .head rfl (.head rfl (.head rfl
        (steps_two (b := .pair) (n := 0) rfl rfl rfl rfl))), ?_, .nil⟩
      exact .give (.two rfl rfl hlist (.two (n := 1) rfl rfl rfl rfl ha hlist) _)

end CallByNeed
