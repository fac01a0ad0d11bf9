/-
  File:      CallByNeed/Proofs/Injection.lean
  Subject:   A fragment takes the place of the innermost body of a chain of definitions.

  A tree is a chain of definitions around a tree that is no definition, in one way only. Injection
  keeps the chain and puts the fragment at its end. The definitions of a prelude are the front part
  of the chain of whatever is read under them.

  * `Let`, `around` -- a definition without its body, and a chain of them around a tree;
  * `exists_chain`, `chain_unique` -- every tree is one chain around what is no definition;
  * `inject_around`, `inject_of_not_definition` -- what injection does with a chain;
  * `Nests.chain`, `parse_chain` -- a program under its prelude is a chain around the program;
  * `nodes_around` -- what stands at the end of a chain stands under its parameters;
  * `inject_keeps_chain` -- all of it.
-/
import CallByNeed.Proofs.Checking

namespace CallByNeed

/-! ## 1. Chains of definitions -/

/-- A definition without its body. -/
inductive Let where
  /-- `(\x. □) value` -/
  | applied (p q : Pos) (x : String) (value : Expr)
  /-- `((=:) value) (\x. □)` -/
  | defined (p q r s : Pos) (x : String) (value : Expr)
  deriving DecidableEq, Repr

namespace Let

/-- The definition with its body. -/
def around : Let → Expr → Expr
  | .applied p q x value, body => .apply p (.lambda q x body) value
  | .defined p q r s x value, body =>
    .apply p (.apply q (.name r Expr.defineOperator) value) (.lambda s x body)

/-- The name that is defined. -/
def param : Let → String
  | .applied _ _ x _ | .defined _ _ _ _ x _ => x

/-- The two forms do not overlap: a tree is a definition in one way at most. -/
theorem around_inj {l l' : Let} {body body' : Expr}
    (h : l.around body = l'.around body') : l = l' ∧ body = body' := by
  cases l with
  | applied p q x value =>
    cases l' with
    | applied =>
      cases h
      exact ⟨rfl, rfl⟩
    | defined => cases h
  | defined p q r s x value =>
    cases l' with
    | applied => cases h
    | defined =>
      cases h
      exact ⟨rfl, rfl⟩

end Let

/-- A chain of definitions, outermost first, around a tree. -/
def around (lets : List Let) (e : Expr) : Expr := lets.foldr Let.around e

theorem around_append (lets lets' : List Let) (e : Expr) :
    around (lets ++ lets') e = around lets (around lets' e) :=
  List.foldr_append

/-- The tree is a definition with its body. -/
def Expr.IsDefinition (e : Expr) : Prop := ∃ l body, e = Let.around l body

/-- Every tree is a chain around a tree that is no definition. -/
theorem exists_chain (p : Expr) : ∃ lets u, p = around lets u ∧ ¬ u.IsDefinition := by
  by_cases h : p.IsDefinition
  · obtain ⟨l, body, hp⟩ := h
    have hsize : body.size < p.size := by
      rw [hp]
      cases l <;> simp only [Let.around, Expr.size] <;> omega
    obtain ⟨lets, u, hbody, hu⟩ := exists_chain body
    refine ⟨l :: lets, u, ?_, hu⟩
    rw [hp, hbody]
    rfl
  · exact ⟨[], p, rfl, h⟩
termination_by p.size

/-- There is one such chain. -/
theorem chain_unique {lets lets' : List Let} {u u' : Expr}
    (h : around lets u = around lets' u') (hu : ¬ u.IsDefinition) (hu' : ¬ u'.IsDefinition) :
    lets = lets' ∧ u = u' := by
  induction lets generalizing lets' with
  | nil =>
    cases lets' with
    | nil => exact ⟨rfl, h⟩
    | cons l' lets' => exact absurd ⟨l', _, h⟩ hu
  | cons l lets ih =>
    cases lets' with
    | nil => exact absurd ⟨l, _, h.symm⟩ hu'
    | cons l' lets' =>
      obtain ⟨rfl, hrest⟩ := Let.around_inj h
      obtain ⟨rfl, rfl⟩ := ih hrest
      exact ⟨rfl, rfl⟩

/-! ## 2. What injection does with a chain -/

theorem Let.inject_around (l : Let) (body f : Expr) :
    (l.around body).inject f = l.around (body.inject f) := by
  cases l with
  | applied p q x value => rfl
  | defined p q r s x value => simp only [Let.around, Expr.inject, if_pos]

/-- Injection goes through a chain. -/
theorem inject_around (lets : List Let) (u f : Expr) :
    (around lets u).inject f = around lets (u.inject f) := by
  induction lets with
  | nil => rfl
  | cons l lets ih =>
    show (l.around (around lets u)).inject f = l.around (around lets (u.inject f))
    rw [l.inject_around, ih]

/-- What is no definition is replaced. -/
theorem inject_of_not_definition {p : Expr} (h : ¬ p.IsDefinition) (f : Expr) : p.inject f = f := by
  unfold Expr.inject
  split
  · rename_i p q x body value
    exact absurd ⟨.applied p q x value, body, rfl⟩ h
  · rename_i p q r op value s x body
    split
    · rename_i hop
      subst hop
      exact absurd ⟨.defined p q r s x value, body, rfl⟩ h
    · rfl
  · rfl

/-- Two injections, one after the other. -/
theorem inject_assoc (p f g : Expr) : (p.inject f).inject g = p.inject (f.inject g) := by
  obtain ⟨lets, u, rfl, hu⟩ := exists_chain p
  calc ((around lets u).inject f).inject g
      = (around lets f).inject g := by rw [inject_around, inject_of_not_definition hu]
    _ = around lets (f.inject g) := inject_around lets f g
    _ = (around lets u).inject (f.inject g) := by rw [inject_around, inject_of_not_definition hu]

/-! ## 3. Preludes -/

/-- **A program under its definitions is a chain around the program**, the same chain whatever the
    program is, and the chain binds the definitions' names. -/
theorem Nests.chain {source : Source} {defs : List Definition} {u e : Expr}
    (h : Nests source defs u e) :
    ∃ lets, e = around lets u ∧ (∀ v, Nests source defs v (around lets v)) ∧
      ∀ d ∈ defs, ∃ l ∈ lets, d.name = Expr.nameText l.param := by
  induction h with
  | program u => exact ⟨[], rfl, fun v => .program v, nofun⟩
  | definition hd hinner hbody hp hq hb ih =>
    rename_i d ds x u e b b' p q
    obtain ⟨lets, rfl, hnests, hnames⟩ := ih
    refine ⟨.applied p q x b' :: lets, rfl, fun v => .definition hd (hnests v) hbody hp hq hb, ?_⟩
    intro d' hd'
    rcases List.mem_cons.mp hd' with rfl | hd'
    · exact ⟨_, List.mem_cons_self, hd.name⟩
    · obtain ⟨l, hl, hname⟩ := hnames d' hd'
      exact ⟨l, List.mem_cons_of_mem _ hl, hname⟩

/-- What is read under definitions is a program under them: the one that is read without them, if
    there is one. -/
theorem parse_chain {source : Source} {defs : List Definition} {depth : Nat} {e : Expr}
    (hdefs : ∀ d ∈ defs, d.Proper) (h : parse source defs depth = .ok e) :
    ∃ u, Nests source defs u e ∧ ∀ u', parse source [] depth = .ok u' → u' = u := by
  by_cases hne : defs = []
  · subst hne
    refine ⟨e, .program e, fun u' hu' => ?_⟩
    cases h.symm.trans hu'
    rfl
  have hbal : Balanced 0 (blankText source.chars) := by
    by_contra hbal
    obtain ⟨⟨fault, _, _, herror⟩, _⟩ :=
      (parse_unbalanced hne hbal : _ ∧ ∃ e, parse source [] depth = .error e)
    cases h.symm.trans herror
  have hdeep : ¬ (parse source defs depth).TooDeep := by
    intro ⟨limit, p, hdeep⟩
    cases h.symm.trans hdeep
  rcases parse_wrapped hdefs hne hbal hdeep with ⟨op, e', hlone, hparse, hnests⟩ |
    ⟨u, e', hbare, _, hparse, hnests⟩ | ⟨e', f, _, _, _, hparse⟩
  · cases h.symm.trans hparse
    obtain ⟨fault, herror⟩ := parse_loneOperator hbal hlone depth
    refine ⟨_, hnests, fun u' hu' => ?_⟩
    cases hu'.symm.trans herror
  · cases h.symm.trans hparse
    refine ⟨u, hnests, fun u' hu' => ?_⟩
    cases hu'.symm.trans hbare
    rfl
  · cases h.symm.trans hparse

/-! ## 4. What the fragment sees -/

theorem Let.nodes_around (l : Let) (body : Expr) (params : List String) :
    body.nodes (l.param :: params) <:+: (l.around body).nodes params := by
  cases l with
  | applied p q x value =>
    exact ⟨[(params, _), (params, _)], value.nodes params, rfl⟩
  | defined p q r s x value =>
    have hbody := List.suffix_cons (params, .lambda s x body) (body.nodes (x :: params))
    exact (hbody.trans ((List.suffix_append _ _).trans (List.suffix_cons _ _))).isInfix

/-- **At the end of a chain all its parameters are in scope.** -/
theorem nodes_around (lets : List Let) (e : Expr) (params : List String) :
    e.nodes ((lets.map Let.param).reverse ++ params) <:+: (around lets e).nodes params := by
  induction lets generalizing params with
  | nil => exact List.infix_refl _
  | cons l lets ih =>
    have hinner := ih (l.param :: params)
    rw [List.map_cons, List.reverse_cons, List.append_assoc]
    exact hinner.trans (l.nodes_around (around lets e) params)

/-! ## 5. Injection -/

/-- **Injection is associative, keeps the chain of definitions and leaves a prelude in place.**

    Every tree is one chain of definitions around a tree that is no definition; injection puts the
    fragment in its place and changes nothing else. A program under a prelude is a chain around the
    program, and the program may be any other: injecting into the whole is injecting into the
    program, and wherever the fragment comes to stand, the names of the prelude are in scope. -/
theorem inject_keeps_chain :
    (∀ p f g : Expr, (p.inject f).inject g = p.inject (f.inject g)) ∧
    (∀ p : Expr, ∃ lets u, p = around lets u ∧ ¬ u.IsDefinition ∧
      (∀ f, p.inject f = around lets f) ∧
      ∀ lets' u', p = around lets' u' → ¬ u'.IsDefinition → lets' = lets ∧ u' = u) ∧
    (∀ p f : Expr, ¬ p.IsDefinition → p.inject f = f) ∧
    (∀ source defs u e, Nests source defs u e →
      ∃ lets outer, e = around lets u ∧ (∀ v, Nests source defs v (around lets v)) ∧
        (∀ f, e.inject f = around lets (u.inject f)) ∧
        (∀ d ∈ defs, ∃ x ∈ outer, d.name = Expr.nameText x) ∧
        ∀ f, f.nodes outer <:+: (e.inject f).nodes []) ∧
    ∀ source defs depth e, (∀ d ∈ defs, d.Proper) → parse source defs depth = .ok e →
      ∃ u, Nests source defs u e ∧ (∀ u', parse source [] depth = .ok u' → u' = u) ∧
        ∀ f, Nests source defs (u.inject f) (e.inject f) := by
  refine ⟨inject_assoc, fun p => ?_, fun p f hp => inject_of_not_definition hp f,
    fun source defs u e hnests => ?_, fun source defs depth e hdefs hparse => ?_⟩
  · obtain ⟨lets, u, rfl, hu⟩ := exists_chain p
    refine ⟨lets, u, rfl, hu, fun f => ?_, fun lets' u' h hu' => chain_unique h.symm hu' hu⟩
    rw [inject_around, inject_of_not_definition hu]
  · obtain ⟨lets, rfl, hall, hnames⟩ := hnests.chain
    obtain ⟨inner, v, hv, hend⟩ := exists_chain u
    have hinject (f : Expr) : (around lets u).inject f = around (lets ++ inner) f := by
      rw [inject_around, hv, inject_around, inject_of_not_definition hend, around_append]
    refine ⟨lets, ((lets ++ inner).map Let.param).reverse, rfl, hall,
      inject_around lets u, fun d hd => ?_, fun f => ?_⟩
    · obtain ⟨l, hl, hname⟩ := hnames d hd
      refine ⟨l.param, List.mem_reverse.mpr (List.mem_map_of_mem ?_), hname⟩
      exact List.mem_append_left _ hl
    · have hnodes := nodes_around (lets ++ inner) f []
      rw [List.append_nil] at hnodes
      rw [hinject]
      exact hnodes
  · obtain ⟨u, hnests, hu⟩ := parse_chain hdefs hparse
    obtain ⟨lets, rfl, hall, _⟩ := hnests.chain
    refine ⟨u, hnests, hu, fun f => ?_⟩
    rw [inject_around]
    exact hall _

end CallByNeed
