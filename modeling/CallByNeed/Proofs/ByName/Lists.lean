/-
  File:      CallByNeed/Proofs/ByName/Lists.lean
  Subject:   Lists in Church's encoding, without memory.

  A tree is a list if it folds like one: applied to `f` and `x`, the empty list comes to `x`, and a
  list with a first element to `f` with that element and the fold of the rest. The elements are only
  handed on. The fold behind `@tail` makes pairs of lists, whatever the list it folds is made of.

  * `listCode`, `tailsCode`, `headOf`, `emptyOf` -- the programs;
  * `Tree.Lists` -- the tree is a list of these trees; `Tree.Lists.of_steps`;
  * `Tree.Lists.folds` -- what the fold behind `@tail` comes to, for a list of any length;
  * `lists_tailsCode` -- a list without its first elements;
  * `headOf_steps`, `emptyOf_steps` -- the element, or the case, that is forced in the end.
-/
import CallByNeed.Proofs.ByName.Tree
import CallByNeed.Proofs.Machine.Scope

namespace CallByNeed

/-! ## 1. Programs with lists -/

/-- `@append a (@append b … @nil)` -/
def listCode : List Code → Code
  | [] => .builtin .nil
  | c :: cs => .apply (.apply (.builtin .append) c) (listCode cs)

/-- `@tail` applied to a list `k` times. -/
def tailsCode : Nat → List Code → Code
  | 0, cs => listCode cs
  | k + 1, cs => .apply (.builtin .tail) (tailsCode k cs)

/-- `@head` of a list without its first `k` elements. -/
def headOf (k : Nat) (cs : List Code) : Code := .apply (.builtin .head) (tailsCode k cs)

/-- `@isEmpty` of a list without its first `k` elements, applied to two cases. -/
def emptyOf (k : Nat) (cs : List Code) (y n : Code) : Code :=
  .apply (.apply (.apply (.builtin .isEmpty) (tailsCode k cs)) y) n

/-- The tree of closed code as an argument. -/
def Code.tree : Code → Tree
  | .number n => .ready (.number n)
  | .string s => .ready (.string s)
  | .builtin b => .ready (.primitive b [])
  | .lambda body => .ready (.closure body [])
  | .apply f x => .suspended (.apply f x) []
  | .var _ => default

theorem Code.InScope.argumentTree {c : Code} (h : c.InScope 0) :
    argumentTree [] c = .ok c.tree := by
  cases c with
  | var i => exact absurd h (Nat.not_lt_zero i)
  | _ => rfl

theorem listCode_inScope {cs : List Code} (h : ∀ c ∈ cs, c.InScope 0) :
    (listCode cs).InScope 0 := by
  induction cs with
  | nil => trivial
  | cons c cs ih =>
    exact ⟨⟨trivial, h c List.mem_cons_self⟩, ih fun d hd => h d (List.mem_cons_of_mem _ hd)⟩

theorem tailsCode_inScope {cs : List Code} (h : ∀ c ∈ cs, c.InScope 0) (k : Nat) :
    (tailsCode k cs).InScope 0 := by
  induction k with
  | zero => exact listCode_inScope h
  | succ k ih => exact ⟨trivial, ih⟩

theorem headOf_inScope {cs : List Code} (h : ∀ c ∈ cs, c.InScope 0) (k : Nat) :
    (headOf k cs).InScope 0 :=
  ⟨trivial, tailsCode_inScope h k⟩

theorem emptyOf_inScope {cs : List Code} (h : ∀ c ∈ cs, c.InScope 0) (k : Nat) {y n : Code}
    (hy : y.InScope 0) (hn : n.InScope 0) : (emptyOf k cs y n).InScope 0 :=
  ⟨⟨⟨trivial, tailsCode_inScope h k⟩, hy⟩, hn⟩

/-! ## 2. Trees that fold like lists -/

/-- A primitive without arguments, as a tree. -/
def Builtin.tree (b : Builtin) : Tree := .ready (.primitive b [])

/-- The tree is a list of these trees. -/
def Tree.Lists : Tree → List Tree → Prop
  | t, [] => ∀ f x, ∃ n, treeMachine.Steps n ⟨.force t, [.apply f, .apply x]⟩ ⟨.force x, []⟩
  | t, e :: es => ∃ rest, Tree.Lists rest es ∧ ∀ f x, ∃ n,
      treeMachine.Steps n ⟨.force t, [.apply f, .apply x]⟩
        ⟨.force f, [.apply e, .apply (.application (.application rest f) x)]⟩

/-- What comes to a list, whatever it is applied to, is that list. -/
theorem Tree.Lists.of_steps {t u : Tree} {es : List Tree} (h : u.Lists es)
    (ht : ∀ fs, ∃ n, treeMachine.Steps n ⟨.force t, fs⟩ ⟨.force u, fs⟩) : t.Lists es := by
  cases es with
  | nil =>
    intro f x
    obtain ⟨n, hn⟩ := ht [.apply f, .apply x]
    obtain ⟨m, hm⟩ := h f x
    exact ⟨n + m, hn.trans hm⟩
  | cons e es =>
    obtain ⟨rest, hrest, hu⟩ := h
    refine ⟨rest, hrest, fun f x => ?_⟩
    obtain ⟨n, hn⟩ := ht [.apply f, .apply x]
    obtain ⟨m, hm⟩ := hu f x
    exact ⟨n + m, hn.trans hm⟩

theorem lists_nil : Builtin.nil.tree.Lists [] :=
  fun _ _ => ⟨3, .head rfl (.head rfl (.single rfl))⟩

theorem Tree.Lists.append {t : Tree} {es : List Tree} (h : t.Lists es) (e : Tree) :
    Tree.Lists (.ready (.primitive .append [e, t])) (e :: es) :=
  ⟨t, h, fun _ _ => ⟨3, .head rfl (.head rfl (.single rfl))⟩⟩

/-- The fold behind `@tail`, of a tree. -/
def Tree.folded (t : Tree) : Tree :=
  .application (.application t Builtin.tailStep.tree)
    (.ready (.primitive .pair [Builtin.nil.tree, Builtin.nil.tree]))

/-- **The fold behind `@tail` comes to a pair** of the list without its first element and the list
    itself, which it hands to whatever it is applied to. -/
theorem Tree.Lists.folds {t : Tree} {es : List Tree} (h : t.Lists es) :
    ∃ tail all, Tree.Lists tail es.tail ∧ Tree.Lists all es ∧ ∀ s fs, ∃ n,
      treeMachine.Steps n ⟨.force t.folded, .apply s :: fs⟩
        ⟨.force s, .apply tail :: .apply all :: fs⟩ := by
  induction es generalizing t with
  | nil =>
    refine ⟨Builtin.nil.tree, Builtin.nil.tree, lists_nil, lists_nil, fun s fs => ?_⟩
    obtain ⟨n, hn⟩ := h Builtin.tailStep.tree
      (.ready (.primitive .pair [Builtin.nil.tree, Builtin.nil.tree]))
    have hfold := treeMachine_onto hn (.apply s :: fs)
    exact ⟨_, .head rfl (.head rfl (hfold.trans (.head rfl (.single rfl))))⟩
  | cons e es ih =>
    obtain ⟨rest, hrest, ht⟩ := h
    obtain ⟨_, all, _, hall, hpair⟩ := ih hrest
    -- the rest of the list is the second part of the rest's own pair
    have hlist : Tree.Lists (.application rest.folded Builtin.false.tree) es := by
      refine hall.of_steps fun fs => ?_
      obtain ⟨n, hn⟩ := hpair Builtin.false.tree fs
      exact ⟨_, .head rfl (hn.trans (.head rfl (.head rfl (.single rfl))))⟩
    refine ⟨_, _, hlist, hlist.append e, fun s fs => ?_⟩
    obtain ⟨n, hn⟩ := ht Builtin.tailStep.tree
      (.ready (.primitive .pair [Builtin.nil.tree, Builtin.nil.tree]))
    have hfold := treeMachine_onto hn (.apply s :: fs)
    exact ⟨_, .head rfl (.head rfl (hfold.trans
      (.head rfl (.head rfl (.head rfl (.single rfl))))))⟩

/-! ## 3. Lists as they are written -/

section Written

variable {cs : List Code}

theorem next_argument {f x : Code} (hx : x.InScope 0) (fs : List TreeFrame) :
    treeMachine.next ⟨.eval (.apply f x) [], fs⟩ = .inl ⟨.eval f [], .apply x.tree :: fs⟩ := by
  simp [treeMachine, evalTree, hx.argumentTree, resume, TreeState.onto]

/-- **A list as it is written is the list of its elements.** -/
theorem lists_listCode (h : ∀ c ∈ cs, c.InScope 0) :
    (listCode cs).tree.Lists (cs.map Code.tree) := by
  induction cs with
  | nil => exact lists_nil
  | cons c cs ih =>
    have hc : c.InScope 0 := h c List.mem_cons_self
    have hcs : ∀ d ∈ cs, d.InScope 0 := fun d hd => h d (List.mem_cons_of_mem _ hd)
    refine ⟨(listCode cs).tree, ih hcs, fun f x => ⟨8, ?_⟩⟩
    -- two arguments as they are written, then the two of the fold
    exact .head rfl (.head (next_argument (listCode_inScope hcs) _) (.head (next_argument hc _)
      (.head rfl (.head rfl (.head rfl (.head rfl (.single rfl)))))))

/-- `@tail` of a list. -/
theorem Tree.Lists.tail {c : Code} (hc : c.InScope 0) {es : List Tree} (h : c.tree.Lists es) :
    (Code.apply (.builtin .tail) c).tree.Lists es.tail := by
  obtain ⟨tail, all, htail, _, hpair⟩ := h.folds
  refine htail.of_steps fun fs => ?_
  obtain ⟨n, hn⟩ := hpair Builtin.true.tree fs
  exact ⟨_, .head rfl (.head (next_argument hc fs) (.head rfl (.head rfl
    (hn.trans (.head rfl (.head rfl (.single rfl)))))))⟩

/-- **A list without its first elements.** -/
theorem lists_tailsCode (h : ∀ c ∈ cs, c.InScope 0) (k : Nat) :
    (tailsCode k cs).tree.Lists ((cs.map Code.tree).drop k) := by
  induction k with
  | zero => exact lists_listCode h
  | succ k ih =>
    have htail := ih.tail (tailsCode_inScope h k)
    rw [List.tail_drop] at htail
    exact htail

/-- **What `@head` forces in the end**: the element, or zero. -/
theorem headOf_steps (h : ∀ c ∈ cs, c.InScope 0) (k : Nat) :
    ∃ n, treeMachine.Steps n ⟨.eval (headOf k cs) [], []⟩
      ⟨.force (((cs.map Code.tree)[k]?).getD (.ready (.number 0))), []⟩ := by
  have hlist := lists_tailsCode h k
  have hargument := next_argument (f := .builtin .head) (tailsCode_inScope h k) []
  rw [← List.head?_drop]
  generalize (cs.map Code.tree).drop k = es at hlist
  cases es with
  | nil =>
    obtain ⟨n, hn⟩ := hlist Builtin.true.tree (.ready (.number 0))
    exact ⟨_, .head hargument (.head rfl (.head rfl hn))⟩
  | cons e es =>
    obtain ⟨rest, _, hfold⟩ := hlist
    obtain ⟨n, hn⟩ := hfold Builtin.true.tree (.ready (.number 0))
    exact ⟨_, .head hargument (.head rfl (.head rfl
      (hn.trans (.head rfl (.head rfl (.single rfl))))))⟩

/-- **What `@isEmpty` forces in the end**: one of the two cases. -/
theorem emptyOf_steps (h : ∀ c ∈ cs, c.InScope 0) (k : Nat) {y n : Code} (hy : y.InScope 0)
    (hn : n.InScope 0) :
    ∃ m, treeMachine.Steps m ⟨.eval (emptyOf k cs y n) [], []⟩
      ⟨.force (if cs.length ≤ k then y else n).tree, []⟩ := by
  have hlist := lists_tailsCode h k
  have hempty : cs.length ≤ k ↔ (cs.map Code.tree).drop k = [] := by
    rw [List.drop_eq_nil_iff, List.length_map]
  have harguments : treeMachine.Steps 3 ⟨.eval (emptyOf k cs y n) [], []⟩
      ⟨.eval (.builtin .isEmpty) [],
        [.apply (tailsCode k cs).tree, .apply y.tree, .apply n.tree]⟩ :=
    .head (next_argument hn []) (.head (next_argument hy _)
      (.single (next_argument (tailsCode_inScope h k) _)))
  -- what a fold with `true (true false)` does with an element and the fold of the rest
  let never : Tree := .ready (.primitive .true [.ready (.primitive .true [Builtin.false.tree])])
  generalize (cs.map Code.tree).drop k = es at hlist hempty
  cases es with
  | nil =>
    rw [if_pos (hempty.mpr rfl)]
    obtain ⟨m, hm⟩ := hlist never Builtin.true.tree
    have hfold := treeMachine_onto hm [.apply y.tree, .apply n.tree]
    exact ⟨_, harguments.trans (.head rfl (.head rfl (hfold.trans
      (.head rfl (.head rfl (.single rfl))))))⟩
  | cons e es =>
    rw [if_neg fun hle => List.cons_ne_nil e es (hempty.mp hle)]
    obtain ⟨rest, _, hrest⟩ := hlist
    obtain ⟨m, hm⟩ := hrest never Builtin.true.tree
    have hfold := treeMachine_onto hm [.apply y.tree, .apply n.tree]
    exact ⟨_, harguments.trans (.head rfl (.head rfl (hfold.trans (.head rfl (.head rfl
      (.head rfl (.head rfl (.head rfl (.head rfl (.single rfl))))))))))⟩

end Written

end CallByNeed
