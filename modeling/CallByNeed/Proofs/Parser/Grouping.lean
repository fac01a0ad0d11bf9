/-
  File:      CallByNeed/Proofs/Parser/Grouping.lean
  Subject:   The tree of a line is the one that the priorities prescribe.

  An operator takes the operand between it and its right neighbour exactly if it binds first. Said
  of a tree: the operator at the root of a left operand binds before the operator above it, and no
  operator binds before the one at the root of its right operand. The two rules spread from the
  roots to all operators below, and that leaves one tree for each sequence.

  * `OpTree`, `OpTree.items` -- trees of operators, and their reading from left to right;
  * `OpTree.Grouped` -- the two rules; `OpTree.Grouped.unique`: they settle the tree;
  * `Line.grouped` -- the loop over the waiting operators builds such a tree;
  * `OpTree.Associates` -- to which side operators of one level nest;
  * `twoStacks` -- the same loop with a stack of operands and a stack of operators.
-/
import CallByNeed.Parser.Line

namespace CallByNeed

/-! ## 1. Priorities

Only the priority of the operator on the left is rounded down. This is what remains of
transitivity. -/

namespace Operator

variable {a b c : String}

theorem bindsFirst_trans (hab : bindsFirst a b = true)
    (hbc : bindsFirst b c = true) : bindsFirst a c = true := by
  simp only [bindsFirst, decide_eq_true_eq] at *
  omega

theorem bindsFirst_of_not (hba : bindsFirst b a = false)
    (hbc : bindsFirst b c = true) : bindsFirst a c = true := by
  simp only [bindsFirst, decide_eq_true_eq, decide_eq_false_iff_not] at *
  omega

theorem not_bindsFirst_trans (hab : bindsFirst a b = false)
    (hbc : bindsFirst b c = false) : bindsFirst a c = false := by
  simp only [bindsFirst, decide_eq_false_iff_not] at *
  omega

theorem not_bindsFirst_of (hab : bindsFirst a b = false)
    (hcb : bindsFirst c b = true) : bindsFirst a c = false := by
  simp only [bindsFirst, decide_eq_true_eq, decide_eq_false_iff_not] at *
  omega

/-- Side by side binds first, whatever comes. -/
theorem bindsFirst_sideBySide (op : String) : bindsFirst "" op = true := by
  have hpower (c : Char) : powerOf c ≤ 20 := by
    unfold powerOf
    grind
  simp only [bindsFirst, decide_eq_true_eq]
  show power op ≤ 20
  unfold power
  split
  · exact hpower _
  · exact Nat.le_refl _

/-- The operators on a half step. -/
def groupsRight (op : String) : Bool :=
  match op.toList with
  | c :: _ => c = ':' ∨ c = ',' ∨ c = '$'
  | [] => false

theorem power_odd_iff (op : String) : power op % 2 = 1 ↔ groupsRight op = true := by
  unfold power groupsRight
  cases op.toList with
  | nil => simp
  | cons c cs =>
    simp only [powerOf]
    grind

/-- **Between operators of one level the left one binds first, except on a half step.** -/
theorem bindsFirst_of_power_eq (h : power a = power b) :
    bindsFirst a b = true ↔ groupsRight a = false := by
  simp only [bindsFirst, decide_eq_true_eq, ← h]
  cases hright : groupsRight a with
  | true =>
    have hodd := (power_odd_iff a).mpr hright
    simp only [Bool.true_eq_false, iff_false]
    omega
  | false =>
    have heven : ¬ power a % 2 = 1 := by rw [power_odd_iff, hright]; decide
    simp only [iff_true]
    omega

end Operator

/-! ## 2. Trees of operators -/

/-- A tree of operators of the kind `β` over operands of the kind `α`. An operator at the beginning
    of a line has no left operand. -/
inductive OpTree (α β : Type) where
  | leaf (a : α)
  | leading (op : β) (right : OpTree α β)
  | binary (left : OpTree α β) (op : β) (right : OpTree α β)

namespace OpTree

variable {α β γ δ : Type}

/-- Operands and operators from left to right. -/
def items : OpTree α β → List (α ⊕ β)
  | .leaf a => [.inl a]
  | .leading op right => .inr op :: right.items
  | .binary left op right => left.items ++ .inr op :: right.items

/-- The operator at the root. -/
def root? : OpTree α β → Option β
  | .leaf _ => none
  | .leading op _ | .binary _ op _ => some op

/-- The same tree over other operands and operators. -/
def map (f : α → γ) (g : β → δ) : OpTree α β → OpTree γ δ
  | .leaf a => .leaf (f a)
  | .leading op right => .leading (g op) (right.map f g)
  | .binary left op right => .binary (left.map f g) (g op) (right.map f g)

/-- How many operators stand above each other. -/
def height : OpTree α β → Nat
  | .leaf _ => 0
  | .leading _ right => right.height + 1
  | .binary left _ right => max left.height right.height + 1

/-- Every operator has its operands from the priorities: the one at the root of its left operand
    binds before it, and it does not bind before the one at the root of its right operand. -/
def Grouped (symbol : β → String) : OpTree α β → Prop
  | .leaf _ => True
  | .leading op right =>
    right.Grouped symbol ∧
      ∀ x ∈ right.root?, Operator.bindsFirst (symbol op) (symbol x) = false
  | .binary left op right =>
    left.Grouped symbol ∧ right.Grouped symbol ∧
      (∀ x ∈ left.root?, Operator.bindsFirst (symbol x) (symbol op) = true) ∧
      ∀ x ∈ right.root?, Operator.bindsFirst (symbol op) (symbol x) = false

theorem items_ne_nil (t : OpTree α β) : t.items ≠ [] := by
  cases t <;> simp [items]

theorem root?_map (f : α → γ) (g : β → δ) (t : OpTree α β) :
    (t.map f g).root? = t.root?.map g := by
  cases t <;> rfl

theorem grouped_map {symbol : β → String} {symbol' : δ → String} {f : α → γ} {g : β → δ}
    (hg : ∀ op, symbol' (g op) = symbol op) (t : OpTree α β) :
    (t.map f g).Grouped symbol' ↔ t.Grouped symbol := by
  induction t with
  | leaf a => exact Iff.rfl
  | leading op right ih => simp [map, Grouped, ih, root?_map, hg]
  | binary left op right ihl ihr => simp [map, Grouped, ihl, ihr, root?_map, hg]

/-- A tree can be read off from any sequence that its own comes from. -/
theorem exists_map_eq (f : α → γ) (g : β → δ) :
    ∀ (t : OpTree γ δ) (xs : List (α ⊕ β)), xs.map (Sum.map f g) = t.items →
      ∃ u : OpTree α β, u.items = xs ∧ u.map f g = t
  | .leaf c, xs, h => by
      obtain ⟨x, rfl, hx⟩ := List.map_eq_singleton_iff.mp h
      cases x with
      | inl a => exact ⟨.leaf a, rfl, by cases hx; rfl⟩
      | inr b => cases hx
  | .leading op right, xs, h => by
      obtain ⟨x, ys, rfl, hx, hys⟩ := List.map_eq_cons_iff.mp h
      obtain ⟨u, hu, rfl⟩ := exists_map_eq f g right ys hys
      cases x with
      | inl a => cases hx
      | inr b => exact ⟨.leading b u, by simp [items, hu], by cases hx; rfl⟩
  | .binary left op right, xs, h => by
      obtain ⟨ys, zs, rfl, hys, hzs⟩ := List.map_eq_append_iff.mp h
      obtain ⟨x, ws, rfl, hx, hws⟩ := List.map_eq_cons_iff.mp hzs
      obtain ⟨u, hu, rfl⟩ := exists_map_eq f g left ys hys
      obtain ⟨v, hv, rfl⟩ := exists_map_eq f g right ws hws
      cases x with
      | inl a => cases hx
      | inr b => exact ⟨.binary u b v, by simp [items, hu, hv], by cases hx; rfl⟩

/-! ## 3. The rules settle the tree -/

section Unique

variable {symbol : β → String}

/-- What holds of the root of a grouped tree holds of all of its operators, if it passes to what binds
    first on the left, and to what the operator does not bind before on the right. -/
theorem Grouped.spread {P : String → Prop}
    (hleft : ∀ {l o}, Operator.bindsFirst l o = true → P o → P l)
    (hright : ∀ {o r}, Operator.bindsFirst o r = false → P o → P r) {t : OpTree α β}
    (ht : t.Grouped symbol) (hroot : ∀ x ∈ t.root?, P (symbol x)) :
    ∀ x, .inr x ∈ t.items → P (symbol x) := by
  induction t with
  | leaf a => simp [items]
  | leading o right ih =>
    obtain ⟨htr, hr⟩ := ht
    have ho := hroot o rfl
    intro x hx
    rcases List.mem_cons.mp hx with hx | hx
    · cases hx
      exact ho
    · exact ih htr (fun y hy => hright (hr y hy) ho) x hx
  | binary left o right ihl ihr =>
    obtain ⟨htl, htr, hl, hr⟩ := ht
    have ho := hroot o rfl
    intro x hx
    rcases List.mem_append.mp hx with hx | hx
    · exact ihl htl (fun y hy => hleft (hl y hy) ho) x hx
    · rcases List.mem_cons.mp hx with hx | hx
      · cases hx
        exact ho
      · exact ihr htr (fun y hy => hright (hr y hy) ho) x hx

/-- What binds after the root of a tree binds after all of its operators. -/
theorem Grouped.all_bind {t : OpTree α β} (ht : t.Grouped symbol) {op : String}
    (hroot : ∀ x ∈ t.root?, Operator.bindsFirst (symbol x) op = true) :
    ∀ x, .inr x ∈ t.items → Operator.bindsFirst (symbol x) op = true :=
  ht.spread (P := fun x => Operator.bindsFirst x op = true)
    Operator.bindsFirst_trans Operator.bindsFirst_of_not hroot

/-- What does not bind before the root of a tree binds before none of its operators. -/
theorem Grouped.none_bound {t : OpTree α β} (ht : t.Grouped symbol) {op : String}
    (hroot : ∀ x ∈ t.root?, Operator.bindsFirst op (symbol x) = false) :
    ∀ x, .inr x ∈ t.items → Operator.bindsFirst op (symbol x) = false :=
  ht.spread (P := fun x => Operator.bindsFirst op x = false)
    (fun hl ho => Operator.not_bindsFirst_of ho hl)
    (fun hr ho => Operator.not_bindsFirst_trans ho hr) hroot

/-- Two grouped trees with the same sequence split it at the same operator: if `o` stood in front of
    `o'`, it would bind first in the left operand of `o'`, and not in the tree that has `o'` on its
    right. -/
theorem Grouped.not_before {left right : OpTree α β} {o o' : β} (hl : left.Grouped symbol)
    (hr : right.Grouped symbol)
    (hleft : ∀ x ∈ left.root?, Operator.bindsFirst (symbol x) (symbol o') = true)
    (hright : ∀ x ∈ right.root?, Operator.bindsFirst (symbol o) (symbol x) = false)
    (ho : .inr o ∈ left.items) (ho' : .inr o' ∈ right.items) : False := by
  have hfirst := hl.all_bind hleft o ho
  rw [hr.none_bound hright o' ho'] at hfirst
  cases hfirst

theorem items_binary_ne_leaf (left : OpTree α β) (op : β) (right : OpTree α β) (a : α) :
    (binary left op right).items ≠ (leaf a).items := by
  obtain ⟨x, xs, hx⟩ := List.exists_cons_of_ne_nil left.items_ne_nil
  simp [items, hx]

/-- A sequence that a leading operator opens has no grouped tree with a left operand: the left
    operand would begin with that operator. -/
theorem Grouped.leading_ne_binary {left' right right' : OpTree α β} {op op' : β}
    (ht : (leading op right).Grouped symbol) (hu : (binary left' op' right').Grouped symbol) :
    (leading op right).items ≠ (binary left' op' right').items := by
  intro h
  obtain ⟨hright, hr⟩ := ht
  obtain ⟨hleft', _, hl', _⟩ := hu
  obtain ⟨x, xs, hx⟩ := List.exists_cons_of_ne_nil left'.items_ne_nil
  simp only [items, hx, List.cons_append, List.cons.injEq] at h
  obtain ⟨rfl, hrest⟩ := h
  exact Grouped.not_before hleft' hright hl' hr (by simp [hx]) (by simp [hrest])

/-- If the left operand of one grouped tree begins the left operand of another one with the same
    sequence, it is all of it. -/
theorem Grouped.left_eq {left right left' right' : OpTree α β} {op op' : β}
    (ht : (binary left op right).Grouped symbol) (hu : (binary left' op' right').Grouped symbol)
    {more : List (α ⊕ β)} (hleft : left'.items = left.items ++ more)
    (hright : .inr op :: right.items = more ++ .inr op' :: right'.items) : more = [] := by
  cases more with
  | nil => rfl
  | cons x more =>
    obtain ⟨_, hr, _, hroot⟩ := ht
    obtain ⟨hl', _, hroot', _⟩ := hu
    obtain ⟨rfl, hitems⟩ := List.cons.inj hright
    exact (Grouped.not_before hl' hr hroot' hroot (by simp [hleft]) (by simp [hitems])).elim

theorem Grouped.binary_split {left right left' right' : OpTree α β} {op op' : β}
    (ht : (binary left op right).Grouped symbol) (hu : (binary left' op' right').Grouped symbol)
    (h : (binary left op right).items = (binary left' op' right').items) :
    left.items = left'.items ∧ op = op' ∧ right.items = right'.items := by
  rcases List.append_eq_append_iff.mp h with ⟨more, hleft, hright⟩ | ⟨more, hleft, hright⟩
  · obtain rfl := Grouped.left_eq ht hu hleft hright
    obtain ⟨hop, hitems⟩ := List.cons.inj hright
    exact ⟨by rw [hleft, List.append_nil], Sum.inr.inj hop, hitems⟩
  · obtain rfl := Grouped.left_eq hu ht hleft hright
    obtain ⟨hop, hitems⟩ := List.cons.inj hright
    exact ⟨by rw [hleft, List.append_nil], (Sum.inr.inj hop).symm, hitems.symm⟩

/-- **The rules settle the tree.** -/
theorem Grouped.unique {t u : OpTree α β} (ht : t.Grouped symbol) (hu : u.Grouped symbol)
    (h : t.items = u.items) : t = u := by
  induction t generalizing u with
  | leaf a =>
    cases u with
    | leaf b =>
      cases h
      rfl
    | leading op right => cases h
    | binary left op right => exact (items_binary_ne_leaf left op right a h.symm).elim
  | leading op right ih =>
    cases u with
    | leaf b => cases h
    | leading op' right' =>
      obtain ⟨hop, hitems⟩ := List.cons.inj h
      cases hop
      rw [ih ht.1 hu.1 hitems]
    | binary left' op' right' => exact (Grouped.leading_ne_binary ht hu h).elim
  | binary left op right ihl ihr =>
    cases u with
    | leaf b => exact (items_binary_ne_leaf left op right b h).elim
    | leading op' right' => exact (Grouped.leading_ne_binary hu ht h.symm).elim
    | binary left' op' right' =>
      obtain ⟨hleft, rfl, hright⟩ := Grouped.binary_split ht hu h
      rw [ihl ht.1 hu.1 hleft, ihr ht.2.1 hu.2.1 hright]

end Unique

/-! ## 4. Sides -/

/-- Operators of one level nest to the left, those on a half step to the right: next to an operator
    on the other side there is none of its level at the root. -/
def Associates (symbol : β → String) : OpTree α β → Prop
  | .leaf _ => True
  | .leading op right =>
    right.Associates symbol ∧ (Operator.groupsRight (symbol op) = false →
      ∀ x ∈ right.root?, Operator.power (symbol x) ≠ Operator.power (symbol op))
  | .binary left op right =>
    left.Associates symbol ∧ right.Associates symbol ∧
      (Operator.groupsRight (symbol op) = false →
        ∀ x ∈ right.root?, Operator.power (symbol x) ≠ Operator.power (symbol op)) ∧
      (Operator.groupsRight (symbol op) = true →
        ∀ x ∈ left.root?, Operator.power (symbol x) ≠ Operator.power (symbol op))

theorem Grouped.associates {symbol : β → String} {t : OpTree α β} (ht : t.Grouped symbol) :
    t.Associates symbol := by
  have hright {op x : β} (hx : Operator.bindsFirst (symbol op) (symbol x) = false)
      (hop : Operator.groupsRight (symbol op) = false) :
      Operator.power (symbol x) ≠ Operator.power (symbol op) := by
    intro he
    rw [(Operator.bindsFirst_of_power_eq he.symm).mpr hop] at hx
    cases hx
  have hleft {op x : β} (hx : Operator.bindsFirst (symbol x) (symbol op) = true)
      (hop : Operator.groupsRight (symbol op) = true) :
      Operator.power (symbol x) ≠ Operator.power (symbol op) := by
    intro he
    have hodd := (Operator.power_odd_iff (symbol op)).mpr hop
    rw [← he, Operator.power_odd_iff] at hodd
    rw [(Operator.bindsFirst_of_power_eq he).mp hx] at hodd
    cases hodd
  induction t with
  | leaf a => trivial
  | leading op right ih => exact ⟨ih ht.1, fun hop x hx => hright (ht.2 x hx) hop⟩
  | binary left op right ihl ihr =>
    obtain ⟨hl, hr, hleftRoot, hrightRoot⟩ := ht
    exact ⟨ihl hl, ihr hr, fun hop x hx => hright (hrightRoot x hx) hop,
      fun hop x hx => hleft (hleftRoot x hx) hop⟩

end OpTree

/-! ## 5. The loop over the waiting operators -/

/-- The expression that a tree of operators stands for. -/
def OpTree.expr : OpTree Expr Joint → Expr
  | .leaf e => e
  | .leading op right => Waiting.close ⟨none, op⟩ right.expr
  | .binary left op right => Waiting.close ⟨some left.expr, op⟩ right.expr

namespace Line

/-- Further operands, each behind what stands in front of it. -/
def pairItems (ops : List (Joint × Expr)) : List (Expr ⊕ Joint) :=
  ops.flatMap fun (op, e) => [.inr op, .inl e]

/-- The sequence that a line is. -/
def items (l : Line) : List (Expr ⊕ Joint) :=
  l.first.toList.map .inl ++ pairItems l.further

/-- A line without a tree is empty. -/
theorem items_eq_nil {l : Line} (h : l.tree? = none) : l.items = [] := by
  obtain ⟨first, further⟩ := l
  cases further with
  | cons pair more => cases h
  | nil =>
    obtain rfl : first = none := h
    rfl

/-- A waiting operator with the tree of its left operand. -/
structure Held where
  left : Option (OpTree Expr Joint)
  op : Joint

/-- What the loop keeps of it. -/
def Held.waiting (h : Held) : Waiting := ⟨h.left.map OpTree.expr, h.op⟩

/-- The sequence up to a waiting operator. -/
def Held.items (h : Held) : List (Expr ⊕ Joint) :=
  (h.left.map OpTree.items).getD [] ++ [.inr h.op]

/-- The operator with both operands. -/
def Held.close (h : Held) (right : OpTree Expr Joint) : OpTree Expr Joint :=
  match h.left with
  | none => .leading h.op right
  | some left => .binary left h.op right

theorem Held.expr_close (h : Held) (right : OpTree Expr Joint) :
    (h.close right).expr = h.waiting.close right.expr := by
  obtain ⟨left, op⟩ := h
  cases left <;> rfl

theorem Held.items_close (h : Held) (right : OpTree Expr Joint) :
    (h.close right).items = h.items ++ right.items := by
  obtain ⟨left, op⟩ := h
  cases left <;> simp [close, Held.items, OpTree.items]

theorem Held.root?_close (h : Held) (right : OpTree Expr Joint) :
    (h.close right).root? = some h.op := by
  obtain ⟨left, op⟩ := h
  cases left <;> rfl

/-- The sequence up to the operator on top of the stack. -/
def stackItems : List Held → List (Expr ⊕ Joint)
  | [] => []
  | h :: hs => stackItems hs ++ h.items

/-- The stack, top first: the trees are grouped, each operator binds after its left operand, and
    none binds before the one above it. -/
def Stacked : List Held → Prop
  | [] => True
  | h :: hs =>
    (∀ left ∈ h.left, left.Grouped Joint.symbol ∧
      ∀ x ∈ left.root?, Operator.bindsFirst x.symbol h.op.symbol = true) ∧
    (∀ below ∈ hs.head?, Operator.bindsFirst below.op.symbol h.op.symbol = false) ∧
    Stacked hs

/-- The operator on top does not bind before the root of a tree. -/
def Holds (hs : List Held) (t : OpTree Expr Joint) : Prop :=
  ∀ top ∈ hs.head?, ∀ x ∈ t.root?, Operator.bindsFirst top.op.symbol x.symbol = false

theorem Held.grouped_close {h : Held} {hs : List Held} {right : OpTree Expr Joint}
    (hstack : Stacked (h :: hs)) (hright : right.Grouped Joint.symbol)
    (hholds : Holds (h :: hs) right) : (h.close right).Grouped Joint.symbol := by
  obtain ⟨left, op⟩ := h
  obtain ⟨hleft, _, _⟩ := hstack
  cases left with
  | none => exact ⟨hright, hholds _ rfl⟩
  | some left =>
    obtain ⟨hgrouped, hroot⟩ := hleft left rfl
    exact ⟨hgrouped, hright, hroot, hholds _ rfl⟩

/-- A closed operator is held by the one below it. -/
theorem Held.holds_close {h : Held} {hs : List Held} (hstack : Stacked (h :: hs))
    (right : OpTree Expr Joint) : Holds hs (h.close right) := by
  intro below hbelow x hx
  rw [h.root?_close] at hx
  cases hx
  exact hstack.2.1 below hbelow

/-- Closing the operators that bind before `op` leaves a stack that `op` can be put on. -/
theorem settle_grouped (op : Joint) : ∀ {hs : List Held} {t : OpTree Expr Joint}, Stacked hs →
    t.Grouped Joint.symbol → Holds hs t →
    (∀ x ∈ t.root?, Operator.bindsFirst x.symbol op.symbol = true) →
    ∃ hs' t', settle op (hs.map Held.waiting) t.expr = (hs'.map Held.waiting, t'.expr) ∧
      Stacked (⟨some t', op⟩ :: hs') ∧ stackItems hs' ++ t'.items = stackItems hs ++ t.items
  | [], t, hstack, ht, _, hroot => by
      refine ⟨[], t, rfl, ⟨?_, by simp, trivial⟩, rfl⟩
      intro left hleft
      cases hleft
      exact ⟨ht, hroot⟩
  | h :: hs, t, hstack, ht, hholds, hroot => by
      simp only [List.map_cons, settle]
      by_cases hbinds : Operator.bindsFirst h.op.symbol op.symbol = true
      · have hclosed : ∀ x ∈ (h.close t).root?, Operator.bindsFirst x.symbol op.symbol = true := by
          intro x hx
          rw [h.root?_close] at hx
          cases hx
          exact hbinds
        obtain ⟨hs', t', hsettle, hstack', hitems⟩ := settle_grouped op hstack.2.2
          (Held.grouped_close hstack ht hholds) (Held.holds_close hstack t) hclosed
        refine ⟨hs', t', ?_, hstack', ?_⟩
        · rw [Held.expr_close] at hsettle
          rw [if_pos (by exact hbinds), hsettle]
        · rw [hitems, Held.items_close, stackItems, List.append_assoc]
      · refine ⟨h :: hs, t, ?_, ⟨?_, ?_, hstack⟩, rfl⟩
        · rw [if_neg (by exact hbinds)]
          rfl
        · intro left hleft
          cases hleft
          exact ⟨ht, hroot⟩
        · intro below hbelow
          cases hbelow
          simpa using hbinds

/-- Closing all operators leaves one tree. -/
theorem settleAll_grouped : ∀ {hs : List Held} {t : OpTree Expr Joint}, Stacked hs →
    t.Grouped Joint.symbol → Holds hs t →
    ∃ t' : OpTree Expr Joint, settleAll (hs.map Held.waiting) t.expr = t'.expr ∧
      t'.Grouped Joint.symbol ∧ t'.items = stackItems hs ++ t.items
  | [], t, _, ht, _ => ⟨t, rfl, ht, rfl⟩
  | h :: hs, t, hstack, ht, hholds => by
      obtain ⟨t', hsettle, ht', hitems⟩ := settleAll_grouped hstack.2.2
        (Held.grouped_close hstack ht hholds) (Held.holds_close hstack t)
      refine ⟨t', ?_, ht', ?_⟩
      · rw [← hsettle, Held.expr_close]
        rfl
      · rw [hitems, Held.items_close, stackItems, List.append_assoc]

/-- The loop builds a grouped tree of what it has read and what it goes on to read. -/
theorem treeFrom_grouped : ∀ (more : List (Joint × Expr)) {hs : List Held} (e : Expr),
    Stacked hs → ∃ t : OpTree Expr Joint,
      treeFrom (hs.map Held.waiting) e more = t.expr ∧ t.Grouped Joint.symbol ∧
        t.items = stackItems hs ++ .inl e :: pairItems more
  | [], hs, e, hstack => by
      have hholds : Holds hs (.leaf e) := fun _ _ x hx => by cases hx
      obtain ⟨t, hsettle, ht, hitems⟩ := settleAll_grouped (t := .leaf e) hstack trivial hholds
      exact ⟨t, hsettle, ht, hitems⟩
  | (op, next) :: more, hs, e, hstack => by
      have hholds : Holds hs (.leaf e) := fun _ _ x hx => by cases hx
      obtain ⟨hs', t', hsettle, hstack', hitems⟩ := settle_grouped op (t := .leaf e)
        hstack trivial hholds (fun x hx => by cases hx)
      obtain ⟨t, htree, ht, hall⟩ := treeFrom_grouped more next hstack'
      refine ⟨t, ?_, ht, ?_⟩
      · have hleaf : settle op (hs.map Held.waiting) e = (hs'.map Held.waiting, t'.expr) := hsettle
        rw [← htree]
        simp only [treeFrom, hleaf, List.map_cons]
        rfl
      · rw [hall]
        simp only [stackItems, Held.items, Option.map_some, Option.getD_some]
        rw [← List.append_assoc, hitems]
        simp [OpTree.items, pairItems]

/-- **The tree of a line is a grouped tree of its sequence.** -/
theorem grouped {l : Line} {e : Expr} (h : l.tree? = some e) :
    ∃ t : OpTree Expr Joint, t.items = l.items ∧ t.Grouped Joint.symbol ∧ t.expr = e := by
  obtain ⟨first, further⟩ := l
  cases further with
  | nil =>
    cases first with
    | none => cases h
    | some a =>
      exact ⟨.leaf a, rfl, trivial, Option.some.inj h⟩
  | cons pair more =>
    obtain ⟨op, next⟩ := pair
    have hstack : Stacked [⟨first.map .leaf, op⟩] := by
      refine ⟨?_, by simp, trivial⟩
      intro left hleft
      obtain ⟨a, rfl, rfl⟩ := Option.map_eq_some_iff.mp hleft
      exact ⟨trivial, fun x hx => by cases hx⟩
    have hwaiting : ([⟨first.map .leaf, op⟩] : List Held).map Held.waiting = [⟨first, op⟩] := by
      cases first <;> rfl
    obtain ⟨t, htree, ht, hitems⟩ := treeFrom_grouped more next hstack
    refine ⟨t, ?_, ht, ?_⟩
    · rw [hitems]
      cases first <;> simp [items, stackItems, Held.items, OpTree.items, pairItems]
    · rw [← htree, hwaiting]
      exact Option.some.inj h

end Line

/-! ## 6. Two stacks -/

/-- An operator is closed with the two operands on top of their stack. If there are not two, or the
    right one is missing, whatever there is goes and nothing comes in its place. -/
def reduceTop (op : Joint) : List (Option Expr) → List (Option Expr)
  | some right :: left :: rest => some (Waiting.close ⟨left, op⟩ right) :: rest
  | operands => operands.drop 2

/-- Closes operators on top as long as they bind before `op`. -/
def reduceWhile (op : Joint) : (operators : List Joint) → (operands : List (Option Expr)) →
    List Joint × List (Option Expr)
  | [], operands => ([], operands)
  | o :: operators, operands =>
    if Operator.bindsFirst o.symbol op.symbol then reduceWhile op operators (reduceTop o operands)
    else (o :: operators, operands)

/-- The loop over a line with a stack of operators and a stack of operands. -/
def twoStacks : (operators : List Joint) → (operands : List (Option Expr)) →
    List (Joint × Expr) → Option Expr
  | operators, operands, [] => (operators.foldl (fun xs o => reduceTop o xs) operands).head?.join
  | operators, operands, (op, next) :: more =>
    let (operators, operands) := reduceWhile op operators operands
    twoStacks (op :: operators) (some next :: operands) more

/-- The operand stack under the waiting operators. -/
def operandStack (ws : List Waiting) (right : Expr) : List (Option Expr) :=
  some right :: ws.map Waiting.left

theorem reduceTop_operandStack (w : Waiting) (ws : List Waiting) (right : Expr) :
    reduceTop w.op (operandStack (w :: ws) right) = operandStack ws (w.close right) := rfl

theorem reduceWhile_operandStack (op : Joint) : ∀ (ws : List Waiting) (right : Expr),
    reduceWhile op (ws.map Waiting.op) (operandStack ws right) =
      ((Line.settle op ws right).1.map Waiting.op,
        operandStack (Line.settle op ws right).1 (Line.settle op ws right).2)
  | [], right => rfl
  | w :: ws, right => by
      simp only [List.map_cons, reduceWhile, Line.settle, reduceTop_operandStack]
      split
      · exact reduceWhile_operandStack op ws (w.close right)
      · rfl

theorem reduceAll_operandStack : ∀ (ws : List Waiting) (right : Expr),
    (ws.map Waiting.op).foldl (fun xs o => reduceTop o xs) (operandStack ws right) =
      [some (Line.settleAll ws right)]
  | [], right => rfl
  | w :: ws, right => by
      rw [List.map_cons, List.foldl_cons, reduceTop_operandStack, reduceAll_operandStack ws]
      rfl

theorem twoStacks_operandStack : ∀ (more : List (Joint × Expr)) (ws : List Waiting) (right : Expr),
    twoStacks (ws.map Waiting.op) (operandStack ws right) more =
      some (Line.treeFrom ws right more)
  | [], ws, right => by
      rw [twoStacks, reduceAll_operandStack]
      rfl
  | (op, next) :: more, ws, right => by
      simp only [twoStacks, reduceWhile_operandStack, Line.treeFrom]
      exact twoStacks_operandStack more (⟨some (Line.settle op ws right).2, op⟩ ::
        (Line.settle op ws right).1) next

/-- **The two stacks give the tree of the line**: an operator that is closed has its operands. -/
theorem Line.tree?_eq_twoStacks (l : Line) : l.tree? = twoStacks [] [l.first] l.further := by
  obtain ⟨first, further⟩ := l
  cases further with
  | nil => cases first <;> rfl
  | cons pair more => exact (twoStacks_operandStack more [⟨first, pair.1⟩] pair.2).symm

end CallByNeed
