/-
  File:      CallByNeed/Proofs/Heap/Graph.lean
  Subject:   Memory as a graph: which cells a cell refers to, and which it leads to.

  A cell refers to the cells of its environment, of its function and argument, or of its value. The
  three ways in which memory changes keep the graph without cycles:

  * `Heap.extends_extend` -- new cells that refer to cells before them only;
  * `Heap.acyclic_mark` -- a cell that is marked refers to nothing any more;
  * `Heap.acyclic_fill` -- a marked cell takes a value that does not lead back to it.

  For each of them there is a lemma on what leads to what afterwards.
-/
import CallByNeed.Proofs.Machine.Strict
import Mathlib.Logic.Relation

namespace CallByNeed

/-! ## 1. References -/

/-- The cells that a cell refers to. -/
def Cell.refs : Cell → List Nat
  | .suspended _ env => env
  | .application func arg => [func, arg]
  | .underEvaluation => []
  | .value v => v.refs

/-- The cells that the focus refers to. -/
def Focus.refs : Focus → List Nat
  | .eval _ env => env
  | .force a => [a]
  | .give v => v.refs

/-- The cells that a frame refers to. -/
def Frame.refs : Frame → List Nat
  | .apply a => [a]
  | .update a => [a]
  | .strict _ forced pending => forced.flatMap Value.refs ++ pending

namespace Heap

variable {h : Heap} {a b t : Nat} {c : Cell} {v : Value}

/-- `a` refers to `b`. -/
def Edge (h : Heap) (a b : Nat) : Prop := ∃ c, h[a]? = some c ∧ b ∈ c.refs

/-- `a` leads to `b`, in any number of references. -/
def Reaches (h : Heap) : Nat → Nat → Prop := Relation.ReflTransGen h.Edge

/-- No cell leads back to itself. -/
def Acyclic (h : Heap) : Prop := ∀ a, ¬ Relation.TransGen h.Edge a a

/-- Cells refer to cells that exist. -/
def Bounded (h : Heap) : Prop := ∀ (a : Nat) (c : Cell), h[a]? = some c → ∀ r ∈ c.refs, r < h.size

theorem acyclic_iff : h.Acyclic ↔ ∀ a b, h.Edge a b → ¬ h.Reaches b a := by
  constructor
  · intro hac a b hab hba
    exact hac a (.head' hab hba)
  · intro hac a hcyc
    obtain ⟨b, hab, hba⟩ := Relation.TransGen.head'_iff.mp hcyc
    exact hac a b hab hba

theorem Edge.lt_size (he : h.Edge a b) : a < h.size := by
  obtain ⟨c, hc, _⟩ := he
  exact (Array.getElem?_eq_some_iff.mp hc).1

theorem Bounded.lt_of_edge (hb : h.Bounded) (he : h.Edge a b) : b < h.size := by
  obtain ⟨c, hc, hr⟩ := he
  exact hb a c hc b hr

theorem Bounded.lt_of_reaches (hb : h.Bounded) (ha : a < h.size) (hab : h.Reaches a b) :
    b < h.size := by
  cases hab with
  | refl => exact ha
  | tail _ he => exact hb.lt_of_edge he

/-! ## 2. New cells -/

@[simp] theorem size_extend : ∀ (cells : List Cell) (h : Heap),
    (h.extend cells).size = h.size + cells.length
  | [], h => by simp
  | c :: cells, h => by
      rw [extend_cons, size_extend cells, Array.size_push, List.length_cons]
      omega

theorem toList_extend : ∀ (cells : List Cell) (h : Heap),
    (h.extend cells).toList = h.toList ++ cells
  | [], h => by simp
  | c :: cells, h => by
      rw [extend_cons, toList_extend cells, Array.toList_push, List.append_assoc]
      rfl

/-- What memory was and is tells the new cells. -/
theorem extend_inj {cells cells' : List Cell} (he : h.extend cells = h.extend cells') :
    cells = cells' := by
  have hl := congrArg Array.toList he
  rw [toList_extend, toList_extend] at hl
  exact List.append_cancel_left hl

theorem getElem?_extend : ∀ (cells : List Cell) (h : Heap) (a : Nat),
    (h.extend cells)[a]? = if a < h.size then h[a]? else cells[a - h.size]?
  | [], h, a => by
      split
      · rfl
      · rename_i ha
        simp only [extend_nil, List.getElem?_nil]
        exact Array.getElem?_eq_none (Nat.le_of_not_lt ha)
  | c :: cells, h, a => by
      rw [extend_cons, getElem?_extend cells, Array.size_push]
      by_cases ha : a < h.size
      · rw [if_pos ha, if_pos (Nat.lt_succ_of_lt ha), Array.getElem?_push,
          if_neg (Nat.ne_of_lt ha)]
      · rw [if_neg ha]
        by_cases he : a = h.size
        · subst he
          simp
        · have hlt : ¬ a < h.size + 1 := by omega
          have hsub : a - h.size = a - (h.size + 1) + 1 := by omega
          rw [if_neg hlt, hsub, List.getElem?_cons_succ]

/-- Each of the new `cells` refers to cells in `K` or to new cells before it; the first one has the
    number `n`. -/
def Draws (K : Nat → Prop) (n : Nat) : List Cell → Prop
  | [] => True
  | c :: cells => (∀ r ∈ c.refs, K r) ∧ Draws (fun r => K r ∨ r = n) (n + 1) cells

theorem Draws.mono {K L : Nat → Prop} (hKL : ∀ r, K r → L r) :
    ∀ {cells : List Cell} {n : Nat}, Draws K n cells → Draws L n cells
  | [], _, _ => trivial
  | _ :: _, _, hd => ⟨fun r hr => hKL r (hd.1 r hr), hd.2.mono fun r => .imp_left (hKL r)⟩

theorem edge_push : Edge (h.push c) a b ↔ h.Edge a b ∨ (a = h.size ∧ b ∈ c.refs) := by
  unfold Edge
  rw [Array.getElem?_push]
  by_cases ha : a = h.size
  · subst ha
    simp
  · simp [ha]

theorem bounded_push (hb : h.Bounded) (hc : ∀ r ∈ c.refs, r < h.size) : Bounded (h.push c) := by
  intro a d hd r hr
  rw [Array.size_push]
  rcases edge_push.mp ⟨d, hd, hr⟩ with he | ⟨_, hm⟩
  · exact Nat.lt_succ_of_lt (hb.lt_of_edge he)
  · exact Nat.lt_succ_of_lt (hc r hm)

/-- An old cell leads where it led. -/
theorem reaches_of_push (hb : h.Bounded) (ha : a < h.size) (hab : Reaches (h.push c) a b) :
    h.Reaches a b := by
  induction hab with
  | refl => exact .refl
  | tail _ he ih =>
    rcases edge_push.mp he with he | ⟨e, _⟩
    · exact ih.tail he
    · exact absurd e (Nat.ne_of_lt (hb.lt_of_reaches ha ih))

/-- A new cell leads to itself and to where its references lead. -/
theorem reaches_new_of_push (hb : h.Bounded) (hc : ∀ r ∈ c.refs, r < h.size)
    (hab : Reaches (h.push c) h.size b) : b = h.size ∨ ∃ r ∈ c.refs, h.Reaches r b := by
  rcases Relation.ReflTransGen.cases_head hab with e | ⟨r, he, hrb⟩
  · exact .inl e.symm
  · rcases edge_push.mp he with he | ⟨_, hr⟩
    · exact absurd he.lt_size (Nat.lt_irrefl _)
    · exact .inr ⟨r, hr, reaches_of_push hb (hc r hr) hrb⟩

theorem acyclic_push (hb : h.Bounded) (hac : h.Acyclic) (hc : ∀ r ∈ c.refs, r < h.size) :
    Acyclic (h.push c) := by
  rw [acyclic_iff] at hac ⊢
  intro a b hab hba
  rcases edge_push.mp hab with he | ⟨rfl, hm⟩
  · exact hac a b he (reaches_of_push hb (hb.lt_of_edge he) hba)
  · have hlt := hb.lt_of_reaches (hc b hm) (reaches_of_push hb (hc b hm) hba)
    exact absurd hlt (Nat.lt_irrefl _)

/-- What is known of new cells that draw on old ones. -/
structure Extends (h h' : Heap) : Prop where
  bounded : h'.Bounded
  acyclic : h.Acyclic → h'.Acyclic
  le : h.size ≤ h'.size
  /-- An old cell leads where it led. -/
  old : ∀ a b, a < h.size → h'.Reaches a b → h.Reaches a b

theorem extends_push (hb : h.Bounded) (hc : ∀ r ∈ c.refs, r < h.size) : Extends h (h.push c) :=
  ⟨bounded_push hb hc, fun hac => acyclic_push hb hac hc, by simp,
    fun _ _ ha => reaches_of_push hb ha⟩

/-- **New cells that draw on old ones** keep memory in order. -/
theorem extends_extend : ∀ {cells : List Cell} {h : Heap} {K : Nat → Prop}, h.Bounded →
    (∀ r, K r → r < h.size) → Draws K h.size cells → Extends h (h.extend cells)
  | [], _, _, hb, _, _ => ⟨hb, id, Nat.le_refl _, fun _ _ _ => id⟩
  | c :: cells, h, K, hb, hK, hd => by
      have hc : ∀ r ∈ c.refs, r < h.size := fun r hr => hK r (hd.1 r hr)
      have h₁ := extends_push hb hc
      have h₂ : Extends (h.push c) (Heap.extend (h.push c) cells) := by
        refine extends_extend (K := fun r => K r ∨ r = h.size) h₁.bounded (fun r hr => ?_) ?_
        · rw [Array.size_push]
          rcases hr with hr | rfl
          · exact Nat.lt_succ_of_lt (hK r hr)
          · exact Nat.lt_succ_self _
        · rw [Array.size_push]
          exact hd.2
      refine ⟨h₂.bounded, fun hac => h₂.acyclic (h₁.acyclic hac), Nat.le_trans h₁.le h₂.le,
        fun a b ha hab => h₁.old a b ha (h₂.old a b (Nat.lt_of_lt_of_le ha h₁.le) hab)⟩

/-- **New cells lead nowhere but where the cells they draw on lead.** -/
theorem not_reaches_extend : ∀ {cells : List Cell} {h : Heap} {K : Nat → Prop}, h.Bounded →
    (∀ r, K r → r < h.size ∧ ¬ h.Reaches r t) → t < h.size → Draws K h.size cells →
    ∀ r, (K r ∨ (h.size ≤ r ∧ r < (h.extend cells).size)) → ¬ (h.extend cells).Reaches r t
  | [], h, K, hb, hK, ht, _, r, hr, hrt => by
      rcases hr with hr | ⟨h₁, h₂⟩
      · exact (hK r hr).2 hrt
      · exact absurd (Nat.lt_of_le_of_lt h₁ h₂) (Nat.lt_irrefl _)
  | c :: cells, h, K, hb, hK, ht, hd, r, hr, hrt => by
      have hc : ∀ r ∈ c.refs, r < h.size := fun r hr => (hK r (hd.1 r hr)).1
      have hnew : ¬ Reaches (h.push c) h.size t := by
        intro hst
        rcases reaches_new_of_push hb hc hst with e | ⟨q, hq, hqt⟩
        · exact absurd ht (by omega)
        · exact (hK q (hd.1 q hq)).2 hqt
      refine not_reaches_extend (K := fun r => K r ∨ r = h.size) (bounded_push hb hc)
        (fun q hq => ?_) (by rw [Array.size_push]; omega) (by rw [Array.size_push]; exact hd.2) r ?_
        hrt
      · rw [Array.size_push]
        rcases hq with hq | rfl
        · exact ⟨Nat.lt_succ_of_lt (hK q hq).1, fun hqt => (hK q hq).2
            (reaches_of_push hb (hK q hq).1 hqt)⟩
        · exact ⟨Nat.lt_succ_self _, hnew⟩
      · rw [Array.size_push]
        rcases hr with hr | ⟨h₁, h₂⟩
        · exact .inl (.inl hr)
        · by_cases e : r = h.size
          · exact .inl (.inr e)
          · exact .inr ⟨by omega, h₂⟩

/-! ## 3. Cells that are written -/

theorem getElem?_write (h : Heap) (a x : Nat) (c : Cell) :
    (h.write a c)[x]? = if x = a ∧ a < h.size then some c else h[x]? := by
  unfold write
  rw [Array.getElem?_setIfInBounds]
  by_cases e : a = x
  · subst e
    by_cases ha : a < h.size
    · simp [ha]
    · simp only [ha, and_false, if_false]
      exact (Array.getElem?_eq_none (Nat.le_of_not_lt ha)).symm
  · have e' : ¬ x = a := fun e' => e e'.symm
    simp [e, e']

theorem getElem?_write_self {d : Cell} (ha : h[a]? = some c) : (h.write a d)[a]? = some d := by
  have hlt : a < h.size := (Array.getElem?_eq_some_iff.mp ha).1
  rw [getElem?_write, if_pos ⟨rfl, hlt⟩]

theorem edge_write {x y : Nat} :
    (h.write a c).Edge x y ↔ (x = a ∧ a < h.size ∧ y ∈ c.refs) ∨ (x ≠ a ∧ h.Edge x y) := by
  unfold Edge
  rw [getElem?_write]
  by_cases e : x = a
  · subst e
    by_cases hx : x < h.size
    · simp [hx]
    · simp [hx]
  · simp [e]

theorem bounded_write (hb : h.Bounded) (hc : ∀ r ∈ c.refs, r < h.size) : (h.write a c).Bounded := by
  intro x d hd r hr
  rw [size_write]
  rcases edge_write.mp ⟨d, hd, hr⟩ with ⟨_, _, hm⟩ | ⟨_, he⟩
  · exact hc r hm
  · exact hb.lt_of_edge he

/-- A mark takes references away only. -/
theorem reaches_of_mark {x y : Nat} (hxy : (h.write a .underEvaluation).Reaches x y) :
    h.Reaches x y := by
  induction hxy with
  | refl => exact .refl
  | tail _ he ih =>
    rcases edge_write.mp he with ⟨_, _, hm⟩ | ⟨_, he⟩
    · simp [Cell.refs] at hm
    · exact ih.tail he

theorem acyclic_mark (hac : h.Acyclic) : (h.write a .underEvaluation).Acyclic := by
  rw [acyclic_iff] at hac ⊢
  intro x y hxy hyx
  rcases edge_write.mp hxy with ⟨_, _, hm⟩ | ⟨_, he⟩
  · simp [Cell.refs] at hm
  · exact hac x y he (reaches_of_mark hyx)

/-- A cell that is filled leads on to where its value leads. -/
theorem reaches_of_fill {x y : Nat} (hxy : (h.write a (.value v)).Reaches x y) :
    h.Reaches x y ∨ (h.Reaches x a ∧ ∃ r ∈ v.refs, h.Reaches r y) := by
  induction hxy with
  | refl => exact .inl .refl
  | tail _ he ih =>
    rcases edge_write.mp he with ⟨rfl, _, hm⟩ | ⟨_, he⟩
    · -- the path passes through the filled cell, for the first time or again
      rcases ih with hxa | ⟨hxa, _⟩
      · exact .inr ⟨hxa, _, hm, .refl⟩
      · exact .inr ⟨hxa, _, hm, .refl⟩
    · rcases ih with hxu | ⟨hxa, r, hr, hru⟩
      · exact .inl (hxu.tail he)
      · exact .inr ⟨hxa, r, hr, hru.tail he⟩

/-- **A value that does not lead back to its cell** closes no cycle. -/
theorem acyclic_fill (hac : h.Acyclic) (hv : ∀ r ∈ v.refs, ¬ h.Reaches r a) :
    (h.write a (.value v)).Acyclic := by
  rw [acyclic_iff] at hac ⊢
  intro x y hxy hyx
  rcases edge_write.mp hxy with ⟨rfl, _, hm⟩ | ⟨_, he⟩
  · rcases reaches_of_fill hyx with h₁ | ⟨h₁, _⟩
    · exact hv y hm h₁
    · exact hv y hm h₁
  · rcases reaches_of_fill hyx with h₁ | ⟨hya, r, hr, hrx⟩
    · exact hac x y he h₁
    · exact hv r hr ((hrx.tail he).trans hya)

end Heap

end CallByNeed
