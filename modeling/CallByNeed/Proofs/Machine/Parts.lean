/-
  File:      CallByNeed/Proofs/Machine/Parts.lean
  Subject:   Invariants that speak of the focus, of every frame and of every cell by themselves.

  * `Heap.forall_extend`, `Heap.forall_write` -- such an invariant of cells, when memory changes;
  * `State.Each` -- a predicate for each kind of part, of a whole state;
  * `PartsFit` -- what the predicates have to agree on for the rules that write a cell;
  * `State.Each.move` -- then every rule keeps them if the rules that write none do.
-/
import CallByNeed.Proofs.Heap.Graph
import CallByNeed.Proofs.Machine.Runs

namespace CallByNeed

section Parts

variable {F : Focus → Prop} {G : Frame → Prop} {C : Cell → Prop}

theorem Heap.forall_extend {h : Heap} {cells : List Cell}
    (hh : ∀ (a : Nat) (c : Cell), h[a]? = some c → C c) (hcells : ∀ c ∈ cells, C c)
    (a : Nat) (c : Cell) (hc : (h.extend cells)[a]? = some c) : C c := by
  rw [getElem?_extend] at hc
  split at hc
  · exact hh a c hc
  · exact hcells c (List.mem_of_getElem? hc)

theorem Heap.forall_write {h : Heap} {b : Nat} {d : Cell}
    (hh : ∀ (a : Nat) (c : Cell), h[a]? = some c → C c) (hd : C d)
    (a : Nat) (c : Cell) (hc : (h.write b d)[a]? = some c) : C c := by
  rw [getElem?_write] at hc
  split at hc
  · cases hc
    exact hd
  · exact hh a c hc

/-- The focus, every frame and every cell of a state are of these kinds. -/
structure State.Each (F : Focus → Prop) (G : Frame → Prop) (C : Cell → Prop) (s : State) :
    Prop where
  focus : F s.focus
  stack : ∀ f ∈ s.stack.frames, G f
  heap : ∀ (a : Nat) (c : Cell), s.heap[a]? = some c → C c

theorem State.each_onto {l : State} {below : List Frame} :
    (l.onto below).Each F G C ↔ l.Each F G C ∧ ∀ f ∈ below, G f := by
  constructor
  · intro ⟨hfocus, hstack, hheap⟩
    simp only [State.frames_onto, List.mem_append] at hstack
    exact ⟨⟨hfocus, fun f hf => hstack f (.inl hf), hheap⟩, fun f hf => hstack f (.inr hf)⟩
  · intro ⟨⟨hfocus, hstack, hheap⟩, hbelow⟩
    refine ⟨hfocus, fun f hf => ?_, hheap⟩
    rcases List.mem_append.mp hf with hf | hf
    · exact hstack f hf
    · exact hbelow f hf

/-- The predicates agree on what goes from a cell to the focus and back, and say nothing of marks
    and of frames that hold no value. -/
structure PartsFit (F : Focus → Prop) (G : Frame → Prop) (C : Cell → Prop) : Prop where
  force : ∀ a, F (.force a)
  apply : ∀ a, G (.apply a)
  update : ∀ a, G (.update a)
  marked : C .underEvaluation
  entered : ∀ code env, C (.suspended code env) → F (.eval code env)
  filled : ∀ v, F (.give v) → C (.value v)

/-- **One rule keeps the kinds of all parts**, if the rules that write no cell do. -/
theorem State.Each.move (hfit : PartsFit F G C)
    (hplain : ∀ l l', Plain l l' → l.Each F G C → l'.Each F G C)
    {s s' : State} (hs : s.Each F G C) (hm : Move s s') : s'.Each F G C := by
  cases hm with
  | plain below hl =>
    obtain ⟨hl', hbelow⟩ := each_onto.mp hs
    exact each_onto.mpr ⟨hplain _ _ hl hl', hbelow⟩
  | enterCode a code env fs h p ha =>
    refine ⟨hfit.entered _ _ (hs.heap a _ ha), ?_, Heap.forall_write hs.heap hfit.marked⟩
    intro f hf
    rcases List.mem_cons.mp hf with rfl | hf
    · exact hfit.update a
    · exact hs.stack f hf
  | enterApplication a func arg fs h p ha =>
    refine ⟨hfit.force func, ?_, Heap.forall_write hs.heap hfit.marked⟩
    intro f hf
    rcases List.mem_cons.mp hf with rfl | hf
    · exact hfit.apply arg
    · rcases List.mem_cons.mp hf with rfl | hf
      · exact hfit.update a
      · exact hs.stack f hf
  | fill a v fs h p =>
    have hv : F (.give v) := hs.focus
    exact ⟨hv, fun f hf => hs.stack f (List.mem_cons_of_mem _ hf),
      Heap.forall_write hs.heap (hfit.filled v hv)⟩

end Parts

end CallByNeed
