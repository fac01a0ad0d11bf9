/-
  File:      CallByNeed/Proofs/ByName/Unfolding.lean
  Subject:   A state of the machine as a state without memory.

  Every cell is assigned a tree, once and for all when it is made. A cell that still waits for its
  first demand is its tree; a filled cell holds the value to which its tree comes; and for a cell
  under evaluation the way from its tree to what lies above its update frame is known.

  * `State.over` -- the state without memory, over an assignment; update frames leave no trace;
  * `handoverTree_map`, `argumentTree_map`, `strictTree_map` -- the parts of a step over an
    assignment;
  * `Unfolds` -- the assignment fits the state;
  * `Unfolds.plain`, `Unfolds.enter`, `Unfolds.fill` -- each rule is some steps without memory.
-/
import CallByNeed.Proofs.ByName.Tree
import CallByNeed.Proofs.Machine.Acyclic

namespace CallByNeed

/-! ## 1. States over an assignment -/

/-- The focus over an assignment. -/
def Focus.over (g : Nat → Tree) : Focus → TreeFocus
  | .eval code env => .eval code (env.map g)
  | .force a => .force (g a)
  | .give v => .give (v.over g)

/-- A frame over an assignment. An update frame is work that only memory needs. -/
def Frame.over? (g : Nat → Tree) : Frame → Option TreeFrame
  | .apply a => some (.apply (g a))
  | .update _ => none
  | .strict b forced pending => some (.strict b (forced.map (Value.over g)) (pending.map g))

/-- Frames over an assignment. -/
def framesOver (g : Nat → Tree) (fs : List Frame) : List TreeFrame := fs.filterMap (Frame.over? g)

/-- A state over an assignment. -/
def State.over (g : Nat → Tree) (s : State) : TreeState :=
  ⟨s.focus.over g, framesOver g s.stack.frames⟩

section Over

variable {g g' : Nat → Tree}

@[simp] theorem framesOver_nil : framesOver g [] = [] := rfl

@[simp] theorem framesOver_update (a : Nat) (fs : List Frame) :
    framesOver g (.update a :: fs) = framesOver g fs := rfl

@[simp] theorem framesOver_apply (a : Nat) (fs : List Frame) :
    framesOver g (.apply a :: fs) = .apply (g a) :: framesOver g fs := rfl

@[simp] theorem framesOver_strict (b : Builtin) (forced : List Value) (pending : List Nat)
    (fs : List Frame) : framesOver g (.strict b forced pending :: fs) =
      .strict b (forced.map (Value.over g)) (pending.map g) :: framesOver g fs := rfl

@[simp] theorem framesOver_append (fs fs' : List Frame) :
    framesOver g (fs ++ fs') = framesOver g fs ++ framesOver g fs' := List.filterMap_append

@[simp] theorem framesOver_map_apply (xs : List Nat) :
    framesOver g (xs.map .apply) = xs.map fun x => .apply (g x) := by
  induction xs with
  | nil => rfl
  | cons x xs ih =>
    rw [List.map_cons, framesOver_apply, ih]
    rfl

theorem State.over_onto (s : State) (fs : List Frame) :
    (s.onto fs).over g = (s.over g).onto (framesOver g fs) := by
  simp [State.over, TreeState.onto]

/-- A value sees the trees of its own cells only. -/
theorem Value.over_congr {v : Value} (h : ∀ r ∈ v.refs, g r = g' r) : v.over g = v.over g' := by
  cases v with
  | number n => rfl
  | string s => rfl
  | closure body env => exact congrArg (Meaning.closure body) (List.map_congr_left h)
  | primitive b args => exact congrArg (Meaning.primitive b) (List.map_congr_left h)

theorem Cell.over_congr {c : Cell} (h : ∀ r ∈ c.refs, g r = g' r) : c.over g = c.over g' := by
  cases c with
  | suspended code env => exact congrArg (Tree.suspended code) (List.map_congr_left h)
  | application func arg =>
    have hf : g func = g' func := h func (by simp [Cell.refs])
    have ha : g arg = g' arg := h arg (by simp [Cell.refs])
    simp only [Cell.over, hf, ha]
  | underEvaluation => rfl
  | value v => exact congrArg Tree.ready (Value.over_congr h)

theorem framesOver_congr : ∀ {fs : List Frame}, (∀ r ∈ fs.flatMap Frame.refs, g r = g' r) →
    framesOver g fs = framesOver g' fs
  | [], _ => rfl
  | f :: fs, h => by
      rw [List.flatMap_cons] at h
      have ih : framesOver g fs = framesOver g' fs :=
        framesOver_congr fun r hr => h r (List.mem_append_right _ hr)
      have hf : ∀ r ∈ f.refs, g r = g' r := fun r hr => h r (List.mem_append_left _ hr)
      cases f with
      | update a => simpa using ih
      | apply a =>
        have ha : g a = g' a := hf a (by simp [Frame.refs])
        rw [framesOver_apply, framesOver_apply, ih, ha]
      | strict b forced pending =>
        have hv : forced.map (Value.over g) = forced.map (Value.over g') := by
          refine List.map_congr_left fun v hv => Value.over_congr fun r hr => hf r ?_
          exact List.mem_append_left _ (List.mem_flatMap.mpr ⟨v, hv, hr⟩)
        have hp : pending.map g = pending.map g' :=
          List.map_congr_left fun r hr => hf r (List.mem_append_right _ hr)
        rw [framesOver_strict, framesOver_strict, ih, hv, hp]

/-! ## 2. New cells -/

/-- An old cell keeps its tree. -/
theorem assign_of_lt : ∀ {cells : List Cell} {g : Nat → Tree} {n r : Nat}, r < n →
    assign g n cells r = g r
  | [], _, _, _, _ => rfl
  | c :: cells, g, n, r, hr => by
      rw [assign, assign_of_lt (Nat.lt_succ_of_lt hr), Function.update_of_ne (Nat.ne_of_lt hr)]

/-- A new cell's tree is that of the cell. -/
theorem assign_new : ∀ {cells : List Cell} {g : Nat → Tree} {n i : Nat} {K : Nat → Prop} {c : Cell},
    (∀ r, K r → r < n) → Heap.Draws K n cells → cells[i]? = some c →
    assign g n cells (n + i) = c.over (assign g n cells)
  | [], _, _, _, _, _, _, _, hc => by simp at hc
  | d :: cells, g, n, 0, K, c, hK, hd, hc => by
      obtain rfl : d = c := by simpa using hc
      rw [Nat.add_zero]
      have hn : assign g n (d :: cells) n = d.over g := by
        rw [assign, assign_of_lt (Nat.lt_succ_self n), Function.update_self]
      rw [hn]
      exact Cell.over_congr fun r hr => (assign_of_lt (hK r (hd.1 r hr))).symm
  | d :: cells, g, n, i + 1, K, c, hK, hd, hc => by
      have e : n + (i + 1) = n + 1 + i := by omega
      rw [assign, e]
      refine assign_new (K := fun r => K r ∨ r = n) (fun r hr => ?_) hd.2 (by simpa using hc)
      rcases hr with hr | rfl
      · exact Nat.lt_succ_of_lt (hK r hr)
      · exact Nat.lt_succ_self r

/-! ## 3. The parts of a step over an assignment -/

theorem argumentTree_map {x : Code} {env : List Nat} {n a : Nat} {cells : List Cell}
    (hx : argument? x env n = .ok (cells, a)) :
    argumentTree (env.map g) x = .ok (assign g n cells a) := by
  cases x with
  | var i =>
    simp only [argument?] at hx
    cases hi : env[i]? with
    | none =>
      rw [hi] at hx
      cases hx
    | some b =>
      rw [hi] at hx
      cases hx
      simp [argumentTree, hi, assign]
  | _ =>
    cases hx
    simp [argumentTree, assign, Cell.over, Value.over]

theorem argumentTree_map_error {x : Code} {env : List Nat} {n : Nat} {fault : Fault}
    (hx : argument? x env n = .error fault) : argumentTree (env.map g) x = .error fault := by
  cases x with
  | var i =>
    simp only [argument?] at hx
    cases hi : env[i]? with
    | none =>
      rw [hi] at hx
      cases hx
      simp [argumentTree, hi]
    | some b =>
      rw [hi] at hx
      cases hx
  | _ => cases hx

/-- **A combinator does the same to cells and to their trees.** -/
theorem handoverTree_map {b : Builtin} {args : List Nat} {n : Nat} {cells : List Cell}
    {o : Handover} (hargs : ∀ r ∈ args, r < n) (ho : handover? b args n = some (cells, o)) :
    handoverTree b (args.map g) = some (o.over (assign g n cells)) := by
  -- an argument is none of the new cells
  have hne : ∀ r ∈ args, r ≠ n ∧ ∀ k, r ≠ n + k := fun r hr =>
    ⟨Nat.ne_of_lt (hargs r hr), fun k => Nat.ne_of_lt (Nat.lt_add_right k (hargs r hr))⟩
  unfold handover? at ho
  split at ho <;> cases ho
  all_goals
    simp only [List.mem_cons, List.not_mem_nil, or_false, forall_eq_or_imp, forall_eq] at hne
    simp [handoverTree, handover?, assign, Cell.over, Value.over, Handover.over, numbered,
      List.range_succ, Function.update_apply, Nat.add_assoc, hne]

theorem handoverTree_map_none {b : Builtin} {args : List Nat} {n : Nat}
    (ho : handover? b args n = none) : handoverTree b (args.map g) = none := by
  have hlen : (List.range (args.map g).length).length = args.length := by simp
  have hsome := handover?_isSome b (args.map g).length n hlen
  rw [ho, Option.isSome_none, Option.isSome_eq_false_iff, Option.isNone_iff_eq_none] at hsome
  simp only [handoverTree, hsome]

/-- **A strict primitive does the same to values and to their meanings.** -/
theorem strictTree_map (b : Builtin) (args : List Value) (p : Printed) :
    strictTree b (args.map (Value.over g)) =
      ((strictEffect b args p).map Prod.fst).map (Value.over g) := by
  have hblank : (args.map (Value.over g)).map Meaning.blank = args.map Value.blank := by
    simp [Function.comp_def]
  rw [strictTree, hblank, strictEffect_blank, strictEffect_printed b args #[] p]
  cases hr : strictEffect b args p with
  | error fault => rfl
  | ok r =>
    have hrefs : r.1.refs = [] := strictEffect_refs hr
    exact congrArg Except.ok (Value.over_congr (by simp [hrefs]))

end Over

/-! ## 4. Assignments that fit -/

/-- What a cell says of its tree. -/
def Cell.Holds (g : Nat → Tree) (t : Tree) : Cell → Prop
  | .suspended code env => t = .suspended code (env.map g)
  | .application func arg => t = .application (g func) (g arg)
  | .underEvaluation => True
  | .value v => ∃ k, treeMachine.Steps (k + 1) ⟨.force t, []⟩ ⟨.give (v.over g), []⟩

/-- The trees of the cells fit what the cells hold, and what lies above an update frame is what the
    tree of its cell has come to. -/
structure Unfolds (g : Nat → Tree) (s : State) : Prop where
  cells : ∀ (a : Nat) (c : Cell), s.heap[a]? = some c → c.Holds g (g a)
  waiting : ∀ above t below, s.stack.frames = above ++ .update t :: below →
    ∃ k, treeMachine.Steps k ⟨.force (g t), []⟩ ⟨s.focus.over g, framesOver g above⟩

section Fits

variable {g g' : Nat → Tree}

theorem Cell.Holds.congr {c : Cell} {t : Tree} (h : ∀ r ∈ c.refs, g r = g' r) (hc : c.Holds g t) :
    c.Holds g' t := by
  cases c with
  | suspended code env =>
    have he : env.map g = env.map g' := List.map_congr_left h
    rwa [Cell.Holds, ← he]
  | application func arg =>
    have hf : g func = g' func := h func (by simp [Cell.refs])
    have ha : g arg = g' arg := h arg (by simp [Cell.refs])
    rwa [Cell.Holds, ← hf, ← ha]
  | underEvaluation => trivial
  | value v => rwa [Cell.Holds, ← Value.over_congr h]

/-- A cell holds its own tree. -/
theorem Cell.holds_over (c : Cell) : c.Holds g (c.over g) := by
  cases c with
  | suspended code env => rfl
  | application func arg => rfl
  | underEvaluation => trivial
  | value v => exact ⟨0, .single rfl⟩

/-- A saturated combinator acts on trees as it does on cells. -/
theorem next_handover {b : Builtin} {args : List Nat} {a : Nat} {cells : List Cell} {o : Handover}
    {h : Heap} {p : Printed}
    (hroots : ∀ r ∈ State.refs ⟨.give (.primitive b args), .ofList [.apply a], h, p⟩, r < h.size)
    (hb : ¬ args.length + 1 < b.collects) (hs : b.isStrict = false)
    (ho : handover? b (args ++ [a]) h.size = some (cells, o)) :
    treeMachine.next (State.over g ⟨.give (.primitive b args), .ofList [.apply a], h, p⟩) =
      .inl (o.over (assign g h.size cells)) := by
  have hargs : ∀ r ∈ args ++ [a], r < h.size := by
    intro r hr
    exact hroots r (by simpa [State.refs, Focus.refs, Value.refs, Frame.refs] using hr)
  have htree := handoverTree_map (g := g) hargs ho
  rw [List.map_append, List.map_singleton] at htree
  simp [treeMachine, State.over, Focus.over, Value.over, giveTree, actTree, hb, hs, htree, resume,
    TreeState.onto]

/-- **A rule that keeps every cell is some steps without memory.** -/
theorem Plain.tree {l l' : State} {cells : List Cell} (hl : Plain l l') (hF : Fresh l l' cells)
    (hroots : ∀ r ∈ l.refs, r < l.heap.size)
    (hcells : ∀ (a : Nat) (c : Cell), l.heap[a]? = some c → c.Holds g (g a)) :
    ∃ k, treeMachine.Steps (k + 1) (l.over g) (l'.over (assign g l.heap.size cells)) := by
  have hheap := hF.heap
  -- the rules without new cells
  have hsame (hh : l'.heap = l.heap) (k : Nat)
      (hk : treeMachine.Steps (k + 1) (l.over g) (l'.over g)) :
      ∃ k, treeMachine.Steps (k + 1) (l.over g) (l'.over (assign g l.heap.size cells)) := by
    obtain rfl : cells = [] := by
      refine Heap.extend_inj (h := l.heap) ?_
      rw [← hheap, hh, Heap.extend_nil]
    exact ⟨k, hk⟩
  cases hl with
  | lookup i env a h p hi =>
    refine hsame rfl 0 (.single ?_)
    simp [treeMachine, State.over, Focus.over, evalTree, hi, resume, TreeState.onto]
  | literal code env v h p hv =>
    refine hsame rfl 0 (.single ?_)
    cases code <;> cases hv <;>
      simp [treeMachine, State.over, Focus.over, evalTree, Value.over, resume, TreeState.onto]
  | argument f x env cells' a h p hx =>
    obtain rfl : cells' = cells := Heap.extend_inj hheap
    have hkeep : env.map (assign g h.size cells') = env.map g := by
      refine List.map_congr_left fun r hr => assign_of_lt (hroots r ?_)
      simpa [State.refs, Focus.refs] using hr
    refine ⟨0, .single ?_⟩
    simp [treeMachine, State.over, Focus.over, evalTree, argumentTree_map hx, hkeep, resume,
      TreeState.onto]
  | known a v h p ha =>
    obtain ⟨k, hk⟩ := hcells a _ ha
    exact hsame rfl k hk
  | closure body env a h p =>
    refine hsame rfl 0 (.single ?_)
    simp [treeMachine, State.over, Focus.over, Value.over, giveTree, resume, TreeState.onto]
  | collect b args a h p hb =>
    refine hsame rfl 0 (.single ?_)
    simp [treeMachine, State.over, Focus.over, Value.over, giveTree, actTree, hb, resume,
      TreeState.onto]
  | strictFirst b args a next pending h p hb hs hn =>
    refine hsame rfl 0 (.single ?_)
    have hmap : args.map g ++ [g a] = g next :: pending.map g := by
      rw [← List.map_cons, ← hn, List.map_append]
      rfl
    have hlen : ¬ (g next :: pending.map g).length < b.collects := by
      rw [← hmap]
      simpa using hb
    simp only [treeMachine, State.over, Focus.over, Value.over, giveTree, framesOver_apply,
      framesOver_nil, Stack.frames_ofList, hmap, actTree]
    rw [if_neg hlen, if_pos hs]
    rfl
  | call b args a cells' f xs h p hb hs ho =>
    obtain rfl : cells' = cells := Heap.extend_inj hheap
    refine ⟨0, .single ((next_handover hroots hb hs ho).trans ?_)⟩
    simp [State.over, Focus.over, Handover.over]
  | result b args a cells' v h p hb hs ho =>
    obtain rfl : cells' = cells := Heap.extend_inj hheap
    exact ⟨0, .single (next_handover hroots hb hs ho)⟩
  | strictNext b forced next pending v h p =>
    refine hsame rfl 0 (.single ?_)
    simp [treeMachine, State.over, Focus.over, giveTree, resume, TreeState.onto]
  | strictLast b forced v w h p p' hr =>
    refine hsame rfl 0 (.single ?_)
    have htree := strictTree_map (g := g) b (forced ++ [v]) p
    rw [hr, List.map_append, List.map_singleton] at htree
    simp [treeMachine, State.over, Focus.over, giveTree, htree, Except.map, resume, TreeState.onto]

/-- **The rules that keep every cell**, whatever lies below. -/
theorem Unfolds.plain {l l' : State} {below : List Frame} (hu : Unfolds g (l.onto below))
    (ho : Orderly (l.onto below)) (hl : Plain l l') :
    ∃ g' k, Unfolds g' (l'.onto below) ∧
      treeMachine.Steps (k + 1) ((l.onto below).over g) ((l'.onto below).over g') := by
  obtain ⟨cells, hF⟩ := hl.fresh
  obtain ⟨k, hk⟩ := hl.tree hF ho.top_roots hu.cells
  have hkeep : ∀ r, r < l.heap.size → g r = assign g l.heap.size cells r :=
    fun r hr => (assign_of_lt hr).symm
  have hbelow : ∀ r ∈ below.flatMap Frame.refs, r < l.heap.size :=
    fun r hr => ho.roots r (mem_refs_onto.mpr (.inr hr))
  -- the same steps above any of the frames
  have hsteps : ∀ mid : List Frame, (∀ r ∈ mid.flatMap Frame.refs, r < l.heap.size) →
      treeMachine.Steps (k + 1) ((l.onto mid).over g)
        ((l'.onto mid).over (assign g l.heap.size cells)) := by
    intro mid hmid
    rw [State.over_onto, State.over_onto, ← framesOver_congr fun r hr => hkeep r (hmid r hr)]
    exact treeMachine_onto hk (framesOver g mid)
  refine ⟨assign g l.heap.size cells, k, ⟨fun a c hc => ?_, fun above t rest hf => ?_⟩,
    hsteps below hbelow⟩
  · rw [State.heap_onto, hF.heap, Heap.getElem?_extend] at hc
    split at hc
    · rename_i ha
      rw [← hkeep a ha]
      exact (hu.cells a c hc).congr fun r hr => hkeep r (ho.bounded a c hc r hr)
    · rename_i ha
      have hnew := assign_new (g := g) ho.leads_lt hF.draws hc
      rw [Nat.add_sub_cancel' (Nat.le_of_not_lt ha)] at hnew
      rw [hnew]
      exact c.holds_over
  · obtain ⟨mid, rfl, rfl⟩ := split_update hF.after hf
    obtain ⟨j, hj⟩ := hu.waiting (l.stack.frames ++ mid) t rest (by simp)
    rw [List.flatMap_append] at hbelow
    have ht : t < l.heap.size := hbelow t (by simp [Frame.refs])
    have hmid : ∀ r ∈ mid.flatMap Frame.refs, r < l.heap.size :=
      fun r hr => hbelow r (List.mem_append_left _ hr)
    refine ⟨j + (k + 1), ?_⟩
    rw [← hkeep t ht]
    exact hj.trans (hsteps mid hmid)

/-- A demanded tree opens above any frames. -/
theorem next_force {t : Tree} {focus : Focus} {pushed : List Frame}
    (ht : forceTree t = ⟨focus.over g, framesOver g pushed⟩) (fs : List Frame) :
    treeMachine.next ⟨.force t, framesOver g fs⟩ =
      .inl ⟨focus.over g, framesOver g (pushed ++ fs)⟩ := by
  simp [treeMachine, ht, TreeState.onto]

/-- **A demand that marks its cell.** -/
theorem Unfolds.enter {a : Nat} {fs : List Frame} {h : Heap} {p : Printed} {focus : Focus}
    (hu : Unfolds g ⟨.force a, .ofList fs, h, p⟩) (pushed : List Frame)
    (hp : ∀ b, Frame.update b ∉ pushed)
    (ht : forceTree (g a) = ⟨focus.over g, framesOver g pushed⟩) :
    Unfolds g ⟨focus, .ofList (pushed ++ .update a :: fs), h.write a .underEvaluation, p⟩ := by
  refine ⟨fun b c hc => ?_, fun above t rest hf => ?_⟩
  · rw [Heap.getElem?_write] at hc
    split at hc
    · cases hc
      trivial
    · exact hu.cells b c hc
  · obtain ⟨mid, rfl, hmid⟩ := split_update hp hf
    -- the frame is the new one, or an old one below it
    rcases List.cons_eq_append_iff.mp hmid with ⟨rfl, e⟩ | ⟨mid', rfl, rfl⟩
    · cases e
      exact ⟨1, .single (next_force ht [])⟩
    · obtain ⟨k, hk⟩ := hu.waiting mid' t rest rfl
      refine ⟨k + 1, hk.tail ?_⟩
      rw [framesOver_append, framesOver_update, ← framesOver_append]
      exact next_force ht mid'

/-- **A value that fills its cell.** -/
theorem Unfolds.fill {a : Nat} {v : Value} {fs : List Frame} {h : Heap} {p : Printed}
    (hu : Unfolds g ⟨.give v, .ofList (.update a :: fs), h, p⟩) :
    Unfolds g ⟨.give v, .ofList fs, h.write a (.value v), p⟩ := by
  refine ⟨fun b c hc => ?_, fun above t rest hf => ?_⟩
  · rw [Heap.getElem?_write] at hc
    split at hc
    · rename_i e
      cases hc
      obtain ⟨k, hk⟩ := hu.waiting [] a fs rfl
      rw [e.1]
      cases k with
      | zero =>
        -- a demand is not yet a value
        generalize hs : TreeState.mk (.force (g a)) [] = s at hk
        cases hk
        cases hs
      | succ k => exact ⟨k, hk⟩
    · exact hu.cells b c hc
  · exact hu.waiting (.update a :: above) t rest (congrArg (List.cons _) hf)

/-- **A state without a rule has none without memory either**, unless it demands a cell under
    evaluation. -/
theorem Blocked.tree {l : State} {fault : Fault} (hl : Blocked l fault) (below : List Frame)
    (hforced : ∀ a, l.focus = .force a → ∃ c, l.heap[a]? = some c ∧ c ≠ .underEvaluation) :
    treeMachine.next ((l.onto below).over g) = .inr (.error fault) := by
  rw [State.over_onto]
  cases hl with
  | unbound i env h p hi =>
    simp [treeMachine, State.over, Focus.over, evalTree, hi, resume, TreeState.onto]
  | argument f x env fault h p hx =>
    simp [treeMachine, State.over, Focus.over, evalTree, argumentTree_map_error hx, resume,
      TreeState.onto]
  | entered a h p ha =>
    obtain ⟨c, hc, hne⟩ := hforced a rfl
    rcases ha with ha | ha
    · exact absurd (Option.some.inj (hc.symm.trans ha)) hne
    · cases hc.symm.trans ha
  | number n a h p =>
    simp [treeMachine, State.over, Focus.over, Value.over, giveTree, resume, TreeState.onto]
  | string s a h p =>
    simp [treeMachine, State.over, Focus.over, Value.over, giveTree, resume, TreeState.onto]
  | handover b args a h p hb hs ho =>
    have htree := handoverTree_map_none (g := g) ho
    rw [List.map_append, List.map_singleton] at htree
    simp [treeMachine, State.over, Focus.over, Value.over, giveTree, actTree, hb, hs, htree, resume,
      TreeState.onto]
  | strictLast b forced v fault h p hr =>
    have htree := strictTree_map (g := g) b (forced ++ [v]) p
    rw [hr, List.map_append, List.map_singleton] at htree
    simp [treeMachine, State.over, Focus.over, giveTree, htree, Except.map, resume, TreeState.onto]

end Fits

end CallByNeed
