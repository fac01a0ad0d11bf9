/-
  File:      CallByNeed/Proofs/Machine/Acyclic.lean
  Subject:   No cell ever leads back to itself, and no cell ever demands itself.

  A filled cell may refer to cells younger than itself, so the order in which cells are made says
  nothing. What holds in every state is `Orderly`: memory has no cycles, and a cell under evaluation
  cannot be reached from anything above the frame that waits for its value. The value comes from
  above, so when it is kept it does not lead back to its cell.

  * `State.refs`, `State.Leads` -- the cells a state refers to, and those it leads to;
  * `Fresh`, `Plain.fresh` -- what a rule that keeps every cell does to memory;
  * `Orderly` and `Orderly.move` -- the invariant and one rule;
  * `thunk_graph_acyclic` -- it holds throughout every run, which therefore never fails with
    `infiniteLoop`.
-/
import CallByNeed.Proofs.Heap.Graph
import CallByNeed.Proofs.Machine.Runs

namespace CallByNeed

/-! ## 1. What a rule that keeps every cell does to memory -/

/-- The cells that a state refers to, memory apart. -/
def State.refs (s : State) : List Nat := s.focus.refs ++ s.stack.frames.flatMap Frame.refs

/-- The cells that a state leads to. -/
def State.Leads (s : State) (r : Nat) : Prop := ∃ q ∈ s.refs, s.heap.Reaches q r

theorem State.leads_of_mem {s : State} {r : Nat} (hr : r ∈ s.refs) : s.Leads r := ⟨r, hr, .refl⟩

/-- The cells that a combinator's outcome refers to. -/
def Handover.refs : Handover → List Nat
  | .call f xs => f :: xs
  | .result v => v.refs

/-- A combinator hands on its arguments and new cells that hold them. -/
theorem handover?_refs {b : Builtin} {args : List Nat} {n : Nat} {cells : List Cell} {o : Handover}
    (ho : handover? b args n = some (cells, o)) :
    Heap.Draws (· ∈ args) n cells ∧
      (∀ r ∈ o.refs, r ∈ args ∨ (n ≤ r ∧ r < n + cells.length)) ∧
      ∀ c ∈ cells, c ≠ .underEvaluation := by
  unfold handover? at ho
  split at ho <;> cases ho
  all_goals
    simp [Heap.Draws, Cell.refs, Value.refs, Handover.refs]

/-- An argument draws on its environment. -/
theorem argument?_refs {x : Code} {env : Env} {n a : Nat} {cells : List Cell}
    (hx : argument? x env n = .ok (cells, a)) :
    Heap.Draws (· ∈ env) n cells ∧ (a ∈ env ∨ (n ≤ a ∧ a < n + cells.length)) ∧
      ∀ c ∈ cells, c ≠ .underEvaluation := by
  cases x with
  | var i =>
    simp only [argument?] at hx
    cases hi : env[i]? with
    | none =>
      rw [hi] at hx
      cases hx
    | some b =>
      rw [hi] at hx
      cases hx
      exact ⟨trivial, .inl (List.mem_of_getElem? hi), by simp⟩
  | _ =>
    cases hx
    simp [Heap.Draws, Cell.refs, Value.refs]

@[simp] theorem flatMap_refs_apply (xs : List Nat) :
    (xs.map Frame.apply).flatMap Frame.refs = xs := by
  induction xs with
  | nil => rfl
  | cons x xs ih =>
    rw [List.map_cons, List.flatMap_cons, ih]
    rfl

/-- A primitive that takes an argument leads to it and to those it has. -/
theorem leads_of_args {b : Builtin} {args : List Nat} {a r : Nat} {h : Heap} {p : Printed}
    (hr : r ∈ args ++ [a]) :
    State.Leads ⟨.give (.primitive b args), .ofList [.apply a], h, p⟩ r :=
  State.leads_of_mem (by simpa [State.refs, Focus.refs, Value.refs, Frame.refs] using hr)

/-- What a rule that keeps every cell does: new `cells` draw on what the top of the stack leads to,
    and so does the new top. -/
structure Fresh (l l' : State) (cells : List Cell) : Prop where
  heap : l'.heap = l.heap.extend cells
  draws : Heap.Draws l.Leads l.heap.size cells
  refs : ∀ r ∈ l'.refs, l.Leads r ∨ (l.heap.size ≤ r ∧ r < l'.heap.size)
  unmarked : ∀ c ∈ cells, c ≠ .underEvaluation
  before : ∀ a, Frame.update a ∉ l.stack.frames
  after : ∀ a, Frame.update a ∉ l'.stack.frames

/-- A rule without new cells. -/
theorem Fresh.same {focus focus' : Focus} {fs fs' : List Frame} {h : Heap} {p p' : Printed}
    (hr : ∀ r ∈ State.refs ⟨focus', .ofList fs', h, p'⟩, State.Leads ⟨focus, .ofList fs, h, p⟩ r)
    (hfs : ∀ a, Frame.update a ∉ fs) (hfs' : ∀ a, Frame.update a ∉ fs') :
    Fresh ⟨focus, .ofList fs, h, p⟩ ⟨focus', .ofList fs', h, p'⟩ [] :=
  ⟨rfl, trivial, fun r h => .inl (hr r h), by simp, hfs, hfs'⟩

/-- A combinator that hands on its arguments. -/
theorem Fresh.handover {b : Builtin} {args : List Nat} {a : Nat} {cells : List Cell} {o : Handover}
    {h : Heap} {p : Printed} {l' : State} (ho : handover? b (args ++ [a]) h.size = some (cells, o))
    (hheap : l'.heap = h.extend cells) (hrefs : l'.refs = o.refs)
    (hfs : ∀ a, Frame.update a ∉ l'.stack.frames) :
    Fresh ⟨.give (.primitive b args), .ofList [.apply a], h, p⟩ l' cells := by
  obtain ⟨hd, hr, hm⟩ := handover?_refs ho
  refine ⟨hheap, hd.mono fun r => leads_of_args, fun r hr' => ?_, hm, by simp, hfs⟩
  rw [hheap, Heap.size_extend]
  rw [hrefs] at hr'
  exact (hr r hr').imp_left leads_of_args

/-- **What the rules that keep every cell do to memory.** -/
theorem Plain.fresh {l l' : State} (hl : Plain l l') : ∃ cells, Fresh l l' cells := by
  cases hl with
  | lookup i env a h p hi =>
    refine ⟨[], .same (fun r hr => State.leads_of_mem ?_) (by simp) (by simp)⟩
    obtain rfl : r = a := by simpa [State.refs, Focus.refs] using hr
    simpa [State.refs, Focus.refs] using List.mem_of_getElem? hi
  | literal code env v h p hv =>
    refine ⟨[], .same (fun r hr => State.leads_of_mem ?_) (by simp) (by simp)⟩
    cases code <;> cases hv <;> simp_all [State.refs, Focus.refs, Value.refs]
  | argument f x env cells a h p hx =>
    obtain ⟨hd, ha, hm⟩ := argument?_refs hx
    have henv : ∀ r ∈ env, State.Leads ⟨.eval (.apply f x) env, .ofList [], h, p⟩ r := by
      intro r hr
      exact State.leads_of_mem (by simpa [State.refs, Focus.refs] using hr)
    refine ⟨cells, rfl, hd.mono henv, fun r hr => ?_, hm, by simp, by simp⟩
    simp only [State.refs, Focus.refs, Stack.frames_ofList, List.flatMap_cons, Frame.refs,
      List.flatMap_nil, List.mem_append, List.mem_cons, List.not_mem_nil, or_false] at hr
    rcases hr with hr | rfl
    · exact .inl (henv r hr)
    · rw [Heap.size_extend]
      exact ha.imp_left (henv r)
  | known a v h p ha =>
    refine ⟨[], .same (fun r hr => ?_) (by simp) (by simp)⟩
    refine ⟨a, by simp [State.refs, Focus.refs], .single ⟨_, ha, ?_⟩⟩
    simpa [State.refs, Focus.refs, Cell.refs] using hr
  | closure body env a h p =>
    refine ⟨[], .same (fun r hr => State.leads_of_mem ?_) (by simp) (by simp)⟩
    simp only [State.refs, Focus.refs, Value.refs, Frame.refs, Stack.frames_ofList,
      List.flatMap_cons, List.flatMap_nil, List.mem_append, List.mem_cons, List.not_mem_nil,
      or_false] at hr ⊢
    exact hr.symm
  | collect b args a h p hb =>
    refine ⟨[], .same (fun r hr => leads_of_args ?_) (by simp) (by simp)⟩
    simpa [State.refs, Focus.refs, Value.refs] using hr
  | strictFirst b args a next pending h p hb hs hn =>
    refine ⟨[], .same (fun r hr => leads_of_args ?_) (by simp) (by simp)⟩
    rw [hn]
    simpa [State.refs, Focus.refs, Frame.refs] using hr
  | call b args a cells f xs h p hb hs ho =>
    exact ⟨cells, .handover ho rfl (by simp [State.refs, Focus.refs, Handover.refs]) (by simp)⟩
  | result b args a cells v h p hb hs ho =>
    exact ⟨cells, .handover ho rfl (by simp [State.refs, Focus.refs, Handover.refs]) (by simp)⟩
  | strictNext b forced next pending v h p =>
    refine ⟨[], .same (fun r hr => State.leads_of_mem ?_) (by simp) (by simp)⟩
    simp only [State.refs, Focus.refs, Frame.refs, Stack.frames_ofList, List.flatMap_cons,
      List.flatMap_nil, List.flatMap_append, List.mem_append, List.mem_cons, List.not_mem_nil,
      or_false] at hr ⊢
    rcases hr with rfl | (hr | hr) | hr
    · exact .inr (.inr (.inl rfl))
    · exact .inr (.inl hr)
    · exact .inl hr
    · exact .inr (.inr (.inr hr))
  | strictLast b forced v w h p p' hr =>
    refine ⟨[], .same (fun r hw => ?_) (by simp) (by simp)⟩
    simp [State.refs, Focus.refs, strictEffect_refs hr] at hw

/-! ## 2. The invariant -/

/-- Memory has no cycles, and a cell under evaluation is out of reach for what lies above the frame
    that waits for its value. -/
structure Orderly (s : State) : Prop where
  bounded : s.heap.Bounded
  roots : ∀ r ∈ s.refs, r < s.heap.size
  acyclic : s.heap.Acyclic
  waiting : ∀ above t below, s.stack.frames = above ++ .update t :: below →
    s.heap[t]? = some .underEvaluation ∧
      ∀ r ∈ s.focus.refs ++ above.flatMap Frame.refs, ¬ s.heap.Reaches r t
  marked : ∀ a : Nat, s.heap[a]? = some .underEvaluation → Frame.update a ∈ s.stack.frames

theorem orderly_start (code : Code) : Orderly (State.start code) where
  bounded a c hc := by simp [State.start] at hc
  roots r hr := by simp [State.start, State.refs, Focus.refs, Stack.empty] at hr
  acyclic := by
    rw [Heap.acyclic_iff]
    rintro a b ⟨c, hc, _⟩
    simp [State.start] at hc
  waiting above t below hf := by simp [State.start, Stack.empty] at hf
  marked a ha := by simp [State.start] at ha

theorem mem_refs_onto {l : State} {below : List Frame} {r : Nat} :
    r ∈ (l.onto below).refs ↔ r ∈ l.refs ∨ r ∈ below.flatMap Frame.refs := by
  simp only [State.refs, State.focus_onto, State.frames_onto, List.flatMap_append,
    List.mem_append, or_assoc]

/-- An update frame below frames of other kinds. -/
theorem split_update {pushed below above rest : List Frame} {t : Nat}
    (hp : ∀ a, Frame.update a ∉ pushed) (he : pushed ++ below = above ++ .update t :: rest) :
    ∃ mid, above = pushed ++ mid ∧ below = mid ++ .update t :: rest := by
  rcases List.append_eq_append_iff.mp he with ⟨mid, h₁, h₂⟩ | ⟨mid, h₁, h₂⟩
  · exact ⟨mid, h₁, h₂⟩
  · cases mid with
    | nil => exact ⟨[], by simpa using h₁.symm, by simpa using h₂.symm⟩
    | cons f mid =>
      obtain ⟨rfl, _⟩ := List.cons_eq_cons.mp h₂
      exact absurd (by simp [h₁]) (hp t)

theorem Orderly.top_roots {l : State} {below : List Frame} (ho : Orderly (l.onto below)) :
    ∀ r ∈ l.refs, r < l.heap.size :=
  fun r hr => ho.roots r (mem_refs_onto.mpr (.inl hr))

theorem Orderly.leads_lt {l : State} {below : List Frame} (ho : Orderly (l.onto below)) :
    ∀ r, l.Leads r → r < l.heap.size := by
  rintro r ⟨q, hq, hqr⟩
  exact ho.bounded.lt_of_reaches (ho.top_roots q hq) hqr

/-- The rules that keep every cell keep the order. -/
theorem Orderly.plain {l l' : State} {below : List Frame} (ho : Orderly (l.onto below))
    (hl : Plain l l') : Orderly (l'.onto below) := by
  obtain ⟨cells, hF⟩ := hl.fresh
  have hb : l.heap.Bounded := ho.bounded
  have hE : Heap.Extends l.heap l'.heap := by
    rw [hF.heap]
    exact Heap.extends_extend hb ho.leads_lt hF.draws
  refine ⟨hE.bounded, fun r hr => ?_, hE.acyclic ho.acyclic, fun above t rest hf => ?_,
    fun a ha => ?_⟩
  · rcases mem_refs_onto.mp hr with hr | hr
    · rcases hF.refs r hr with hr | ⟨_, hr⟩
      · exact Nat.lt_of_lt_of_le (ho.leads_lt r hr) hE.le
      · exact hr
    · exact Nat.lt_of_lt_of_le (ho.roots r (mem_refs_onto.mpr (.inr hr))) hE.le
  · obtain ⟨mid, rfl, rfl⟩ := split_update hF.after hf
    obtain ⟨ht, hw⟩ := ho.waiting (l.stack.frames ++ mid) t rest (by simp)
    rw [List.flatMap_append] at hw
    have hlt : t < l.heap.size := (Array.getElem?_eq_some_iff.mp ht).1
    have hlead : ∀ r, l.Leads r → r < l.heap.size ∧ ¬ l.heap.Reaches r t := by
      rintro r ⟨q, hq, hqr⟩
      refine ⟨ho.leads_lt r ⟨q, hq, hqr⟩, fun hrt => hw q ?_ (hqr.trans hrt)⟩
      rw [← List.append_assoc]
      exact List.mem_append_left _ hq
    refine ⟨?_, fun r hr hrt => ?_⟩
    · show l'.heap[t]? = _
      rw [hF.heap, Heap.getElem?_extend, if_pos hlt]
      exact ht
    · rw [List.flatMap_append, ← List.append_assoc] at hr
      rcases List.mem_append.mp hr with hr | hr
      · have hnot := Heap.not_reaches_extend hb hlead hlt hF.draws r
        rw [← hF.heap] at hnot
        exact hnot (hF.refs r hr) hrt
      · have hmem : r ∈ (mid ++ .update t :: rest).flatMap Frame.refs := by
          rw [List.flatMap_append]
          exact List.mem_append_left _ hr
        have hrlt := ho.roots r (mem_refs_onto.mpr (.inr hmem))
        exact hw r (List.mem_append_right _ (List.mem_append_right _ hr)) (hE.old r t hrlt hrt)
  · have ha' : (l.heap.extend cells)[a]? = some .underEvaluation := by
      rw [← hF.heap]
      exact ha
    rw [Heap.getElem?_extend] at ha'
    split at ha'
    · rcases List.mem_append.mp (ho.marked a ha') with hm | hm
      · exact absurd hm (hF.before a)
      · exact List.mem_append_right _ hm
    · exact absurd rfl (hF.unmarked _ (List.mem_of_getElem? ha'))

/-- What a cell refers to may take its place above the stack. -/
theorem Orderly.demand {a : Nat} {c : Cell} {focus : Focus} {fs : List Frame} {h : Heap}
    {p : Printed} (ho : Orderly ⟨.force a, .ofList fs, h, p⟩) (pushed : List Frame)
    (ha : h[a]? = some c) (hp : ∀ b, Frame.update b ∉ pushed)
    (hr : ∀ r ∈ focus.refs ++ pushed.flatMap Frame.refs, r ∈ c.refs) :
    Orderly ⟨focus, .ofList (pushed ++ fs), h, p⟩ := by
  have hedge : ∀ r ∈ focus.refs ++ pushed.flatMap Frame.refs, h.Edge a r :=
    fun r hm => ⟨c, ha, hr r hm⟩
  refine ⟨ho.bounded, fun r hm => ?_, ho.acyclic, fun above t rest hf => ?_, fun b hb => ?_⟩
  · simp only [State.refs, Stack.frames_ofList, List.flatMap_append, ← List.append_assoc] at hm
    rcases List.mem_append.mp hm with hm | hm
    · exact ho.bounded.lt_of_edge (hedge r hm)
    · exact ho.roots r (List.mem_append_right _ hm)
  · obtain ⟨mid, rfl, rfl⟩ := split_update hp hf
    obtain ⟨ht, hw⟩ := ho.waiting mid t rest rfl
    refine ⟨ht, fun r hm hrt => ?_⟩
    rw [List.flatMap_append, ← List.append_assoc] at hm
    rcases List.mem_append.mp hm with hm | hm
    · exact hw a (by simp [Focus.refs]) (.head (hedge r hm) hrt)
    · exact hw r (List.mem_append_right _ hm) hrt
  · exact List.mem_append_right _ (ho.marked b hb)

/-- A suspended cell that is entered is out of reach for its own work. -/
theorem Orderly.enter {a : Nat} {c : Cell} {focus : Focus} {fs : List Frame} {h : Heap}
    {p : Printed} (ho : Orderly ⟨.force a, .ofList fs, h, p⟩) (pushed : List Frame)
    (ha : h[a]? = some c) (hc : c ≠ .underEvaluation) (hp : ∀ a, Frame.update a ∉ pushed)
    (hr : ∀ r ∈ focus.refs ++ pushed.flatMap Frame.refs, r ∈ c.refs) :
    Orderly ⟨focus, .ofList (pushed ++ .update a :: fs), h.write a .underEvaluation, p⟩ := by
  have hd : Orderly ⟨focus, .ofList (pushed ++ fs), h, p⟩ := ho.demand pushed ha hp hr
  refine ⟨Heap.bounded_write ho.bounded (by simp [Cell.refs]), fun r hm => ?_,
    Heap.acyclic_mark ho.acyclic, fun above t rest hf => ?_, fun b hb => ?_⟩
  · rw [Heap.size_write]
    simp only [State.refs, Stack.frames_ofList, List.flatMap_append, List.flatMap_cons, Frame.refs,
      List.mem_append, List.mem_cons, List.not_mem_nil, or_false] at hm
    rcases hm with hm | hm | rfl | hm
    · exact hd.roots r (by simp [State.refs, hm])
    · exact hd.roots r (by simp [State.refs, hm])
    · exact ho.roots r (by simp [State.refs, Focus.refs])
    · exact hd.roots r (by simp [State.refs, hm])
  · obtain ⟨mid, rfl, hmid⟩ := split_update hp hf
    -- the frame is the new one, or an old one below it
    rcases List.cons_eq_append_iff.mp hmid with ⟨rfl, e⟩ | ⟨mid', rfl, rfl⟩
    · cases e
      refine ⟨Heap.getElem?_write_self ha, fun r hm hrt => ?_⟩
      rw [List.append_nil] at hm
      exact Heap.acyclic_iff.mp ho.acyclic a r ⟨c, ha, hr r hm⟩ (Heap.reaches_of_mark hrt)
    · obtain ⟨ht, hw⟩ := hd.waiting (pushed ++ mid') t rest (by simp)
      have hne : t ≠ a := by
        rintro rfl
        rw [ha] at ht
        exact hc (Option.some.inj ht)
      refine ⟨?_, fun r hm hrt => ?_⟩
      · rw [Heap.getElem?_write, if_neg (fun e => hne e.1)]
        exact ht
      · have hold := Heap.reaches_of_mark hrt
        simp only [List.flatMap_append, List.flatMap_cons, Frame.refs, List.mem_append,
          List.mem_cons, List.not_mem_nil, or_false] at hm
        rcases hm with hm | hm | rfl | hm
        · exact hw r (by simp [hm]) hold
        · exact hw r (by simp [hm]) hold
        · exact (ho.waiting mid' t rest rfl).2 r (by simp [Focus.refs]) hold
        · exact hw r (by simp [hm]) hold
  · rw [Heap.getElem?_write] at hb
    split at hb
    · rename_i e
      simp [e.1]
    · have hm := ho.marked b hb
      simp only [Stack.frames_ofList] at hm
      simp [hm]

/-- A value does not lead back to the cell that keeps it. -/
theorem Orderly.fill {a : Nat} {v : Value} {fs : List Frame} {h : Heap} {p : Printed}
    (ho : Orderly ⟨.give v, .ofList (.update a :: fs), h, p⟩) :
    Orderly ⟨.give v, .ofList fs, h.write a (.value v), p⟩ := by
  obtain ⟨ha, hv⟩ := ho.waiting [] a fs rfl
  simp only [Focus.refs, List.flatMap_nil, List.append_nil] at hv
  have hroots : ∀ r ∈ v.refs, r < h.size :=
    fun r hr => ho.roots r (by simp [State.refs, Focus.refs, hr])
  refine ⟨Heap.bounded_write ho.bounded hroots, fun r hr => ?_, Heap.acyclic_fill ho.acyclic hv,
    fun above t rest hf => ?_, fun b hb => ?_⟩
  · rw [Heap.size_write]
    refine ho.roots r ?_
    simp only [State.refs, Stack.frames_ofList, List.flatMap_cons, List.mem_append] at hr ⊢
    exact hr.imp_right .inr
  · obtain rfl : fs = above ++ .update t :: rest := hf
    obtain ⟨ht, hw⟩ := ho.waiting (.update a :: above) t rest rfl
    simp only [Focus.refs, List.flatMap_cons, Frame.refs, List.mem_append, List.mem_cons,
      List.not_mem_nil, or_false] at hw
    have hne : t ≠ a := by
      rintro rfl
      exact hw t (.inr (.inl rfl)) .refl
    refine ⟨?_, fun r hr hrt => ?_⟩
    · rw [Heap.getElem?_write, if_neg (fun e => hne e.1)]
      exact ht
    · rcases Heap.reaches_of_fill hrt with hrt | ⟨_, q, hq, hqt⟩
      · exact hw r ((List.mem_append.mp hr).imp_right .inr) hrt
      · exact hw q (.inl hq) hqt
  · rw [Heap.getElem?_write] at hb
    split at hb
    · cases hb
    · rename_i hne
      have halt : a < h.size := (Array.getElem?_eq_some_iff.mp ha).1
      rcases List.mem_cons.mp (ho.marked b hb) with e | hm
      · cases e
        exact absurd ⟨rfl, halt⟩ hne
      · exact hm

/-- **One rule keeps the order.** -/
theorem Orderly.move {s s' : State} (ho : Orderly s) (hm : Move s s') : Orderly s' := by
  cases hm with
  | plain below hl => exact ho.plain hl
  | enterCode a code env fs h p ha =>
    exact ho.enter [] ha (by simp) (by simp) (by simp [Focus.refs, Cell.refs])
  | enterApplication a func arg fs h p ha =>
    exact ho.enter [.apply arg] ha (by simp) (by simp)
      (by simp [Focus.refs, Frame.refs, Cell.refs])
  | fill a v fs h p => exact ho.fill

/-! ## 3. Whole runs -/

theorem Visited.orderly {code : Code} {limits : Limits} {n : Nat} {s : State}
    (hv : Visited code limits n s) : Orderly s :=
  hv.induction (orderly_start code) fun _ _ hm ho => ho.move hm

/-- A cell that is demanded exists and is not under evaluation. -/
theorem Orderly.forced {s : State} (ho : Orderly s) {a : Nat} (hf : s.focus = .force a) :
    ∃ c, s.heap[a]? = some c ∧ c ≠ .underEvaluation := by
  have hmem : a ∈ s.focus.refs := by simp [hf, Focus.refs]
  have halt : a < s.heap.size := ho.roots a (List.mem_append_left _ hmem)
  obtain ⟨c, hc⟩ : ∃ c, s.heap[a]? = some c := ⟨_, Array.getElem?_eq_getElem halt⟩
  refine ⟨c, hc, ?_⟩
  rintro rfl
  obtain ⟨above, below, he⟩ := List.append_of_mem (ho.marked a hc)
  exact (ho.waiting above a below he).2 a (List.mem_append_left _ hmem) .refl

/-- No step of an orderly state finds a loop. -/
theorem Orderly.not_infiniteLoop {s : State} (ho : Orderly s) (p : Printed) :
    step s ≠ .failed .infiniteLoop p := by
  intro hs
  obtain ⟨_, l, below, rfl, hb⟩ := step_eq_failed_iff.mp hs
  generalize hfault : Fault.infiniteLoop = fault at hb
  cases hb with
  | entered a h p ha =>
    obtain ⟨c, hc, hne⟩ := ho.forced rfl
    rcases ha with ha | ha
    · exact hne (Option.some.inj (hc.symm.trans ha))
    · cases hc.symm.trans ha
  | argument f x env fault h p hx =>
    subst hfault
    cases x with
    | var i =>
      simp only [argument?] at hx
      split at hx <;> cases hx
    | _ => cases hx
  | strictLast b forced v fault h p hr =>
    subst hfault
    cases strictEffect_blamesValues hr
  | _ => cases hfault

/-- **The graph of cells has no cycle and no cell demands itself**, in every state that a run of any
    code comes to, under any limits. A cell whose update frame is on the stack cannot be reached
    from the focus or from a frame above; so a demanded cell is never under evaluation, and no run
    fails with `infiniteLoop`. -/
theorem thunk_graph_acyclic (code : Code) (limits : Limits) :
    (∀ n s, Visited code limits n s →
      s.heap.Acyclic ∧
      (∀ above t below, s.stack.frames = above ++ .update t :: below →
        (∀ r ∈ s.focus.refs, ¬ s.heap.Reaches r t) ∧
        ∀ f ∈ above, ∀ r ∈ f.refs, ¬ s.heap.Reaches r t) ∧
      ∀ a, s.focus = .force a → ∃ c, s.heap[a]? = some c ∧ c ≠ .underEvaluation) ∧
    (evaluate code limits).ending ≠ .fault .infiniteLoop := by
  refine ⟨fun n s hv => ⟨hv.orderly.acyclic, fun above t below hf => ?_,
    fun a => hv.orderly.forced⟩, fun he => ?_⟩
  · obtain ⟨_, hw⟩ := hv.orderly.waiting above t below hf
    refine ⟨fun r hr => hw r (List.mem_append_left _ hr), fun f hfm r hr => ?_⟩
    exact hw r (List.mem_append_right _ (List.mem_flatMap.mpr ⟨f, hfm, hr⟩))
  · obtain ⟨n, s, p, hv, hs⟩ := evaluate_fault he
    exact hv.orderly.not_infiniteLoop p hs

end CallByNeed
