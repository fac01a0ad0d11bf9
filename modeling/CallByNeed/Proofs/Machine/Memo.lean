/-
  File:      CallByNeed/Proofs/Machine/Memo.lean
  Subject:   Suspended work is done at most once, and its result is kept.

  A cell goes from pending to marked to filled and never back. Between the mark and the value the
  frame that waits for the value lies on the stack, and all that happens meanwhile happens above
  it: the machine does the work of the cell as if there were nothing else on the stack.

  * `Cell.isPending`, `Cell.stage`, `Cell.Later`, `Visited.later` -- a cell's way through a run;
  * `Orderly.count_update` -- the marked cells are those that an update frame waits for, each of
    them once;
  * `Work`, `Episode` -- the work of a pending cell by itself, and its part of a run;
  * `Visited.episode` -- every update frame on the stack belongs to such a part;
  * `suspension_evaluated_once` -- all of this for every run of every code.
-/
import CallByNeed.Proofs.Machine.Acyclic

namespace CallByNeed

/-! ## 1. The way of a cell -/

/-- Whether a cell still waits for its first demand. -/
def Cell.isPending : Cell → Bool
  | .suspended _ _ | .application _ _ => true
  | .underEvaluation | .value _ => false

/-- How far a cell has come: pending, marked, filled. -/
def Cell.stage : Cell → Nat
  | .suspended _ _ | .application _ _ => 0
  | .underEvaluation => 1
  | .value _ => 2

/-- What one step may make of a cell. -/
def Cell.Advances (c c' : Cell) : Prop :=
  c' = c ∨ (c.isPending = true ∧ c' = .underEvaluation) ∨
    (c = .underEvaluation ∧ ∃ v, c' = .value v)

/-- What any number of steps may make of a cell. -/
def Cell.Later (c c' : Cell) : Prop := c' = c ∨ c.stage < c'.stage

theorem Cell.Later.trans {c d e : Cell} (hd : c.Later d) (he : d.Later e) : c.Later e := by
  rcases hd with rfl | hd
  · exact he
  · rcases he with rfl | he
    · exact .inr hd
    · exact .inr (Nat.lt_trans hd he)

theorem Cell.Later.stage_le {c c' : Cell} (h : c.Later c') : c.stage ≤ c'.stage := by
  rcases h with rfl | h
  · exact Nat.le_refl _
  · exact Nat.le_of_lt h

theorem Cell.Advances.later {c c' : Cell} (h : c.Advances c') : c.Later c' := by
  rcases h with rfl | ⟨hc, rfl⟩ | ⟨rfl, v, rfl⟩
  · exact .inl rfl
  · refine .inr ?_
    cases c <;> simp_all [Cell.stage, Cell.isPending]
  · exact .inr (by simp [Cell.stage])

/-- A cell that exists after a write is the written one or as before. -/
theorem Heap.write_advances {h : Heap} {a x : Nat} {c d e : Cell} (ha : h[a]? = some c)
    (hd : c.Advances d) (hx : h[x]? = some e) :
    ∃ e', (h.write a d)[x]? = some e' ∧ e.Advances e' := by
  by_cases hxa : x = a
  · subst hxa
    obtain rfl : c = e := Option.some.inj (ha.symm.trans hx)
    exact ⟨d, Heap.getElem?_write_self ha, hd⟩
  · exact ⟨e, by rw [Heap.getElem?_write, if_neg (fun h => hxa h.1), hx], .inl rfl⟩

/-- **One rule takes a cell one stage on at most.** -/
theorem Move.advances {s s' : State} (ho : Orderly s) (hm : Move s s') {a : Nat} {c : Cell}
    (hc : s.heap[a]? = some c) : ∃ c', s'.heap[a]? = some c' ∧ c.Advances c' := by
  cases hm with
  | plain below hl =>
    obtain ⟨cells, hF⟩ := hl.fresh
    rw [State.heap_onto] at hc ⊢
    refine ⟨c, ?_, .inl rfl⟩
    rw [hF.heap, Heap.getElem?_extend, if_pos (Array.getElem?_eq_some_iff.mp hc).1]
    exact hc
  | enterCode b code env fs h p hb => exact Heap.write_advances hb (.inr (.inl ⟨rfl, rfl⟩)) hc
  | enterApplication b func arg fs h p hb =>
    exact Heap.write_advances hb (.inr (.inl ⟨rfl, rfl⟩)) hc
  | fill b v fs h p =>
    have hb : h[b]? = some .underEvaluation := (ho.waiting [] b fs rfl).1
    exact Heap.write_advances hb (.inr (.inr ⟨rfl, v, rfl⟩)) hc

/-- A cell is not made marked. -/
theorem Move.unmarked {s s' : State} (hm : Move s s') {a : Nat} {c : Cell}
    (ha : s.heap[a]? = none) (hc : s'.heap[a]? = some c) : c ≠ .underEvaluation := by
  have hwrite {h : Heap} {b : Nat} {d : Cell} (h₀ : h[a]? = none)
      (h₁ : (h.write b d)[a]? = some c) : False := by
    have hlt := (Array.getElem?_eq_some_iff.mp h₁).1
    rw [Heap.size_write] at hlt
    exact absurd (Array.getElem?_eq_none_iff.mp h₀) (Nat.not_le_of_lt hlt)
  cases hm with
  | plain below hl =>
    obtain ⟨cells, hF⟩ := hl.fresh
    rw [State.heap_onto] at ha hc
    rw [hF.heap, Heap.getElem?_extend,
      if_neg (Nat.not_lt_of_le (Array.getElem?_eq_none_iff.mp ha))] at hc
    exact hF.unmarked c (List.mem_of_getElem? hc)
  | enterCode => exact (hwrite ha hc).elim
  | enterApplication => exact (hwrite ha hc).elim
  | fill => exact (hwrite ha hc).elim

/-- After a demand the cell is marked or filled. -/
theorem Move.demanded {s s' : State} (hm : Move s s') {a : Nat} (hf : s.focus = .force a) :
    ∃ c, s'.heap[a]? = some c ∧ 0 < c.stage := by
  have hmark {h : Heap} {c : Cell} (ha : h[a]? = some c) :
      ∃ c, (h.write a .underEvaluation)[a]? = some c ∧ 0 < c.stage :=
    ⟨.underEvaluation, Heap.getElem?_write_self ha, by simp [Cell.stage]⟩
  cases hm with
  | plain below hl =>
    cases hl with
    | known b v h p hb =>
      cases hf
      exact ⟨.value v, hb, by simp [Cell.stage]⟩
    | _ => cases hf
  | enterCode b code env fs h p hb =>
    cases hf
    exact hmark hb
  | enterApplication b func arg fs h p hb =>
    cases hf
    exact hmark hb
  | fill => cases hf

/-! ## 2. The frames that wait for a value -/

/-- Only one frame waits for the value of a cell. -/
theorem Orderly.update_once {s : State} (ho : Orderly s) {above below : List Frame} {t : Nat}
    (hf : s.stack.frames = above ++ .update t :: below) :
    Frame.update t ∉ above ∧ Frame.update t ∉ below := by
  have hnot : ∀ above below, s.stack.frames = above ++ .update t :: below →
      Frame.update t ∉ above := by
    intro above below hf hm
    refine (ho.waiting above t below hf).2 t ?_ .refl
    exact List.mem_append_right _ (List.mem_flatMap.mpr ⟨_, hm, by simp [Frame.refs]⟩)
  refine ⟨hnot above below hf, fun hm => ?_⟩
  obtain ⟨mid, rest, rfl⟩ := List.append_of_mem hm
  exact hnot (above ++ .update t :: mid) rest (by simp [hf]) (by simp)

/-- **The marked cells are those that a frame waits for**, each of them one frame. -/
theorem Orderly.count_update {s : State} (ho : Orderly s) (a : Nat) :
    s.stack.frames.count (.update a) = if s.heap[a]? = some .underEvaluation then 1 else 0 := by
  split
  · rename_i ha
    obtain ⟨above, below, hf⟩ := List.append_of_mem (ho.marked a ha)
    obtain ⟨h₁, h₂⟩ := ho.update_once hf
    rw [hf, List.count_append, List.count_cons_self, List.count_eq_zero.mpr h₁,
      List.count_eq_zero.mpr h₂]
  · rename_i ha
    refine List.count_eq_zero.mpr fun hm => ha ?_
    obtain ⟨above, below, hf⟩ := List.append_of_mem hm
    exact (ho.waiting above a below hf).1

/-! ## 3. Whole runs -/

section Runs

variable {code : Code} {limits : Limits} {m n : Nat} {s s' t : State} {a : Nat}

theorem Visited.unique (hs : Visited code limits n s) (ht : Visited code limits n t) : s = t := by
  induction hs generalizing t with
  | start =>
    cases ht
    rfl
  | step _ _ _ hs ih =>
    cases ht with
    | step ht _ _ ht' =>
      obtain rfl := ih ht
      exact Transition.next.inj (hs.symm.trans ht')

/-- Every iteration before a visited one is visited. -/
theorem Visited.earlier (hn : Visited code limits n s) (hmn : m ≤ n) :
    ∃ t, Visited code limits m t := by
  induction hn with
  | start =>
    obtain rfl : m = 0 := Nat.le_zero.mp hmn
    exact ⟨_, .start⟩
  | @step n s s' hv ht hc hs ih =>
    rcases Nat.lt_or_eq_of_le hmn with hlt | rfl
    · exact ih (Nat.le_of_lt_succ hlt)
    · exact ⟨s', .step hv ht hc hs⟩

/-- Two iterations one after the other are one rule apart. -/
theorem Visited.move (hs : Visited code limits n s) (hs' : Visited code limits (n + 1) s') :
    Move s s' := by
  cases hs' with
  | step ht _ _ hm =>
    obtain rfl := hs.unique ht
    exact step_eq_next_iff.mp hm

/-- **A cell goes forward only.** -/
theorem Visited.later (hs : Visited code limits m s) (ht : Visited code limits n t) (hmn : m ≤ n)
    {c : Cell} (hc : s.heap[a]? = some c) : ∃ c', t.heap[a]? = some c' ∧ c.Later c' := by
  induction ht with
  | start =>
    obtain rfl : m = 0 := Nat.le_zero.mp hmn
    cases hs
    exact ⟨c, hc, .inl rfl⟩
  | @step n u u' hu ht hcap hstep ih =>
    rcases Nat.lt_or_eq_of_le hmn with hlt | rfl
    · obtain ⟨d, hd, hcd⟩ := ih (Nat.le_of_lt_succ hlt)
      obtain ⟨d', hd', hdd'⟩ := (step_eq_next_iff.mp hstep).advances hu.orderly hd
      exact ⟨d', hd', hcd.trans hdd'.later⟩
    · obtain rfl := hs.unique (.step hu ht hcap hstep)
      exact ⟨c, hc, .inl rfl⟩

/-- Iteration `n` makes the cell `a` something else. -/
structure Changes (code : Code) (limits : Limits) (n a : Nat) (c c' : Cell) : Prop where
  ne : c' ≠ c
  states : ∃ s s', Visited code limits n s ∧ Visited code limits (n + 1) s' ∧
    s.heap[a]? = some c ∧ s'.heap[a]? = some c'

/-- A cell comes to a stage once. -/
theorem Changes.unique {c c' d d' : Cell} (hm : Changes code limits m a c c')
    (hn : Changes code limits n a d d') (he : c'.stage = d'.stage) : m = n := by
  have hlt : ∀ {m n : Nat} {c c' d d' : Cell}, Changes code limits m a c c' →
      Changes code limits n a d d' → c'.stage = d'.stage → ¬ m < n := by
    intro m n c c' d d' hm hn he hlt
    obtain ⟨_, _, s', _, hs', _, hc'⟩ := hm
    obtain ⟨hne, t, t', ht, ht', hd, hd'⟩ := hn
    obtain ⟨e, hed, hce⟩ := hs'.later ht hlt hc'
    obtain rfl := Option.some.inj (hed.symm.trans hd)
    obtain ⟨e', hed', hee'⟩ := (ht.move ht').advances ht.orderly hd
    obtain rfl := Option.some.inj (hed'.symm.trans hd')
    rcases hee'.later with h | h
    · exact hne h
    · exact absurd (Nat.lt_of_le_of_lt hce.stage_le h) (by omega)
  exact Nat.le_antisymm (Nat.le_of_not_lt (hlt hn hm he.symm)) (Nat.le_of_not_lt (hlt hm hn he))

end Runs

/-! ## 4. The work of a cell -/

/-- `l` is the work of the pending cell `t` of `s`, with no frame to wait for it. -/
inductive Work (s : State) (t : Nat) : State → Prop where
  | suspended (code : Code) (env : Env) (ht : s.heap[t]? = some (.suspended code env)) :
      Work s t ⟨.eval code env, .ofList [], s.heap.write t .underEvaluation, s.printed⟩
  | application (func arg : Addr) (ht : s.heap[t]? = some (.application func arg)) :
      Work s t ⟨.force func, .ofList [.apply arg], s.heap.write t .underEvaluation, s.printed⟩

theorem Work.pending {s l : State} {t : Nat} (hw : Work s t l) :
    ∃ c, s.heap[t]? = some c ∧ c.isPending = true := by
  cases hw with
  | suspended code env ht => exact ⟨_, ht, rfl⟩
  | application func arg ht => exact ⟨_, ht, rfl⟩

/-- **An update frame is below what a rule looks at, or was put there by it.** -/
theorem Move.update_cases {s s' : State} (hm : Move s s') {above below : List Frame} {t : Nat}
    (hf : s'.stack.frames = above ++ .update t :: below) :
    (∃ u u', Move u u' ∧ s = u.onto (.update t :: below) ∧ s' = u'.onto (.update t :: below)) ∨
    (s.focus = .force t ∧ s.stack.frames = below ∧
      ∃ l, Work s t l ∧ s' = l.onto (.update t :: below)) := by
  cases hm with
  | @plain l l' fs hl =>
    obtain ⟨cells, hF⟩ := hl.fresh
    obtain ⟨mid, _, rfl⟩ := split_update hF.after hf
    refine .inl ⟨l.onto mid, l'.onto mid, .plain mid hl, ?_, ?_⟩
    · rw [State.onto_onto]
    · rw [State.onto_onto]
  | enterCode a code env fs h p ha =>
    rcases List.cons_eq_append_iff.mp hf with ⟨_, e⟩ | ⟨mid, _, rfl⟩
    · cases e
      exact .inr ⟨rfl, rfl, _, .suspended code env ha, rfl⟩
    · exact .inl ⟨_, _, .enterCode a code env mid h p ha, rfl, rfl⟩
  | enterApplication a func arg fs h p ha =>
    have hpushed : ∀ b, Frame.update b ∉ [Frame.apply arg] := by simp
    obtain ⟨mid, _, hmid⟩ := split_update hpushed hf
    rcases List.cons_eq_append_iff.mp hmid with ⟨_, e⟩ | ⟨mid', _, rfl⟩
    · cases e
      exact .inr ⟨rfl, rfl, _, .application func arg ha, rfl⟩
    · exact .inl ⟨_, _, .enterApplication a func arg mid' h p ha, rfl, rfl⟩
  | fill a v fs h p =>
    have hf : fs = above ++ .update t :: below := hf
    subst hf
    exact .inl ⟨_, _, .fill a v above h p, rfl, rfl⟩

/-- The work `l` of the cell `t`, taken up by iteration `m` at `s₀`, has come to `u` when iteration
    `n` begins; all the while it lies on the frame that waits for its value, and that frame on the
    stack of `s₀`. -/
structure Episode (code : Code) (limits : Limits) (t m n : Nat) (s₀ l u : State) : Prop where
  visited : Visited code limits m s₀
  demanded : s₀.focus = .force t
  work : Work s₀ t l
  lt : m < n
  steps : needMachine.Steps (n - (m + 1)) l u
  within : ∀ k, m < k → k ≤ n → ∃ w, needMachine.Steps (k - (m + 1)) l w ∧
    Visited code limits k (w.onto (.update t :: s₀.stack.frames))

section Episodes

variable {code : Code} {limits : Limits} {t m n : Nat} {s s₀ l u u' : State}

theorem Episode.start (hv : Visited code limits n s) (hf : s.focus = .force t) (hw : Work s t l)
    (hv' : Visited code limits (n + 1) (l.onto (.update t :: s.stack.frames))) :
    Episode code limits t n (n + 1) s l l := by
  have h₀ : needMachine.Steps (n + 1 - (n + 1)) l l := by
    rw [Nat.sub_self]
    exact .refl l
  refine ⟨hv, hf, hw, Nat.lt_succ_self n, h₀, fun k h₁ h₂ => ?_⟩
  obtain rfl : k = n + 1 := Nat.le_antisymm h₂ h₁
  exact ⟨l, h₀, hv'⟩

theorem Episode.next (he : Episode code limits t m n s₀ l u) (hm : Move u u')
    (hv : Visited code limits (n + 1) (u'.onto (.update t :: s₀.stack.frames))) :
    Episode code limits t m (n + 1) s₀ l u' := by
  have hsteps : needMachine.Steps (n + 1 - (m + 1)) l u' := by
    have hlt := he.lt
    obtain ⟨k, rfl⟩ : ∃ k, n = m + 1 + k := ⟨n - (m + 1), by omega⟩
    have e : m + 1 + k + 1 - (m + 1) = m + 1 + k - (m + 1) + 1 := by omega
    rw [e]
    exact he.steps.tail (needMachine_next_inl.mpr hm)
  refine ⟨he.visited, he.demanded, he.work, Nat.lt_succ_of_lt he.lt, hsteps, fun k h₁ h₂ => ?_⟩
  rcases Nat.lt_or_eq_of_le h₂ with hlt | rfl
  · exact he.within k h₁ (Nat.le_of_lt_succ hlt)
  · exact ⟨u', hsteps, hv⟩

/-- **Every update frame on the stack belongs to the work of its cell**, which lies above it. -/
theorem Visited.episode (hv : Visited code limits n s) {above below : List Frame}
    (hf : s.stack.frames = above ++ .update t :: below) :
    ∃ m s₀ l u, Episode code limits t m n s₀ l u ∧ s₀.stack.frames = below ∧
      s = u.onto (.update t :: below) := by
  induction hv generalizing above with
  | start => simp [State.start, Stack.empty] at hf
  | @step n s s' hv ht hc hs ih =>
    have hv' : Visited code limits (n + 1) s' := .step hv ht hc hs
    have hmove := step_eq_next_iff.mp hs
    rcases hmove.update_cases hf with ⟨u, u', hm, rfl, rfl⟩ | ⟨hfocus, rfl, l, hw, rfl⟩
    · obtain ⟨m, s₀, l, w, he, hbelow, hw⟩ := ih (State.frames_onto u (.update t :: below))
      obtain rfl : u = w := State.onto_inj hw
      refine ⟨m, s₀, l, u', he.next hm ?_, hbelow, rfl⟩
      rw [hbelow]
      exact hv'
    · exact ⟨n, s, l, l, .start hv hfocus hw hv', rfl, rfl⟩

/-- The work is taken up at the first demand. -/
theorem Episode.first (he : Episode code limits t m n s₀ l u) {k : Nat}
    (hk : Visited code limits k s) (hf : s.focus = .force t) : m ≤ k := by
  refine Nat.le_of_not_lt fun hlt => ?_
  obtain ⟨s', hs'⟩ := he.visited.earlier (Nat.succ_le_of_lt hlt)
  obtain ⟨c, hc, hpos⟩ := (hk.move hs').demanded hf
  obtain ⟨d, hd, hlater⟩ := hs'.later he.visited (Nat.succ_le_of_lt hlt) hc
  -- but the cell is still pending when its work is taken up
  obtain ⟨c₀, hc₀, hpend⟩ := he.work.pending
  obtain rfl := Option.some.inj (hd.symm.trans hc₀)
  have hzero : d.stage = 0 := by
    cases d <;> simp_all [Cell.isPending, Cell.stage]
  have hle := hlater.stage_le
  omega

/-- When the value is there, the work by itself gives this value. -/
theorem Episode.result (he : Episode code limits t m n s₀ l u) {v : Value} (hf : u.focus = .give v)
    (hs : u.stack.frames = []) : run none (n - m) 0 l = ⟨.value v, u.printed, n - m⟩ := by
  have hlast : needMachine.next u = .inr (.value v, u.printed) := by
    refine Machine.ofStep_next_inr.mpr (.inl ⟨v, rfl, step_eq_finished_iff.mpr ⟨u.heap, ?_⟩⟩)
    obtain ⟨focus, stack, h, p⟩ := u
    cases hf
    congr 1
    exact Stack.ext hs
  have hlt := he.lt
  have e : n - m = n - (m + 1) + (0 + 1) := by omega
  rw [run_none_eq, e, runBy_of_end he.steps hlast]
  simp

end Episodes

/-- **Suspended work is done at most once**, in every run of any code, under any limits. From one
    iteration to the next a cell stays as it is, or is marked if it was pending, or takes a value
    if it was marked; it is marked once and filled once, and a value stays. At the start of every
    iteration the marked cells are those that the stack holds an update frame for, one for each. And
    when an update frame meets a value, this is the value that the cell's own work, taken up at the
    first demand, gives by itself; meanwhile the stack at that demand lies untouched below the
    frame, and it is the stack with which the run goes on. -/
theorem suspension_evaluated_once (code : Code) (limits : Limits) :
    (∀ n s s', Visited code limits n s → Visited code limits (n + 1) s' → ∀ a : Nat,
      (∀ c, s.heap[a]? = some c → ∃ c', s'.heap[a]? = some c' ∧
        (c' = c ∨ (c.isPending = true ∧ c' = .underEvaluation) ∨
          (c = .underEvaluation ∧ ∃ v, c' = .value v))) ∧
      (∀ c', s.heap[a]? = none → s'.heap[a]? = some c' → c' ≠ .underEvaluation)) ∧
    (∀ a m n c d, Changes code limits m a c .underEvaluation →
      Changes code limits n a d .underEvaluation → m = n) ∧
    (∀ a m n c d v w, Changes code limits m a c (.value v) →
      Changes code limits n a d (.value w) → m = n) ∧
    (∀ m n s t (a : Nat) v, Visited code limits m s → Visited code limits n t → m ≤ n →
      s.heap[a]? = some (.value v) → t.heap[a]? = some (.value v)) ∧
    (∀ n s, Visited code limits n s → ∀ a : Nat,
      s.stack.frames.count (.update a) = if s.heap[a]? = some .underEvaluation then 1 else 0) ∧
    (∀ n s v t below, Visited code limits n s → s.focus = .give v →
      s.stack.frames = .update t :: below →
      ∃ m s₀ l u, Episode code limits t m n s₀ l u ∧ s = u.onto (.update t :: s₀.stack.frames) ∧
        (∀ k r, Visited code limits k r → r.focus = .force t → m ≤ k) ∧
        run none (n - m) 0 l = ⟨.value v, s.printed, n - m⟩ ∧
        ∃ s', step s = .next s' ∧ s'.heap[t]? = some (.value v) ∧ s'.stack = s₀.stack) := by
  refine ⟨fun n s s' hs hs' a => ⟨fun c hc => ?_, fun c' ha hc => ?_⟩, fun a m n c d hm hn => ?_,
    fun a m n c d v w hm hn => ?_, fun m n s t a v hs ht hmn ha => ?_, fun n s hs a => ?_,
    fun n s v t below hs hf hfr => ?_⟩
  · exact (hs.move hs').advances hs.orderly hc
  · exact (hs.move hs').unmarked ha hc
  · exact hm.unique hn rfl
  · exact hm.unique hn rfl
  · obtain ⟨c', hc', hlater⟩ := hs.later ht hmn ha
    rcases hlater with rfl | hlt
    · exact hc'
    · cases c' <;> simp [Cell.stage] at hlt
  · exact hs.orderly.count_update a
  · have hsplit : s.stack.frames = [] ++ .update t :: below := hfr
    obtain ⟨m, s₀, l, u, he, rfl, rfl⟩ := hs.episode hsplit
    have hu : u.stack.frames = [] := by
      simpa using hfr
    have hmarked : u.heap[t]? = some .underEvaluation := (hs.orderly.waiting [] t _ hfr).1
    refine ⟨m, s₀, l, u, he, rfl, fun k r => he.first, he.result hf hu, ?_⟩
    obtain ⟨focus, stack, h, p⟩ := u
    cases hf
    obtain rfl : stack = .ofList [] := Stack.ext hu
    refine ⟨_, step_of_move (.fill t v s₀.stack.frames h p), ?_, ?_⟩
    · exact Heap.getElem?_write_self hmarked
    · simp

end CallByNeed
