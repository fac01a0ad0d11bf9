/-
  File:      CallByNeed/Proofs/LazyLists.lean
  Subject:   Lists in Church's encoding, of which no element is evaluated but the one asked for.

  Without memory it is easy to see which element is forced in the end (`headOf_steps`), but not what
  is printed on the way. With memory it is the other way round. So elements are masked: each of them
  is replaced by an application that fails as soon as it is forced, and says which one it is. A
  program with masked elements runs in lockstep with the program itself until a mask is forced, and
  the machine without memory tells which mask that is and that nothing waits for it any more.

  * `failing`, `masked` -- masks, and a list with all elements masked but one;
  * `Masks` -- a masked cell and the cell in its place; `Parting.steps`: where a mask is forced;
  * `face_of_masks` -- if no mask is forced, the elements make no difference;
  * `headOf_undisturbed`, `emptyOf_undisturbed` -- the elements that are not asked for;
  * `labelled`, `labelled_forces`, `headOf_runs` -- the element that is asked for;
  * `church_lists_lazy` -- all of it.
-/
import CallByNeed.Proofs.ByName.Lists
import CallByNeed.Proofs.Machine.Replay
import CallByNeed.Proofs.Machine.Silence

namespace CallByNeed

/-! ## 1. Masks -/

/-- Code that fails as soon as it is evaluated, with a text of its own. -/
def failing (s : String) : Code := .apply (.string s) (.number 0)

/-- The list with its elements masked, but the one with the number `k` replaced by `f`. -/
def masked (k : Nat) (f : Code → Code) (s : String) (cs : List Code) : List Code :=
  cs.mapIdx fun i c => if i = k then f c else failing s

theorem failing_inScope (s : String) : (failing s).InScope 0 := ⟨trivial, trivial⟩

/-- A mask that is forced ends the run. -/
theorem failing_fails (s : String) (env : List Tree) (fs : List TreeFrame) :
    ∃ t, treeMachine.Steps 3 ⟨.force (.suspended (failing s) env), fs⟩ t ∧
      treeMachine.next t = .inr (.error (.notCallable s)) :=
  ⟨_, .head rfl (.head rfl (.single rfl)), rfl⟩

/-- No two masks are forced in one run. -/
theorem failing_once {t : TreeState} {m m' : Nat} {s s' : String} {env env' : List Tree}
    {fs fs' : List TreeFrame}
    (h : treeMachine.Steps m t ⟨.force (.suspended (failing s) env), fs⟩)
    (h' : treeMachine.Steps m' t ⟨.force (.suspended (failing s') env'), fs'⟩) :
    s = s' ∧ fs = fs' := by
  obtain ⟨u, hu, hend⟩ := failing_fails s env fs
  obtain ⟨u', hu', hend'⟩ := failing_fails s' env' fs'
  have hle := (h.trans hu).le_of_ended hend (h'.trans hu')
  have hge := (h'.trans hu').le_of_ended hend' (h.trans hu)
  obtain rfl : m = m' := by omega
  cases h.unique h'
  exact ⟨rfl, rfl⟩

/-- There is a text with which a run does not fail. -/
theorem exists_unused_text (t : TreeState) :
    ∃ s, ¬ treeMachine.Ends t (.error (.notCallable s)) := by
  by_cases h : treeMachine.Ends t (.error (.notCallable "here"))
  · refine ⟨"there", fun h' => ?_⟩
    have hsame := h.unique h'
    simp at hsame
  · exact ⟨"here", h⟩

section Masked

variable {k : Nat} {f : Code → Code} {s : String} {cs : List Code}

theorem masked_getElem? (i : Nat) :
    (masked k f s cs)[i]? = cs[i]?.map fun c => if i = k then f c else failing s :=
  List.getElem?_mapIdx

theorem masked_forall {P : Code → Prop} (hs : P (failing s)) (hf : ∀ c, cs[k]? = some c → P (f c)) :
    ∀ c ∈ masked k f s cs, P c := by
  intro c hc
  obtain ⟨i, hi⟩ := List.mem_iff_getElem?.mp hc
  rw [masked_getElem?] at hi
  obtain ⟨d, hd, rfl⟩ := Option.map_eq_some_iff.mp hi
  split
  · rename_i hik
    subst hik
    exact hf d hd
  · exact hs

/-- Lists of the same length that agree on one element are the same when the others are masked. -/
theorem masked_congr {ds : List Code} (hlen : ds.length = cs.length) (hk : ds[k]? = cs[k]?) :
    masked k f s ds = masked k f s cs := by
  refine List.ext_getElem? fun i => ?_
  rw [masked_getElem?, masked_getElem?]
  by_cases hi : i = k
  · rw [hi, hk]
  · by_cases hlt : i < cs.length
    · rw [List.getElem?_eq_getElem hlt, List.getElem?_eq_getElem (hlen ▸ hlt)]
      simp [hi]
    · rw [List.getElem?_eq_none (by omega), List.getElem?_eq_none (by omega)]

end Masked

/-! ## 2. Programs with masked elements -/

/-- A masked cell, and the cell in its place. -/
def Masks (R : String → Cell → Prop) (c c' : Cell) : Prop :=
  ∃ s env, c = .suspended (failing s) env ∧ R s c'

/-- A mask can stand in the place of any element that it is meant for. -/
theorem swaps_failing {R : String → Cell → Prop} {s : String} {c : Code} (hc : c.InScope 0)
    (hR : ∀ env, R s (c.cell env)) : Swaps (Masks R) (failing s) c := by
  intro env env' n n'
  exact ⟨_, _, (failing_inScope s).argument? env n, hc.argument? env' n', s, env, rfl, hR env'⟩

/-- Elements of two lists that can stand for each other. -/
def Slot (D : Cell → Cell → Prop) (x x' : Code) : Prop :=
  x.Twin Eq D (fun _ => False) x' ∨ Swaps D x x'

section Slots

variable {D : Cell → Cell → Prop} {cs ds : List Code}

theorem twin_listCode (h : List.Forall₂ (Slot D) cs ds) :
    (listCode cs).Twin Eq D (fun _ => False) (listCode ds) := by
  induction h with
  | nil => exact .builtin _ .nil
  | cons hx _ ih =>
    rcases hx with hx | hx
    · exact .apply (.apply (.builtin _ .append) hx) ih
    · exact .apply (.swapped (.builtin _ .append) hx) ih

theorem twin_tailsCode (h : List.Forall₂ (Slot D) cs ds) (k : Nat) :
    (tailsCode k cs).Twin Eq D (fun _ => False) (tailsCode k ds) := by
  induction k with
  | zero => exact twin_listCode h
  | succ k ih => exact .apply (.builtin _ .tail) ih

theorem twin_headOf (h : List.Forall₂ (Slot D) cs ds) (k : Nat) :
    (headOf k cs).Twin Eq D (fun _ => False) (headOf k ds) :=
  .apply (.builtin _ .head) (twin_tailsCode h k)

theorem twin_emptyOf (h : List.Forall₂ (Slot D) cs ds) (k : Nat) {y n : Code} (hy : y.InScope 0)
    (hn : n.InScope 0) : (emptyOf k cs y n).Twin Eq D (fun _ => False) (emptyOf k ds y n) :=
  .apply (.apply (.apply (.builtin _ .isEmpty) (twin_tailsCode h k)) hy.twin) hn.twin

/-- A list and the list itself with elements masked. -/
theorem slots_masked {k : Nat} {f : Code → Code} {s : String}
    (hk : ∀ c, cs[k]? = some c → Slot D (f c) c) (hother : ∀ c ∈ cs, Slot D (failing s) c) :
    List.Forall₂ (Slot D) (masked k f s cs) cs := by
  refine List.forall₂_iff_get.mpr ⟨List.length_mapIdx, fun i hi hi' => ?_⟩
  simp only [masked, List.get_eq_getElem, List.getElem_mapIdx]
  split
  · rename_i hik
    subst hik
    exact hk _ (List.getElem?_eq_getElem hi')
  · exact hother _ (List.getElem_mem hi')

end Slots

/-- **Where a mask is forced**, the machine without memory forces it too, and what stands in its
    place is forced in the other run. -/
theorem Parting.steps {R : String → Cell → Prop} {P : Code} {n : Nat} {t t' : State}
    (ht : needMachine.Steps n (State.start P) t) (hpart : Parting (Masks R) t t') :
    ∃ m s env fs, treeMachine.Steps m ⟨.eval P [], []⟩ ⟨.force (.suspended (failing s) env), fs⟩ ∧
      (fs = [] → OnlyUpdates t.stack.frames) ∧
      ∃ a' c', t'.focus = .force a' ∧ t'.heap[a']? = some c' ∧ R s c' := by
  obtain ⟨m, _, hm, _, g, hu, rfl⟩ := need_followed.steps (start_byNeed P) ht
  obtain ⟨a, a', _, c', hfocus, hfocus', hc, hc', s, env, rfl, hR⟩ := hpart
  have htree : g a = .suspended (failing s) (env.map g) := hu.cells a _ hc
  refine ⟨m, s, env.map g, framesOver g t.stack.frames, ?_, fun hnil f hf => ?_,
    a', c', hfocus', hc', hR⟩
  · rw [State.over, hfocus, Focus.over, htree] at hm
    exact hm
  · have hnone : f.over? g = none := List.filterMap_eq_nil_iff.mp hnil f hf
    cases f with
    | update b => exact ⟨b, rfl⟩
    | apply b => cases hnone
    | strict b vs xs => cases hnone

/-- **If no mask is forced, the elements make no difference.** -/
theorem face_of_masks {R : String → Cell → Prop} {P Q : Code}
    (htwin : P.Twin Eq (Masks R) (fun _ => False) Q) (hP : P.InScope 0) (hQ : Q.InScope 0)
    (hends : ∀ s c', R s c' → ¬ treeMachine.Ends ⟨.eval P [], []⟩ (.error (.notCallable s)))
    (limits : Limits) : (evaluate P limits).face = (evaluate Q limits).face := by
  refine (twin_start htwin).run (inScope_start hP) (inScope_start hQ) ?_ _ _ _
  intro n t t' ht _ _ hpart
  obtain ⟨m, s, env, fs, hm, _, _, c', _, _, hR⟩ := hpart.steps ht
  obtain ⟨u, hu, hend⟩ := failing_fails s env fs
  exact hends s c' hR (hm.ends ⟨3, u, hu, hend⟩)

/-! ## 3. Literals -/

/-- A number or a string, as code and as a value. -/
inductive Code.Literal : Code → Value → Prop where
  | number (n : Int64) : Literal (.number n) (.number n)
  | string (s : String) : Literal (.string s) (.string s)

section Literals

variable {c d : Code} {v w : Value}

theorem Code.Literal.inScope (h : c.Literal v) : c.InScope 0 := by
  cases h <;> trivial

theorem Code.Literal.printFree (h : c.Literal v) : c.PrintFree := by
  cases h <;> exact List.not_mem_nil

theorem Code.Literal.ite (h : c.Literal v) (h' : d.Literal w) (P : Prop) [Decidable P] :
    (if P then c else d).Literal (if P then v else w) := by
  by_cases hP : P
  · rw [if_pos hP, if_pos hP]
    exact h
  · rw [if_neg hP, if_neg hP]
    exact h'

/-- Without memory a literal that is forced is the result. -/
theorem Code.Literal.ends (h : c.Literal v) :
    ∃ m, treeMachine.Ends ⟨.force c.tree, []⟩ (.ok m) ∧ m.blank = v := by
  cases h with
  | number n => exact ⟨.number n, ⟨1, _, .single rfl, rfl⟩, rfl⟩
  | string s => exact ⟨.string s, ⟨1, _, .single rfl, rfl⟩, rfl⟩

/-- A value that is a literal but for its cells is that literal. -/
theorem Code.Literal.eq_of_blank (h : c.Literal v) (hw : v = w.blank) : w = v := by
  cases h <;> cases w <;> cases hw <;> rfl

/-- **A program that forces a literal in the end comes to it.** -/
theorem Code.Literal.comes (h : c.Literal v) {Q : Code} {n : Nat}
    (hn : treeMachine.Steps n ⟨.eval Q [], []⟩ ⟨.force c.tree, []⟩) :
    ∃ p, needMachine.Ends (State.start Q) (.value v, p) := by
  obtain ⟨m, hm, hv⟩ := h.ends
  obtain ⟨⟨e, p⟩, hends, halike⟩ := need_followed.ends_back (start_byNeed Q) (hn.ends hm)
  obtain ⟨w, rfl, hw⟩ := halike.of_ok
  rw [h.eq_of_blank (hv.symm.trans hw)] at hends
  exact ⟨p, hends⟩

end Literals

/-! ## 4. Elements that are not asked for -/

section Undisturbed

variable {cs ds : List Code} (hcs : ∀ c ∈ cs, c.InScope 0) (k : Nat)

include hcs

theorem masked_inScope (s : String) : ∀ c ∈ masked k id s cs, c.InScope 0 :=
  masked_forall (failing_inScope s) fun c hc => hcs c (List.mem_of_getElem? hc)

/-- A list, and the list with all elements masked but one. -/
theorem slots_but_one (s : String) :
    List.Forall₂ (Slot (Masks fun s' _ => s' = s)) (masked k id s cs) cs :=
  slots_masked (fun c hc => .inl (hcs c (List.mem_of_getElem? hc)).twin)
    fun c hc => .inr (swaps_failing (hcs c hc) fun _ => rfl)

/-- All elements but the one asked for can be masked. -/
theorem headOf_masked {s : String}
    (hs : ¬ treeMachine.Ends ⟨.force (((cs.map Code.tree)[k]?).getD (.ready (.number 0))), []⟩
      (.error (.notCallable s))) (limits : Limits) :
    (evaluate (headOf k (masked k id s cs)) limits).face =
      (evaluate (headOf k cs) limits).face := by
  have hmasked := masked_inScope hcs k s
  refine face_of_masks (twin_headOf (slots_but_one hcs k s) k) (headOf_inScope hmasked k)
    (headOf_inScope hcs k) (fun s' _ hs' hends => ?_) limits
  subst hs'
  obtain ⟨n, hn⟩ := headOf_steps hmasked k
  have hsame : ((masked k id s' cs).map Code.tree)[k]? = (cs.map Code.tree)[k]? := by
    rw [List.getElem?_map, List.getElem?_map, masked_getElem?]
    simp
  rw [hsame] at hn
  exact hs (hends.after hn)

/-- **`@head` does not evaluate the other elements.** -/
theorem headOf_undisturbed (hds : ∀ d ∈ ds, d.InScope 0) (hlen : ds.length = cs.length)
    (hk : ds[k]? = cs[k]?) (limits : Limits) :
    (evaluate (headOf k cs) limits).face = (evaluate (headOf k ds) limits).face := by
  obtain ⟨s, hs⟩ := exists_unused_text
    ⟨.force (((cs.map Code.tree)[k]?).getD (.ready (.number 0))), []⟩
  have hs' : ¬ treeMachine.Ends ⟨.force (((ds.map Code.tree)[k]?).getD (.ready (.number 0))), []⟩
      (.error (.notCallable s)) := by
    rw [List.getElem?_map, hk, ← List.getElem?_map]
    exact hs
  rw [← headOf_masked hcs k hs limits, ← headOf_masked hds k hs' limits, masked_congr hlen hk]

variable {y n : Code} {v w : Value} (hy : y.Literal v) (hn : n.Literal w)

include hy hn

/-- `@isEmpty` asks for no element, so all of them can be masked. -/
theorem emptyOf_masked (s : String) (limits : Limits) :
    (evaluate (emptyOf k (masked cs.length id s cs) y n) limits).face =
      (evaluate (emptyOf k cs y n) limits).face := by
  have hmasked := masked_inScope hcs cs.length s
  refine face_of_masks (twin_emptyOf (slots_but_one hcs cs.length s) k hy.inScope hn.inScope)
    (emptyOf_inScope hmasked k hy.inScope hn.inScope)
    (emptyOf_inScope hcs k hy.inScope hn.inScope) (fun s' _ _ hends => ?_) limits
  obtain ⟨m, hm⟩ := emptyOf_steps hmasked k hy.inScope hn.inScope
  obtain ⟨_, hvalue, _⟩ := (hy.ite hn ((masked cs.length id s cs).length ≤ k)).ends
  cases hvalue.unique (hends.after hm)

/-- **`@isEmpty` evaluates no element.** -/
theorem emptyOf_undisturbed (hds : ∀ d ∈ ds, d.InScope 0) (hlen : ds.length = cs.length)
    (limits : Limits) :
    (evaluate (emptyOf k cs y n) limits).face = (evaluate (emptyOf k ds y n) limits).face := by
  have hnone : ds[cs.length]? = cs[cs.length]? := by
    rw [List.getElem?_eq_none (Nat.le_refl _), List.getElem?_eq_none (Nat.le_of_eq hlen)]
  rw [← emptyOf_masked hcs k hy hn "" limits, ← emptyOf_masked hds k hy hn "" limits, hlen,
    masked_congr hlen hnone]

end Undisturbed

/-! ## 5. What is printed before an element is forced -/

section Silent

variable {cs : List Code}

theorem failing_printFree (s : String) : (failing s).PrintFree := List.not_mem_nil

theorem tailsCode_printFree (h : ∀ c ∈ cs, c.PrintFree) (k : Nat) : (tailsCode k cs).PrintFree := by
  induction k with
  | zero =>
    induction cs with
    | nil => exact Code.printFree_builtin.mpr Builtin.noConfusion
    | cons c cs ih =>
      have hc : c.PrintFree := h c List.mem_cons_self
      have hcs : (listCode cs).PrintFree := ih fun d hd => h d (List.mem_cons_of_mem _ hd)
      simp [tailsCode, listCode, hc, hcs]
  | succ k ih => simp [tailsCode, ih]

theorem headOf_printFree (h : ∀ c ∈ cs, c.PrintFree) (k : Nat) : (headOf k cs).PrintFree := by
  simp [headOf, tailsCode_printFree h k]

theorem emptyOf_printFree (h : ∀ c ∈ cs, c.PrintFree) (k : Nat) {y n : Code} (hy : y.PrintFree)
    (hn : n.PrintFree) : (emptyOf k cs y n).PrintFree := by
  simp [emptyOf, tailsCode_printFree h k, hy, hn]

/-- A program that looks like one without `@print` prints nothing. -/
theorem silent_of_face {P Q : Code} (hP : P.PrintFree)
    (hface : ∀ limits, (evaluate P limits).face = (evaluate Q limits).face) {x : Execution}
    (hx : Halts Q none none x) : x.printed = #[] := by
  obtain ⟨x', hx', hseen⟩ := halts_of_seenAs
    (fun time => Execution.seenAs_of_face (hface ⟨time, none⟩).symm) hx
  obtain ⟨n, s, hs, _, hprinted⟩ := hx'.last
  rw [hseen.printed, hprinted]
  exact hP.silent hs

end Silent

/-! ## 6. The element that is asked for -/

/-- Where two runs part, what waits is the same but for code and cells. -/
theorem Parting.frames {U : Code → Code → Prop} {D : Cell → Cell → Prop} {t t' : State}
    (htwin : t.Twin U D t') (hpart : Parting D t t') :
    ∃ ρ, List.Forall₂ (Frame.Twin U D ρ) t.stack.frames t'.stack.frames := by
  obtain ⟨_, ρ, _, hcontrol⟩ := htwin
  obtain ⟨a, a', _, _, hfocus, hfocus', _⟩ := hpart
  rw [hfocus, hfocus'] at hcontrol
  cases hcontrol with
  | force _ hfs => exact ⟨ρ, hfs⟩

/-- Only updates wait where only updates wait in a twin. -/
theorem OnlyUpdates.twin {U : Code → Code → Prop} {D : Cell → Cell → Prop} {ρ : Nat → Nat → Prop}
    {fs fs' : List Frame} (hfs : OnlyUpdates fs) (h : List.Forall₂ (Frame.Twin U D ρ) fs fs') :
    OnlyUpdates fs' := by
  induction h with
  | nil => exact onlyUpdates_nil
  | cons hf _ ih =>
    obtain ⟨⟨a, rfl⟩, hrest⟩ := onlyUpdates_cons.mp hfs
    cases hf
    exact onlyUpdates_cons.mpr ⟨⟨_, rfl⟩, ih hrest⟩

/-- A fault of a program is one of another program that looks the same, also without memory. -/
theorem fault_of_face {P Q : Code} {fault : Fault}
    (hface : ∀ limits, (evaluate P limits).face = (evaluate Q limits).face)
    (hP : treeMachine.Ends ⟨.eval P [], []⟩ (.error fault)) :
    treeMachine.Ends ⟨.eval Q [], []⟩ (.error fault) := by
  obtain ⟨⟨e, p⟩, hends, halike⟩ := need_followed.ends_back (start_byNeed P) hP
  obtain rfl := halike.of_error
  obtain ⟨n, hhalts⟩ := halts_of_ends hends
  obtain ⟨x, hx, hseen⟩ := halts_of_seenAs
    (fun time => Execution.seenAs_of_face (hface ⟨time, none⟩)) hhalts
  have hending : Ending.fault fault = x.ending := hseen.ending
  have hxends := hx.ends
  rw [← hending] at hxends
  obtain ⟨d, hd, halike'⟩ := need_followed.ends (start_byNeed Q) hxends
  cases d with
  | ok m => exact halike'.elim
  | error fault' =>
    obtain rfl : fault' = fault := halike'
    exact hd

/-- The list with one element masked by a text, and all others by another one. -/
def labelled (k : Nat) (s : String) (cs : List Code) : List Code :=
  masked k (fun _ => failing s) (s ++ "'") cs

/-- A mask with the text `s` stands for this element, where it was written. -/
def StandsFor (s : String) (c : Code) (s' : String) (cell : Cell) : Prop :=
  s' = s → ∃ env, cell = c.cell env

section Labelled

variable {cs : List Code} (hcs : ∀ c ∈ cs, c.InScope 0) {k : Nat} {c : Code}
  (hk : cs[k]? = some c) (s : String)

theorem labelled_forall {P : Code → Prop} (hs : ∀ s, P (failing s)) : ∀ c ∈ labelled k s cs, P c :=
  masked_forall (hs _) fun _ _ => hs s

include hk

/-- Without memory the mask of the element is forced, and nothing waits for it. -/
theorem labelled_steps :
    ∃ n, treeMachine.Steps n ⟨.eval (headOf k (labelled k s cs)) [], []⟩
      ⟨.force (.suspended (failing s) []), []⟩ := by
  have hscope : ∀ d ∈ labelled k s cs, d.InScope 0 := labelled_forall s failing_inScope
  obtain ⟨n, hn⟩ := headOf_steps hscope k
  rw [List.getElem?_map, labelled, masked_getElem?, hk] at hn
  rw [Option.map_some, Option.map_some, if_pos rfl] at hn
  exact ⟨n, hn⟩

include hcs

theorem twin_labelled : (headOf k (labelled k s cs)).Twin Eq (Masks (StandsFor s c))
    (fun _ => False) (headOf k cs) := by
  have hother : s ++ "'" ≠ s := by
    intro h
    have hlen := congrArg String.length h
    simp at hlen
  refine twin_headOf (slots_masked (fun d hd => .inr ?_) fun d hd => .inr ?_) k
  · obtain rfl : c = d := Option.some.inj (hk.symm.trans hd)
    exact swaps_failing (hcs c (List.mem_of_getElem? hk)) fun env _ => ⟨env, rfl⟩
  · exact swaps_failing (hcs d hd) fun _ hsame => absurd hsame hother

/-- A mask is forced, unless the element fails with the text of its mask. -/
theorem labelled_parts
    (hs : ¬ treeMachine.Ends ⟨.force c.tree, []⟩ (.error (.notCallable s))) :
    ¬ NeverPart Eq (Masks (StandsFor s c)) (State.start (headOf k (labelled k s cs)))
      (State.start (headOf k cs)) := by
  intro hnever
  have hscope : (headOf k (labelled k s cs)).InScope 0 :=
    headOf_inScope (labelled_forall s failing_inScope) k
  have hface (limits : Limits) : (evaluate (headOf k (labelled k s cs)) limits).face =
      (evaluate (headOf k cs) limits).face :=
    (twin_start (twin_labelled hcs hk s)).run (inScope_start hscope)
      (inScope_start (headOf_inScope hcs k)) hnever _ _ _
  obtain ⟨n, hn⟩ := labelled_steps hk s
  obtain ⟨u, hu, hend⟩ := failing_fails s [] []
  have hfault := fault_of_face hface (hn.ends ⟨3, u, hu, hend⟩)
  obtain ⟨m, hm⟩ := headOf_steps hcs k
  rw [List.getElem?_map, hk] at hm
  exact hs (hfault.after hm)

/-- **Where a mask is forced, the element is**: nothing was printed, and only updates wait. -/
theorem labelled_forces {m : Nat} {t t' : State}
    (ht : needMachine.Steps m (State.start (headOf k (labelled k s cs))) t)
    (ht' : needMachine.Steps m (State.start (headOf k cs)) t')
    (htwin : t.Twin Eq (Masks (StandsFor s c)) t') (hpart : Parting (Masks (StandsFor s c)) t t') :
    t'.printed = #[] ∧ t'.EndsLike (State.start c) := by
  obtain ⟨n, hn⟩ := labelled_steps hk s
  obtain ⟨j, s', env, fs, hj, hupdates, a', c', hfocus', hc', hstands⟩ := hpart.steps ht
  obtain ⟨rfl, rfl⟩ := failing_once hj hn
  obtain ⟨env', rfl⟩ := hstands rfl
  obtain ⟨ρ, hframes⟩ := hpart.frames htwin
  have hus := (hupdates rfl).twin hframes
  have hscope : InScope t' := (inScope_start (headOf_inScope hcs k)).steps ht'
  have hprinted : t'.printed = #[] := by
    rw [← htwin.1]
    exact (headOf_printFree (labelled_forall s' failing_printFree) k).silent ht
  obtain ⟨focus', stack', h', p'⟩ := t'
  obtain ⟨us, rfl⟩ : ∃ us, stack' = .ofList us := ⟨stack'.frames, (Stack.ofList_frames stack').symm⟩
  obtain rfl : focus' = .force a' := hfocus'
  obtain rfl : p' = #[] := hprinted
  exact ⟨rfl, cell_runs (hcs c (List.mem_of_getElem? hk)) hscope hc' hus⟩

/-- **`@head` runs as the element does by itself.** -/
theorem headOf_runs : (State.start (headOf k cs)).EndsLike (State.start c) := by
  obtain ⟨s, hs⟩ := exists_unused_text ⟨.force c.tree, []⟩
  have hparts := labelled_parts hcs hk s hs
  unfold NeverPart at hparts
  push Not at hparts
  obtain ⟨m, t, t', ht, ht', htwin, hpart⟩ := hparts
  obtain ⟨hprinted, hlike⟩ := labelled_forces hcs hk s ht ht' htwin hpart
  exact hlike.of_steps ht' hprinted

end Labelled

/-! ## 7. Lists -/

/-- A program that forces a literal in the end and looks like one without `@print` halts with it. -/
theorem Code.Literal.halts {c P Q : Code} {v : Value} (h : c.Literal v) {n : Nat}
    (hn : treeMachine.Steps n ⟨.eval Q [], []⟩ ⟨.force c.tree, []⟩) (hP : P.PrintFree)
    (hface : ∀ limits, (evaluate P limits).face = (evaluate Q limits).face) :
    ∃ m, Halts Q none none ⟨.value v, #[], m⟩ := by
  obtain ⟨p, hends⟩ := h.comes hn
  obtain ⟨m, hm⟩ := halts_of_ends hends
  obtain rfl : p = #[] := silent_of_face hP hface hm
  exact ⟨m, hm⟩

section Halting

variable {cs : List Code} (hcs : ∀ c ∈ cs, c.InScope 0) (k : Nat)

include hcs

/-- **`@head` of a list without elements is zero.** -/
theorem headOf_beyond (hk : cs.length ≤ k) :
    ∃ n, Halts (headOf k cs) none none ⟨.value (.number 0), #[], n⟩ := by
  have hnone : cs[k]? = none := List.getElem?_eq_none hk
  obtain ⟨s, hs⟩ := exists_unused_text
    ⟨.force (((cs.map Code.tree)[k]?).getD (.ready (.number 0))), []⟩
  obtain ⟨n, hn⟩ := headOf_steps hcs k
  rw [List.getElem?_map, hnone] at hn
  refine (Code.Literal.number 0).halts hn (headOf_printFree ?_ k) (headOf_masked hcs k hs)
  refine masked_forall (failing_printFree s) fun c hc => ?_
  rw [hnone] at hc
  cases hc

/-- **`@isEmpty` selects the case.** -/
theorem emptyOf_halts {y n : Code} {v w : Value} (hy : y.Literal v) (hn : n.Literal w) :
    ∃ m, Halts (emptyOf k cs y n) none none
      ⟨.value (if cs.length ≤ k then v else w), #[], m⟩ := by
  obtain ⟨m, hm⟩ := emptyOf_steps hcs k hy.inScope hn.inScope
  refine (hy.ite hn _).halts hm (emptyOf_printFree ?_ k hy.printFree hn.printFree)
    (emptyOf_masked hcs k hy hn "")
  refine masked_forall (failing_printFree "") fun c hc => ?_
  rw [List.getElem?_eq_none (Nat.le_refl _)] at hc
  cases hc

end Halting

/-- **Lists in Church's encoding are lists, lazily.** For closed elements, whatever they would do,
    and any number `k`:

    * `@head` behind `k` times `@tail` runs as the element with this number does by itself;
    * if there is none, it comes to zero and prints nothing;
    * `@isEmpty` selects the first of two literals exactly if there is none, and prints nothing;
    * no other element is evaluated: other elements in their place change neither a step nor a line
      nor the result, under any limits, and `@isEmpty` does not evaluate any. -/
theorem church_lists_lazy (cs : List Code) (hcs : ∀ c ∈ cs, c.InScope 0) (k : Nat) :
    (∀ c, cs[k]? = some c → (headOf k cs).RunsLike c) ∧
    (cs.length ≤ k → ∃ n, Halts (headOf k cs) none none ⟨.value (.number 0), #[], n⟩) ∧
    (∀ y n v w, y.Literal v → n.Literal w → ∃ m, Halts (emptyOf k cs y n) none none
      ⟨.value (if cs.length ≤ k then v else w), #[], m⟩) ∧
    ∀ ds : List Code, (∀ d ∈ ds, d.InScope 0) → ds.length = cs.length → ∀ limits,
      (ds[k]? = cs[k]? →
        (evaluate (headOf k cs) limits).SeenAs (evaluate (headOf k ds) limits)) ∧
      ∀ y n v w, y.Literal v → n.Literal w →
        (evaluate (emptyOf k cs y n) limits).SeenAs (evaluate (emptyOf k ds y n) limits) := by
  refine ⟨fun c hk => (headOf_runs hcs hk).runsLike, headOf_beyond hcs k, ?_, ?_⟩
  · intro y n v w hy hn
    exact emptyOf_halts hcs k hy hn
  · intro ds hds hlen limits
    refine ⟨fun hk => ?_, fun y n v w hy hn => ?_⟩
    · exact Execution.seenAs_of_face (headOf_undisturbed hcs k hds hlen hk limits)
    · exact Execution.seenAs_of_face (emptyOf_undisturbed hcs k hy hn hds hlen limits)

/-- The second element of `((\x.x x) (\x.x x))`, `@print 2` and `"oops" 0`. -/
theorem church_lists_lazy_second :
    let cs : List Code := [.apply (.lambda (.apply (.var 0) (.var 0)))
      (.lambda (.apply (.var 0) (.var 0))), .apply (.builtin .print) (.number 2),
      .apply (.string "oops") (.number 0)]
    (∀ c ∈ cs, c.InScope 0) ∧ ∃ y, Halts (headOf 1 cs) none none y ∧ y.printed = #["2"] ∧
      y.ending.blank = .value (.string "2") := by
  intro cs
  have hcs : ∀ c ∈ cs, c.InScope 0 := by simp [cs, Code.InScope]
  have hx : Halts (.apply (.builtin .print) (.number 2)) none (some 10)
      ⟨.value (.string "2"), #["2"], 6⟩ := by
    show evaluate _ ⟨10, none⟩ = _
    decide
  exact ⟨hcs, ((church_lists_lazy cs hcs 1).1 _ rfl).halts _ (hx.moreTime trivial (by simp))⟩

end CallByNeed
