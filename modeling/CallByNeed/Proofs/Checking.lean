/-
  File:      CallByNeed/Proofs/Checking.lean
  Subject:   What checking accepts: programs whose names mean something and that are no primitive
             in want of arguments.

  Checking looks at every node with the lambdas around it, the function of an application before its
  argument, and fails at the first node that means nothing. Arguments are counted along the function
  side alone, so only a primitive at the end of that side can be in want of them.

  * `Expr.nodes` -- the nodes of a tree in that order, each with the parameters of the lambdas around
    it; `offenders_eq`: what checking finds is the fault of the first node that has one;
  * `Expr.Closed`, `Expr.Known`, `Expr.Calls` -- names are bound, primitives exist, and a primitive
    with some arguments;
  * `owed_calls` -- what a tree owes;
  * `checkTasks_entries` -- the table of names is back at zero behind a whole program;
  * `parse_not_calls` -- what is read under definitions is no primitive with arguments;
  * `check_eq_ok_iff`, `check_eq_arity_iff`, `check_first_fault` -- the three verdicts;
  * `check_accepts_exactly` -- all of it for the walk by tasks.
-/
import CallByNeed.Proofs.Binding
import CallByNeed.Proofs.Parser.Containment
import CallByNeed.Proofs.Parser.Grouping

namespace CallByNeed

/-! ## 1. Nodes in order -/

namespace Expr

/-- The nodes of a tree, each with the parameters of the lambdas around it, innermost first. A node
    stands before its parts, and a function before its argument. -/
def nodes (params : List String) : Expr → List (List String × Expr)
  | .number p n => [(params, .number p n)]
  | .string p s => [(params, .string p s)]
  | .name p x => [(params, .name p x)]
  | .builtin p x => [(params, .builtin p x)]
  | .lambda p x body => (params, .lambda p x body) :: body.nodes (x :: params)
  | .apply p func arg => (params, .apply p func arg) :: (func.nodes params ++ arg.nodes params)

/-- Every name is the parameter of a lambda around it. -/
def Closed (e : Expr) : Prop := ∀ params p x, (params, .name p x) ∈ e.nodes [] → x ∈ params

/-- Every `@name` is the name of a primitive. -/
def Known (e : Expr) : Prop :=
  ∀ params p x, (params, .builtin p x) ∈ e.nodes [] → ∃ b ∈ Builtin.surface, b.name = x

/-- The tree is the primitive `b` with `n` arguments. -/
inductive Calls : Expr → Builtin → Nat → Prop where
  | builtin (p : Pos) {b : Builtin} (hb : b ∈ Builtin.surface) : Calls (.builtin p b.name) b 0
  | apply (p : Pos) {func : Expr} (arg : Expr) {b : Builtin} {n : Nat} (hfunc : func.Calls b n) :
      Calls (.apply p func arg) b (n + 1)

end Expr

/-- What is wrong with a node by itself, under the parameters of the lambdas around it. -/
def nodeFault? : List String × Expr → Option (At BindFault)
  | (params, .name p x) => if x ∈ params then none else some ⟨.unbound x, p⟩
  | (_, .builtin p x) =>
    if x ∈ Builtin.surface.map Builtin.name then none else some ⟨.unknownBuiltin x, p⟩
  | _ => none

/-- **The offenders are the faults of the nodes**, in the order of the nodes. -/
theorem offenders_eq (e : Expr) (params : List String) :
    e.offenders params = (e.nodes params).filterMap nodeFault? := by
  induction e generalizing params with
  | number p n => rfl
  | string p s => rfl
  | name p x =>
    simp only [Expr.offenders, Expr.nodes, List.filterMap_cons, List.filterMap_nil, nodeFault?]
    split <;> rfl
  | builtin p x =>
    simp only [Expr.offenders, Expr.nodes, List.filterMap_cons, List.filterMap_nil, nodeFault?]
    split <;> rfl
  | lambda p x body ih =>
    rw [Expr.offenders, ih]
    rfl
  | apply p func arg ihf iha =>
    rw [Expr.offenders, ihf, iha, ← List.filterMap_append]
    rfl

/-- No node has a fault exactly if names are bound and primitives exist. -/
theorem nodeFault?_eq_none_iff {e : Expr} :
    (∀ node ∈ e.nodes [], nodeFault? node = none) ↔ e.Closed ∧ e.Known := by
  constructor
  · intro h
    refine ⟨fun params p x hnode => ?_, fun params p x hnode => ?_⟩
    · have hnone := h _ hnode
      simpa [nodeFault?] using hnone
    · have hnone := h _ hnode
      simpa [nodeFault?] using hnone
  · intro ⟨hclosed, hknown⟩ node hnode
    obtain ⟨params, n⟩ := node
    cases n with
    | name p x => simp [nodeFault?, hclosed params p x hnode]
    | builtin p x => simpa [nodeFault?] using hknown params p x hnode
    | _ => rfl

/-- There is no offender exactly if names are bound and primitives exist. -/
theorem offenders_eq_nil_iff {e : Expr} : e.offenders [] = [] ↔ e.Closed ∧ e.Known := by
  rw [offenders_eq, List.filterMap_eq_nil_iff, nodeFault?_eq_none_iff]

/-- The first offender is the fault of the first node that has one. -/
theorem head?_offenders_iff {e : Expr} {fault : At BindFault} :
    (e.offenders []).head? = some fault ↔
      ∃ before node after, e.nodes [] = before ++ node :: after ∧
        (∀ n ∈ before, nodeFault? n = none) ∧ nodeFault? node = some fault := by
  rw [offenders_eq, List.head?_filterMap, List.findSome?_eq_some_iff]
  constructor
  · intro ⟨before, node, after, hnodes, hnode, hbefore⟩
    exact ⟨before, node, after, hnodes, hbefore, hnode⟩
  · intro ⟨before, node, after, hnodes, hbefore, hnode⟩
    exact ⟨before, node, after, hnodes, hnode, hbefore⟩

/-! ## 2. Arguments -/

/-- **A tree owes what is left of a primitive's arguments**, and less than nothing if it is no
    primitive with arguments. -/
theorem owed_calls {e : Expr} {scope : List String} {m : Int} (h : e.owed scope = .ok m) :
    (∀ b n, e.Calls b n → m = (b.arity : Int) - n) ∧ ((∀ b n, ¬ e.Calls b n) → m < 0) := by
  induction e generalizing scope m with
  | number p k =>
    cases h
    exact ⟨fun _ _ hcalls => (by cases hcalls), fun _ => by decide⟩
  | string p s =>
    cases h
    exact ⟨fun _ _ hcalls => (by cases hcalls), fun _ => by decide⟩
  | name p x =>
    rw [Expr.owed] at h
    split at h <;> cases h
    exact ⟨fun _ _ hcalls => (by cases hcalls), fun _ => by decide⟩
  | builtin p x =>
    rw [Expr.owed] at h
    split at h <;> cases h
    rename_i b hb
    obtain ⟨hsurface, rfl⟩ := ofName?_eq_some_iff.mp hb
    refine ⟨fun b' n hcalls => ?_, fun hnone => absurd (.builtin p hsurface) (hnone b 0)⟩
    generalize hx : b.name = x at hcalls
    cases hcalls with
    | builtin _ hb' =>
      -- the name tells the primitive
      have hsame := ofName?_eq_some_iff.mpr ⟨hb', rfl⟩
      rw [← hx, hb] at hsame
      cases hsame
      simp
  | lambda p x body ih =>
    rw [Expr.owed] at h
    split at h <;> cases h
    exact ⟨fun _ _ hcalls => (by cases hcalls), fun _ => by decide⟩
  | apply p func arg ihf iha =>
    rw [Expr.owed] at h
    split at h
    · cases h
    · rename_i k hfunc
      split at h <;> cases h
      obtain ⟨hcalls, hnone⟩ := ihf hfunc
      refine ⟨fun b n hb => ?_, fun hno => ?_⟩
      · cases hb with
        | apply _ _ hb =>
          have hk := hcalls _ _ hb
          rw [hk]
          omega
      · have hk := hnone fun b n hb => hno b (n + 1) (.apply p arg hb)
        omega

/-- Checking a tree without offenders only counts arguments. -/
theorem check_of_known {e : Expr} (h : e.offenders [] = []) :
    (e.check = .ok () ∧ ¬ ∃ b n, e.Calls b n ∧ n < b.arity) ∨
      ∃ b n, e.Calls b n ∧ n < b.arity ∧ e.check = .error ⟨.arity (b.arity - n), e.pos⟩ := by
  have hfinds := owed_finds e []
  rw [h] at hfinds
  obtain ⟨m, hm⟩ := hfinds
  obtain ⟨hcalls, hnone⟩ := owed_calls hm
  simp only [Expr.check, hm]
  by_cases hcall : ∃ b n, e.Calls b n
  · obtain ⟨b, n, hb⟩ := hcall
    have hleft := hcalls b n hb
    by_cases hlt : n < b.arity
    · right
      refine ⟨b, n, hb, hlt, ?_⟩
      have hpos : m > 0 := by omega
      have hmissing : m.toNat = b.arity - n := by omega
      rw [if_pos hpos, hmissing]
    · left
      refine ⟨if_neg (by omega), fun hmissing => ?_⟩
      obtain ⟨b', n', hb', hlt'⟩ := hmissing
      have hleft' := hcalls b' n' hb'
      omega
  · left
    have hneg := hnone fun b n hb => hcall ⟨b, n, hb⟩
    refine ⟨if_neg (by omega), fun hmissing => ?_⟩
    obtain ⟨b, n, hb, _⟩ := hmissing
    exact hcall ⟨b, n, hb⟩

/-- A tree calls one primitive at most, with one number of arguments. -/
theorem Expr.Calls.unique {e : Expr} {b b' : Builtin} {n n' : Nat} (h : e.Calls b n)
    (h' : e.Calls b' n') : b = b' ∧ n = n' := by
  induction h generalizing n' with
  | builtin p hb =>
    generalize hx : Expr.builtin p _ = e at h'
    cases h' with
    | builtin p' hb' =>
      obtain ⟨_, hname⟩ := Expr.builtin.inj hx
      have hsame := ofName?_eq_some_iff.mpr ⟨hb', hname.symm⟩
      rw [ofName?_eq_some_iff.mpr ⟨hb, rfl⟩] at hsame
      exact ⟨Option.some.inj hsame, rfl⟩
    | apply => cases hx
  | apply p arg _ ih =>
    cases h' with
    | apply _ _ h' =>
      obtain ⟨rfl, rfl⟩ := ih h'
      exact ⟨rfl, rfl⟩

/-! ## 3. The table of names -/

namespace Binders

/-- Every name has one entry. -/
def Distinct (b : Binders) : Prop := (b.map Prod.fst).Nodup

theorem mem_keys_enter {x y : String} {b : Binders} (h : y ∈ (b.enter x).map Prod.fst) :
    y = x ∨ y ∈ b.map Prod.fst := by
  induction b with
  | nil => simpa [enter] using h
  | cons e b ih =>
    obtain ⟨z, n⟩ := e
    rw [enter] at h
    split at h
    · exact .inr h
    · rw [List.map_cons, List.mem_cons] at h ⊢
      rcases h with rfl | h
      · exact .inr (.inl rfl)
      · exact (ih h).imp_right .inr

theorem Distinct.enter {b : Binders} (h : b.Distinct) (x : String) : (b.enter x).Distinct := by
  induction b with
  | nil => simp [Distinct, Binders.enter]
  | cons e b ih =>
    obtain ⟨y, n⟩ := e
    rw [Binders.enter]
    obtain ⟨hy, hb⟩ := List.nodup_cons.mp h
    split
    · exact h
    · rename_i hxy
      refine List.nodup_cons.mpr ⟨fun hmem => ?_, ih hb⟩
      rcases mem_keys_enter hmem with rfl | hmem
      · simp at hxy
      · exact hy hmem

theorem keys_leave (x : String) (b : Binders) :
    (b.leave x).map Prod.fst = b.map Prod.fst := by
  induction b with
  | nil => rfl
  | cons e b ih =>
    obtain ⟨y, n⟩ := e
    rw [leave]
    split
    · rfl
    · rw [List.map_cons, List.map_cons, ih]

/-- An entry is what the table tells of its name. -/
theorem Distinct.count_of_mem {b : Binders} (h : b.Distinct) {x : String} {n : Nat}
    (hmem : (x, n) ∈ b) : b.count x = n := by
  induction b with
  | nil => cases hmem
  | cons e b ih =>
    obtain ⟨y, m⟩ := e
    obtain ⟨hy, hb⟩ := List.nodup_cons.mp h
    rw [count_cons]
    rcases List.mem_cons.mp hmem with he | hmem
    · cases he
      simp
    · have hne : (x == y) = false := by
        refine beq_false_of_ne fun hxy => hy ?_
        exact List.mem_map.mpr ⟨(x, n), hmem, hxy⟩
      simp only [hne, Bool.false_eq_true, if_false]
      exact ih hb hmem

end Binders

/-- A walk gives no name a second entry. -/
theorem checkTasks_distinct {tasks : List (Task String)} {results : List Int}
    {scope table : Binders} {owed : Int} (hscope : scope.Distinct)
    (h : checkTasks tasks results scope = .ok (owed, table)) : table.Distinct := by
  fun_induction checkTasks tasks results scope with
  | case1 results scope =>
    cases h
    exact hscope
  | case2 tasks results scope p n ih => exact ih hscope h
  | case3 tasks results scope p s ih => exact ih hscope h
  | case4 tasks results scope p x hx ih => exact ih hscope h
  | case5 tasks results scope p x hx => cases h
  | case6 tasks results scope p x b hb ih => exact ih hscope h
  | case7 tasks results scope p x hb => cases h
  | case8 tasks results scope p body x ih => exact ih (hscope.enter _) h
  | case9 tasks results scope p func arg ih => exact ih hscope h
  | case10 tasks results scope x ih =>
    refine ih ?_ h
    rw [Binders.Distinct, Binders.keys_leave]
    exact hscope
  | case11 tasks results scope ih => exact ih hscope h

/-- **Behind a whole program every name is back at zero.** -/
theorem checkTasks_entries {e : Expr} {owed : Int} {table : Binders}
    (h : checkTasks [.visit e] [] [] = .ok (owed, table)) {x : String} {n : Nat}
    (hmem : (x, n) ∈ table) : n = 0 := by
  obtain ⟨b, hcounts, hvisit⟩ := checkTasks_visit e Binders.counts_nil [] []
  have hempty : Binders.Distinct [] := List.nodup_nil
  have hdistinct : table.Distinct := checkTasks_distinct hempty h
  rw [hvisit] at h
  split at h
  · rw [checkTasks] at h
    cases h
    rw [← hdistinct.count_of_mem hmem]
    exact hcounts x
  · cases h

/-! ## 4. Programs under definitions -/

/-- A tree of operators calls no primitive unless its first operand does. -/
theorem OpTree.not_calls {t : OpTree Expr Joint} {first : Expr}
    (hfirst : t.items.head? = some (.inl first)) (h : ∀ b n, ¬ first.Calls b n) :
    ∀ b n, ¬ t.expr.Calls b n := by
  induction t with
  | leaf e =>
    obtain rfl : e = first := by simpa [items] using hfirst
    exact h
  | leading op right ih => simp [items] at hfirst
  | binary left op right ihl ihr =>
    have hleft : left.items.head? = some (.inl first) := by
      obtain ⟨i, is, hi⟩ := List.exists_cons_of_ne_nil left.items_ne_nil
      rw [items, hi] at hfirst
      rw [hi]
      exact hfirst
    intro b n hcalls
    cases op with
    | sideBySide =>
      cases hcalls with
      | apply _ _ hcalls => exact ihl hleft b _ hcalls
    | operator p name =>
      -- the operator's name is at the head
      cases hcalls with
      | apply _ _ hcalls =>
        cases hcalls with
        | apply _ _ hcalls => cases hcalls

/-- So does a line. -/
theorem Reading.line_not_calls {r : Reading} {levels : Nat} {c c' : Cursor} {e : Expr}
    (hline : r.line (levels + 1) c = .ok (some e, c'))
    (hnone : r.term? (r.line levels) c.skipSpaces ≠ .ok none)
    (hterm : ∀ u c₁, r.term? (r.line levels) c.skipSpaces = .ok (some (u, c₁)) →
      ∀ b n, ¬ u.Calls b n) : ∀ b n, ¬ e.Calls b n := by
  simp only [line, flatLine, Parsed.bind_eq_ok] at hline
  obtain ⟨⟨l, c₂⟩, ⟨first, hfirst, ⟨further, c₃⟩, _, hflat⟩, htree⟩ := hline
  cases first with
  | none => exact absurd hfirst hnone
  | some t =>
    cases hflat
    have htree : Line.tree? ⟨some t.1, further⟩ = some e :=
      (Prod.mk.inj (Except.ok.inj htree)).1
    obtain ⟨tree, hitems, _, rfl⟩ := Line.grouped htree
    have hhead : tree.items.head? = some (.inl t.1) := by
      rw [hitems]
      rfl
    exact OpTree.not_calls hhead (hterm t.1 t.2 hfirst)

namespace Reading

variable {r : Reading} {levels : Nat} {x : String} {cs : List Char} {o : Int} {e : Expr}
  {c' : Cursor}

/-- What begins with a lambda calls no primitive. -/
theorem line_lambda_not_calls (hx : ParamName x)
    (h : r.line levels ⟨'\\' :: ((Expr.nameText x).toList ++ '.' :: cs), o⟩ = .ok (some e, c')) :
    ∀ b n, ¬ e.Calls b n := by
  cases levels with
  | zero => cases h
  | succ levels =>
    refine line_not_calls h ?_ fun u c₁ hterm => ?_
    · rw [Cursor.skipSpaces_cons (by decide), term?_backslash (Cursor.eat?_cons (by decide) o)]
      exact lambda_ne_none
    · rw [Cursor.skipSpaces_cons (by decide), term?_lambda_eq hx, Parsed.bind_eq_ok] at hterm
      obtain ⟨t, _, ht⟩ := hterm
      cases ht
      exact nofun

/-- Nor does what begins with a lambda in parentheses. -/
theorem line_group_not_calls (hx : ParamName x)
    (h : r.line levels ⟨'(' :: '\\' :: ((Expr.nameText x).toList ++ '.' :: cs), o⟩ =
      .ok (some e, c')) : ∀ b n, ¬ e.Calls b n := by
  cases levels with
  | zero => cases h
  | succ levels =>
    have hterm : r.term? (r.line levels)
        (⟨'(' :: '\\' :: ((Expr.nameText x).toList ++ '.' :: cs), o⟩ : Cursor).skipSpaces =
          r.group (r.line levels) ⟨'\\' :: ((Expr.nameText x).toList ++ '.' :: cs), o + 1⟩ := by
      rw [Cursor.skipSpaces_cons (by decide), term?_open (Cursor.eat?_cons (by decide) o),
        Cursor.bracketedOperator?_of_second (by decide) (by decide)]
    refine line_not_calls h (hterm ▸ group_ne_none) fun u c₁ hu => ?_
    rw [hterm, group, Parsed.bind_eq_ok] at hu
    obtain ⟨⟨inner, c₂⟩, hinner, hclose⟩ := hu
    obtain ⟨c₃, _, hclose⟩ := Parsed.bind_eq_ok.mp hclose
    cases hclose
    exact line_lambda_not_calls hx (lineOr_eq_ok.mp hinner)

end Reading

/-- **What is read under definitions calls no primitive.** The text begins with the lambda of the
    first definition. -/
theorem parse_not_calls {source : Source} {defs : List Definition} {depth : Nat} {e : Expr}
    (hne : defs ≠ []) (hdefs : ∀ d ∈ defs, d.Named) (h : parse source defs depth = .ok e) :
    ∀ b n, ¬ e.Calls b n := by
  obtain ⟨d, ds, rfl⟩ := List.exists_cons_of_ne_nil hne
  have hfront : blankText (opening (d :: ds)) = opening (d :: ds) := (clean_opening hdefs).1
  obtain ⟨x, hx, hname⟩ := hdefs d List.mem_cons_self
  rw [parse_cons, Parsed.bind_eq_ok] at h
  obtain ⟨_, _, hwhole⟩ := h
  obtain ⟨c', hline, _⟩ := Reading.whole_eq_ok.mp hwhole
  simp only [Prepared.text, prepare, hfront] at hline
  rw [opening_cons, hname] at hline
  simp only [List.cons_append, List.append_assoc] at hline
  exact Reading.line_group_not_calls hx hline

/-! ## 5. The verdict -/

/-- A program with a node that means nothing fails with the fault of the first one. -/
theorem check_first_fault {e : Expr} (h : ¬ (e.Closed ∧ e.Known)) :
    ∃ before node after fault, e.nodes [] = before ++ node :: after ∧
      (∀ n ∈ before, nodeFault? n = none) ∧ nodeFault? node = some fault ∧
      e.check = .error fault ∧ ¬ fault.fault.IsArity := by
  obtain ⟨fault, rest, hoffenders⟩ :=
    List.exists_cons_of_ne_nil fun hnil => h (offenders_eq_nil_iff.mp hnil)
  have hhead : (e.offenders []).head? = some fault := by rw [hoffenders, List.head?_cons]
  obtain ⟨before, node, after, hnodes, hbefore, hnode⟩ := head?_offenders_iff.mp hhead
  obtain ⟨hcheck, harity⟩ := (e.check_error_iff fault).mpr hhead
  exact ⟨before, node, after, fault, hnodes, hbefore, hnode, hcheck, harity⟩

/-- The programs that are accepted. -/
theorem check_eq_ok_iff {e : Expr} :
    e.check = .ok () ↔ e.Closed ∧ e.Known ∧ ¬ ∃ b n, e.Calls b n ∧ n < b.arity := by
  rw [← and_assoc]
  by_cases hmeans : e.Closed ∧ e.Known
  · rcases check_of_known (offenders_eq_nil_iff.mpr hmeans) with
      ⟨hok, hno⟩ | ⟨b, n, hb, hlt, herror⟩
    · exact ⟨fun _ => ⟨hmeans, hno⟩, fun _ => hok⟩
    · rw [herror]
      exact ⟨nofun, fun h => absurd ⟨b, n, hb, hlt⟩ h.2⟩
  · obtain ⟨_, _, _, fault, _, _, _, herror, _⟩ := check_first_fault hmeans
    rw [herror]
    exact ⟨nofun, fun h => absurd h.1 hmeans⟩

/-- The programs that miss arguments. -/
theorem check_eq_arity_iff {e : Expr} {missing : Nat} {p : Pos} :
    e.check = .error ⟨.arity missing, p⟩ ↔
      p = e.pos ∧ e.Closed ∧ e.Known ∧
        ∃ b n, e.Calls b n ∧ n < b.arity ∧ missing = b.arity - n := by
  by_cases hmeans : e.Closed ∧ e.Known
  · rcases check_of_known (offenders_eq_nil_iff.mpr hmeans) with
      ⟨hok, hno⟩ | ⟨b, n, hb, hlt, herror⟩
    · rw [hok]
      exact ⟨nofun, fun ⟨_, _, _, b, n, hb, hlt, _⟩ => absurd ⟨b, n, hb, hlt⟩ hno⟩
    · rw [herror]
      constructor
      · intro h
        cases h
        exact ⟨rfl, hmeans.1, hmeans.2, b, n, hb, hlt, rfl⟩
      · intro ⟨hp, _, _, b', n', hb', _, hmissing⟩
        obtain ⟨rfl, rfl⟩ := hb.unique hb'
        rw [hp, hmissing]
  · obtain ⟨_, _, _, fault, _, _, _, herror, harity⟩ := check_first_fault hmeans
    rw [herror]
    constructor
    · intro h
      cases h
      exact absurd ⟨missing, rfl⟩ harity
    · intro ⟨_, hclosed, hknown, _⟩
      exact absurd ⟨hclosed, hknown⟩ hmeans

/-- **Checking accepts exactly the closed programs that are no primitive in want of arguments.**

    A program whose names are bound and whose primitives exist is accepted, unless it is a primitive
    with fewer arguments than it takes: then the fault is how many it misses, at the program itself.
    Any other program fails with the fault of the first node that has one. The table of names is back
    at zero behind an accepted program, and no program read under definitions misses arguments. -/
theorem check_accepts_exactly (e : Expr) :
    (e.checkWalk = .ok () ↔ e.Closed ∧ e.Known ∧ ¬ ∃ b n, e.Calls b n ∧ n < b.arity) ∧
    (∀ missing p, e.checkWalk = .error ⟨.arity missing, p⟩ ↔
      p = e.pos ∧ e.Closed ∧ e.Known ∧
        ∃ b n, e.Calls b n ∧ n < b.arity ∧ missing = b.arity - n) ∧
    (¬ (e.Closed ∧ e.Known) → ∃ before node after fault,
      e.nodes [] = before ++ node :: after ∧ (∀ n ∈ before, nodeFault? n = none) ∧
        nodeFault? node = some fault ∧ e.checkWalk = .error fault) ∧
    (∀ owed table, checkTasks [.visit e] [] [] = .ok (owed, table) →
      ∀ x n, (x, n) ∈ table → n = 0) ∧
    ∀ source defs depth, defs ≠ [] → (∀ d ∈ defs, d.Named) → parse source defs depth = .ok e →
      ∀ missing p, e.checkWalk ≠ .error ⟨.arity missing, p⟩ := by
  rw [e.checkWalk_eq]
  refine ⟨check_eq_ok_iff, fun missing p => check_eq_arity_iff, fun hmeans => ?_,
    fun owed table h x n => checkTasks_entries h, ?_⟩
  · obtain ⟨before, node, after, fault, hnodes, hbefore, hnode, hcheck, _⟩ :=
      check_first_fault hmeans
    exact ⟨before, node, after, fault, hnodes, hbefore, hnode, hcheck⟩
  · intro source defs depth hne hdefs hparse missing p h
    obtain ⟨_, _, _, b, n, hb, _, _⟩ := check_eq_arity_iff.mp h
    exact parse_not_calls hne hdefs hparse b n hb

/-- `\x. @add 1` waits for nothing by itself, `@add 1` does. -/
example :
    let one : Expr := .apply default (.builtin default "add") (.number default 1)
    one.checkWalk = .error ⟨.arity 1, default⟩ ∧
      (Expr.lambda default "x" one).checkWalk = .ok () := by
  intro one
  rw [one.checkWalk_eq, Expr.checkWalk_eq]
  exact ⟨by decide, by decide⟩

end CallByNeed
