/-
  File:      CallByNeed/Proofs/Binding.lean
  Subject:   Checking and compiling find the same fault.

  A name without a lambda and a primitive without a meaning are found by both passes, in the same
  order: the function of an application before its argument. Only checking looks at how many
  arguments a primitive has been given.

  * `Expr.offenders` -- the names and primitives that mean nothing, in that order;
  * `Finds` -- a pass that fails with the first of some faults, and only then;
  * `owed_finds`, `ofExpr_finds` -- both passes find the first offender;
  * `Binders.Counts` -- a table of counts that tells what is in scope;
  * `checkTasks_visit`, `compileTasks_visit` -- a visit by tasks is the pass over the tree visited;
  * `passes_agree` -- the two passes over a whole program.
-/
import CallByNeed.Walk

namespace CallByNeed

/-! ## 1. What can be wrong -/

/-- The names that no lambda binds and the primitives that do not exist, from left to right. -/
def Expr.offenders (scope : List String) : Expr → List (At BindFault)
  | .number .. | .string .. => []
  | .name p x => if x ∈ scope then [] else [⟨.unbound x, p⟩]
  | .builtin p x =>
    if x ∈ Builtin.surface.map Builtin.name then [] else [⟨.unknownBuiltin x, p⟩]
  | .lambda _ x body => body.offenders (x :: scope)
  | .apply _ func arg => func.offenders scope ++ arg.offenders scope

/-- A pass fails with the first of the faults, or succeeds if there is none. -/
def Finds {α : Type} (faults : List (At BindFault)) (r : Except (At BindFault) α) : Prop :=
  match faults with
  | [] => ∃ a, r = .ok a
  | fault :: _ => r = .error fault

section Finds

variable {α β : Type} {faults faults' : List (At BindFault)} {r : Except (At BindFault) α}

theorem Finds.error_iff (h : Finds faults r) {fault : At BindFault} :
    r = .error fault ↔ faults.head? = some fault := by
  cases faults with
  | nil =>
    obtain ⟨a, rfl⟩ := h
    simp
  | cons f faults =>
    obtain rfl : r = .error f := h
    simp

/-- Of two passes one after the other the first one's faults come first. -/
theorem Finds.andThen {r' : Except (At BindFault) β} (h : Finds faults r)
    (hok : ∀ a, r = .ok a → Finds faults' r')
    (herror : ∀ fault, r = .error fault → r' = .error fault) :
    Finds (faults ++ faults') r' := by
  cases faults with
  | nil =>
    obtain ⟨a, ha⟩ := h
    exact hok a ha
  | cons fault faults => exact herror fault h

/-- What is done with a result does not change which fault is found. -/
theorem Finds.map {r' : Except (At BindFault) β} (h : Finds faults r)
    (hok : ∀ a, r = .ok a → ∃ b, r' = .ok b)
    (herror : ∀ fault, r = .error fault → r' = .error fault) : Finds faults r' := by
  rw [← List.append_nil faults]
  exact h.andThen hok herror

end Finds

/-- A primitive is found by its name if there is one of that name. -/
theorem ofName?_isSome_iff (x : String) :
    (Builtin.ofName? x).isSome = true ↔ x ∈ Builtin.surface.map Builtin.name := by
  rw [Builtin.ofName?, List.find?_isSome, List.mem_map]
  constructor
  · rintro ⟨b, hb, he⟩
    exact ⟨b, hb, by simpa using he⟩
  · rintro ⟨b, hb, he⟩
    exact ⟨b, hb, by simpa using he⟩

/-- A primitive is found by its name, and no other one is. -/
theorem ofName?_eq_some_iff {x : String} {b : Builtin} :
    Builtin.ofName? x = some b ↔ b ∈ Builtin.surface ∧ b.name = x := by
  have hfound : ∀ b ∈ Builtin.surface, Builtin.ofName? b.name = some b := by decide
  constructor
  · intro h
    have hname := List.find?_some h
    exact ⟨List.mem_of_find?_eq_some h, by simpa using hname⟩
  · intro ⟨hb, hname⟩
    rw [← hname]
    exact hfound b hb

/-! ## 2. Both passes find the first offender -/

/-- **Checking a tree finds its first offender.** -/
theorem owed_finds (e : Expr) (scope : List String) : Finds (e.offenders scope) (e.owed scope) := by
  induction e generalizing scope with
  | number p n => exact ⟨_, rfl⟩
  | string p s => exact ⟨_, rfl⟩
  | name p x =>
    by_cases hx : x ∈ scope
    · have hc : scope.contains x = true := List.contains_iff_mem.mpr hx
      simp only [Expr.offenders, Expr.owed, if_pos hx, if_pos hc]
      exact ⟨_, rfl⟩
    · have hc : ¬ scope.contains x = true := fun h => hx (List.contains_iff_mem.mp h)
      simp only [Expr.offenders, Expr.owed, if_neg hx, if_neg hc]
      rfl
  | builtin p x =>
    have hname := ofName?_isSome_iff x
    simp only [Expr.offenders, Expr.owed]
    cases hb : Builtin.ofName? x with
    | none =>
      rw [hb] at hname
      rw [if_neg fun h => Bool.noConfusion (hname.mpr h)]
      rfl
    | some b =>
      rw [hb] at hname
      rw [if_pos (hname.mp rfl)]
      exact ⟨_, rfl⟩
  | lambda p x body ih =>
    refine (ih (x :: scope)).map (fun n hn => ⟨-1, ?_⟩) fun fault hf => ?_
    · rw [Expr.owed, hn]
    · rw [Expr.owed, hf]
  | apply p func arg ihf iha =>
    refine (ihf scope).andThen (fun n hn => (iha scope).map (fun m hm => ⟨n - 1, ?_⟩) ?_) ?_
    · rw [Expr.owed, hn]
      dsimp only
      rw [hm]
    · intro fault hf
      rw [Expr.owed, hn]
      dsimp only
      rw [hf]
    · intro fault hf
      rw [Expr.owed, hf]

/-- **Compiling a tree finds its first offender.** -/
theorem ofExpr_finds (e : Expr) (scope : List String) :
    Finds (e.offenders scope) (Code.ofExpr scope e) := by
  induction e generalizing scope with
  | number p n => exact ⟨_, rfl⟩
  | string p s => exact ⟨_, rfl⟩
  | name p x =>
    simp only [Expr.offenders, Code.ofExpr]
    cases hi : scope.idxOf? x with
    | none =>
      have hx : x ∉ scope := List.idxOf?_eq_none_iff.mp hi
      rw [if_neg hx]
      rfl
    | some i =>
      have hx : x ∈ scope := by
        refine Classical.byContradiction fun hx => ?_
        rw [List.idxOf?_eq_none_iff.mpr hx] at hi
        cases hi
      rw [if_pos hx]
      exact ⟨_, rfl⟩
  | builtin p x =>
    have hname := ofName?_isSome_iff x
    simp only [Expr.offenders, Code.ofExpr]
    cases hb : Builtin.ofName? x with
    | none =>
      rw [hb] at hname
      rw [if_neg fun h => Bool.noConfusion (hname.mpr h)]
      rfl
    | some b =>
      rw [hb] at hname
      rw [if_pos (hname.mp rfl)]
      exact ⟨_, rfl⟩
  | lambda p x body ih =>
    refine (ih (x :: scope)).map (fun code hcode => ⟨.lambda code, ?_⟩) fun fault hf => ?_
    · rw [Code.ofExpr, hcode]
    · rw [Code.ofExpr, hf]
  | apply p func arg ihf iha =>
    refine (ihf scope).andThen (fun f hf => (iha scope).map (fun a ha => ⟨.apply f a, ?_⟩) ?_) ?_
    · rw [Code.ofExpr, hf]
      dsimp only
      rw [ha]
    · intro fault hfault
      rw [Code.ofExpr, hf]
      dsimp only
      rw [hfault]
    · intro fault hfault
      rw [Code.ofExpr, hfault]

/-! ## 3. Names in scope, counted -/

namespace Binders

/-- The table tells of every name how often it stands in the scope. -/
def Counts (b : Binders) (scope : List String) : Prop := ∀ x, b.count x = scope.count x

theorem count_cons (x y : String) (n : Nat) (b : Binders) :
    count ((y, n) :: b) x = if x == y then n else b.count x := by
  simp only [count, List.lookup_cons]
  cases x == y <;> rfl

theorem count_enter (b : Binders) (x y : String) :
    (b.enter x).count y = if y == x then b.count y + 1 else b.count y := by
  induction b with
  | nil =>
    rw [enter, count_cons]
    cases y == x <;> rfl
  | cons p b ih =>
    obtain ⟨z, n⟩ := p
    rw [enter]
    cases hxz : x == z with
    | true =>
      obtain rfl : x = z := by simpa using hxz
      simp only [if_true, count_cons]
      cases y == x <;> rfl
    | false =>
      simp only [Bool.false_eq_true, if_false, count_cons, ih]
      cases hyz : y == z with
      | false => rfl
      | true =>
        obtain rfl : y = z := by simpa using hyz
        have hyx : (y == x) = false := BEq.comm.trans hxz
        simp [hyx]

theorem count_leave (b : Binders) (x y : String) :
    (b.leave x).count y = if y == x then b.count y - 1 else b.count y := by
  induction b with
  | nil => cases y == x <;> rfl
  | cons p b ih =>
    obtain ⟨z, n⟩ := p
    rw [leave]
    cases hxz : x == z with
    | true =>
      obtain rfl : x = z := by simpa using hxz
      simp only [if_true, count_cons]
      cases y == x <;> rfl
    | false =>
      simp only [Bool.false_eq_true, if_false, count_cons, ih]
      cases hyz : y == z with
      | false => rfl
      | true =>
        obtain rfl : y = z := by simpa using hyz
        have hyx : (y == x) = false := BEq.comm.trans hxz
        simp [hyx]

variable {b : Binders} {scope : List String} {x : String}

theorem counts_nil : Counts [] [] := fun _ => rfl

theorem Counts.enter (h : b.Counts scope) (x : String) : (b.enter x).Counts (x :: scope) := by
  intro y
  rw [count_enter, h y, List.count_cons]
  rw [BEq.comm (a := x)]
  cases hyx : y == x <;> simp

/-- Behind a lambda the table tells of the scope around it. The count of its parameter is not zero
    there, so nothing is taken from zero. -/
theorem Counts.leave (h : b.Counts (x :: scope)) : (b.leave x).Counts scope := by
  intro y
  rw [count_leave, h y, List.count_cons]
  rw [BEq.comm (a := x)]
  cases hyx : y == x <;> simp

theorem Counts.pos_iff (h : b.Counts scope) : 0 < b.count x ↔ x ∈ scope := by
  rw [h x, List.count_pos_iff]

end Binders

/-! ## 4. Passes by tasks -/

/-- **A visit checks the tree visited**, and leaves a table that tells of the same scope. -/
theorem checkTasks_visit (e : Expr) {scope : List String} {b : Binders} (hb : b.Counts scope)
    (tasks : List (Task String)) (results : List Int) :
    ∃ b' : Binders, b'.Counts scope ∧ checkTasks (.visit e :: tasks) results b =
      match e.owed scope with
      | .ok n => checkTasks tasks (n :: results) b'
      | .error fault => .error fault := by
  induction e generalizing scope b tasks results with
  | number p n => exact ⟨b, hb, by rw [checkTasks, Expr.owed]⟩
  | string p s => exact ⟨b, hb, by rw [checkTasks, Expr.owed]⟩
  | name p x =>
    refine ⟨b, hb, ?_⟩
    rw [checkTasks, Expr.owed]
    by_cases hx : x ∈ scope
    · rw [if_pos (hb.pos_iff.mpr hx), if_pos (List.contains_iff_mem.mpr hx)]
    · rw [if_neg fun h => hx (hb.pos_iff.mp h), if_neg fun h => hx (List.contains_iff_mem.mp h)]
  | builtin p x =>
    refine ⟨b, hb, ?_⟩
    rw [checkTasks, Expr.owed]
    cases Builtin.ofName? x <;> rfl
  | lambda p x body ih =>
    obtain ⟨b', hb', hbody⟩ := ih (hb.enter x) (.leave x :: tasks) results
    refine ⟨b'.leave x, hb'.leave, ?_⟩
    rw [checkTasks, hbody, Expr.owed]
    cases body.owed (x :: scope) with
    | error fault => rfl
    | ok n =>
      dsimp only
      rw [checkTasks, List.tail_cons]
  | apply p func arg ihf iha =>
    obtain ⟨b₁, hb₁, hfunc⟩ := ihf hb (.visit arg :: .apply :: tasks) results
    rw [checkTasks, hfunc, Expr.owed]
    cases func.owed scope with
    | error fault => exact ⟨b, hb, rfl⟩
    | ok n =>
      obtain ⟨b₂, hb₂, harg⟩ := iha hb₁ (.apply :: tasks) (n :: results)
      refine ⟨b₂, hb₂, ?_⟩
      dsimp only
      rw [harg]
      cases arg.owed scope with
      | error fault => rfl
      | ok m =>
        dsimp only
        rw [checkTasks, List.tail_cons, List.headD_cons, List.tail_cons]

/-- **A visit compiles the tree visited**, in the scope around it. -/
theorem compileTasks_visit (e : Expr) (tasks : List (Task Unit)) (done : List Code)
    (scope : List String) :
    compileTasks (.visit e :: tasks) done scope =
      match Code.ofExpr scope e with
      | .ok code => compileTasks tasks (code :: done) scope
      | .error fault => .error fault := by
  induction e generalizing tasks done scope with
  | number p n => rw [compileTasks, Code.ofExpr]
  | string p s => rw [compileTasks, Code.ofExpr]
  | name p x =>
    rw [compileTasks, Code.ofExpr]
    cases scope.idxOf? x <;> rfl
  | builtin p x =>
    rw [compileTasks, Code.ofExpr]
    cases Builtin.ofName? x <;> rfl
  | lambda p x body ih =>
    rw [compileTasks, ih, Code.ofExpr]
    cases Code.ofExpr (x :: scope) body with
    | error fault => rfl
    | ok code =>
      dsimp only
      rw [compileTasks, lastCode, List.headD_cons, List.tail_cons, List.tail_cons]
  | apply p func arg ihf iha =>
    rw [compileTasks, ihf, Code.ofExpr]
    cases Code.ofExpr scope func with
    | error fault => rfl
    | ok f =>
      dsimp only
      rw [iha]
      cases Code.ofExpr scope arg with
      | error fault => rfl
      | ok a =>
        dsimp only
        rw [compileTasks]
        rfl

/-- **Checking by tasks is checking.** -/
theorem Expr.checkWalk_eq (e : Expr) : e.checkWalk = e.check := by
  obtain ⟨b, _, hvisit⟩ := checkTasks_visit e Binders.counts_nil [] []
  rw [checkWalk, check, hvisit]
  cases e.owed [] with
  | error fault => rfl
  | ok n =>
    dsimp only
    rw [checkTasks]
    rfl

/-- **Compiling by tasks is compiling.** -/
theorem Expr.compileWalk_eq (e : Expr) : e.compileWalk = e.compile := by
  rw [compileWalk, compile, compileTasks_visit]
  cases Code.ofExpr [] e with
  | error fault => rfl
  | ok code =>
    dsimp only
    rw [compileTasks]
    rfl

/-! ## 5. Whole programs -/

/-- A fault of a program as a whole: a primitive that still waits for arguments. -/
def BindFault.IsArity (fault : BindFault) : Prop := ∃ missing, fault = .arity missing

/-- No offender is a primitive that waits for arguments. -/
theorem Expr.not_isArity_of_mem {e : Expr} {scope : List String} {fault : At BindFault}
    (h : fault ∈ e.offenders scope) : ¬ fault.fault.IsArity := by
  induction e generalizing scope with
  | number p n => cases h
  | string p s => cases h
  | name p x =>
    rw [offenders] at h
    split at h
    · cases h
    · obtain rfl := List.mem_singleton.mp h
      rintro ⟨missing, he⟩
      cases he
  | builtin p x =>
    rw [offenders] at h
    split at h
    · cases h
    · obtain rfl := List.mem_singleton.mp h
      rintro ⟨missing, he⟩
      cases he
  | lambda p x body ih => exact ih h
  | apply p func arg ihf iha => exact (List.mem_append.mp h).elim ihf iha

/-- Checking fails with the first offender, and else at most for want of arguments. -/
theorem Expr.check_error_iff (e : Expr) (fault : At BindFault) :
    e.check = .error fault ∧ ¬ fault.fault.IsArity ↔ (e.offenders []).head? = some fault := by
  have howed := owed_finds e []
  rw [← howed.error_iff, check]
  cases h : e.owed [] with
  | error f =>
    have hmem : f ∈ e.offenders [] := List.mem_of_mem_head? (howed.error_iff.mp h)
    dsimp only
    constructor
    · rintro ⟨hf, _⟩
      cases hf
      rfl
    · intro hf
      cases hf
      exact ⟨rfl, not_isArity_of_mem hmem⟩
  | ok n =>
    dsimp only
    split
    · constructor
      · rintro ⟨hf, harity⟩
        cases hf
        exact absurd ⟨_, rfl⟩ harity
      · intro hf
        cases hf
    · constructor
      · rintro ⟨hf, _⟩
        cases hf
      · intro hf
        cases hf

/-- **The passes over names agree on every tree**, by recursion and by tasks. Compiling fails exactly
    if checking fails for another reason than arguments that are missing; then both fail alike, with
    the first name or primitive that means nothing, at its place. So what checking accepts compiles,
    and so does what it refuses for want of arguments. -/
theorem passes_agree (e : Expr) :
    e.checkWalk = e.check ∧ e.compileWalk = e.compile ∧
    (∀ fault, e.compileWalk = .error fault ↔
      e.checkWalk = .error fault ∧ ¬ fault.fault.IsArity) ∧
    (∀ fault, e.compileWalk = .error fault ↔ (e.offenders []).head? = some fault) ∧
    (e.checkWalk = .ok () → ∃ code, e.compileWalk = .ok code) ∧
    (∀ missing p, e.checkWalk = .error ⟨.arity missing, p⟩ → ∃ code, e.compileWalk = .ok code) := by
  have hcompile : Finds (e.offenders []) e.compile := ofExpr_finds e []
  -- a tree that does not compile has an offender, which checking finds too
  have compiles {r : Except (At BindFault) Unit} (hr : e.check = r)
      (hne : ∀ fault : At BindFault, r = .error fault → fault.fault.IsArity) :
      ∃ code, e.compile = .ok code := by
    cases hc : e.compile with
    | ok code => exact ⟨code, rfl⟩
    | error fault =>
      obtain ⟨hcheck, harity⟩ := (e.check_error_iff fault).mpr (hcompile.error_iff.mp hc)
      exact absurd (hne fault (hr.symm.trans hcheck)) harity
  rw [e.checkWalk_eq, e.compileWalk_eq]
  refine ⟨rfl, rfl, fun fault => ?_, fun fault => hcompile.error_iff, fun hok => ?_,
    fun missing p herror => ?_⟩
  · rw [hcompile.error_iff, e.check_error_iff fault]
  · exact compiles hok fun fault hf => by cases hf
  · refine compiles herror fun fault hf => ?_
    cases hf
    exact ⟨missing, rfl⟩

/-- Two faults in one application: both passes name the one in the function. -/
example :
    let e : Expr := .apply default
      (.lambda default "x" (.apply default (.name default "x") (.name default "y")))
      (.builtin default "nope")
    e.checkWalk = .error ⟨.unbound "y", default⟩ ∧
      e.compileWalk = .error ⟨.unbound "y", default⟩ := by
  intro e
  rw [e.checkWalk_eq, e.compileWalk_eq]
  exact ⟨rfl, rfl⟩

end CallByNeed
