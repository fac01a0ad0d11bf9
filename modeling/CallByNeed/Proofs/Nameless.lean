/-
  File:      CallByNeed/Proofs/Nameless.lean
  Subject:   Compiling forgets the names of parameters, and nothing else.

  A name in a tree means the nearest lambda around it with that parameter, and its code is the
  number of lambdas in between. So the code of a tree does not tell what its parameters are called, but it
  tells everything else: two trees have the same code exactly if one becomes the other by giving
  lambdas other parameters.

  * `Nameless` -- the translation, rule by rule; `ofExpr_eq_ok_iff`: compiling is this translation;
  * `Expr.rename`, `AlphaEq` -- a parameter gets another name, and the trees that are equal up to
    that;
  * `ofExpr_rename` -- a new name for a parameter does not show in the code;
  * `AlphaEq.nameless_iff`, `alphaEq_of_code` -- equal up to names is equal in code, both ways;
  * `compile_forgets_names` -- whole programs.
-/
import CallByNeed.Proofs.Binding
import Mathlib.Data.Fintype.EquivFin

namespace CallByNeed

/-! ## 1. The translation -/

/-- `code` is the tree without its names, where `scope` are the parameters of the lambdas around it,
    innermost first. -/
inductive Nameless : (scope : List String) → Expr → Code → Prop where
  | number {scope : List String} (p : Pos) (n : Int64) : Nameless scope (.number p n) (.number n)
  | string {scope : List String} (p : Pos) (s : String) : Nameless scope (.string p s) (.string s)
  /-- The lambdas `between` are nearer than the nearest one with the parameter `x`. -/
  | name {scope between outer : List String} (p : Pos) {x : String}
      (hscope : scope = between ++ x :: outer) (hx : x ∉ between) :
      Nameless scope (.name p x) (.var between.length)
  | builtin {scope : List String} (p : Pos) {b : Builtin} (hb : b ∈ Builtin.surface) :
      Nameless scope (.builtin p b.name) (.builtin b)
  | lambda {scope : List String} {p : Pos} {x : String} {body : Expr} {code : Code}
      (hbody : Nameless (x :: scope) body code) :
      Nameless scope (.lambda p x body) (.lambda code)
  | apply {scope : List String} {p : Pos} {func arg : Expr} {f a : Code}
      (hfunc : Nameless scope func f) (harg : Nameless scope arg a) :
      Nameless scope (.apply p func arg) (.apply f a)

/-- The nearest lambda with a parameter, as it is looked up. -/
theorem idxOf?_nearest {scope : List String} {x : String} {i : Nat} :
    scope.idxOf? x = some i ↔
      ∃ between outer, scope = between ++ x :: outer ∧ x ∉ between ∧ between.length = i := by
  rw [List.idxOf?_eq_some_iff]
  constructor
  · intro ⟨hi, hx, hnearer⟩
    refine ⟨scope.take i, scope.drop (i + 1), ?_, fun hmem => ?_, ?_⟩
    · rw [← hx, List.getElem_cons_drop, List.take_append_drop]
    · obtain ⟨j, hj, he⟩ := List.mem_take_iff_getElem.mp hmem
      exact hnearer j (by omega) he
    · rw [List.length_take]
      omega
  · intro ⟨between, outer, hscope, hnot, hi⟩
    subst hscope hi
    refine ⟨by simp, by simp, fun j hj he => hnot ?_⟩
    rw [List.getElem_append_left hj] at he
    exact he ▸ List.getElem_mem hj

/-- **Compiling is the translation**, in any scope. -/
theorem ofExpr_eq_ok_iff {scope : List String} {e : Expr} {code : Code} :
    Code.ofExpr scope e = .ok code ↔ Nameless scope e code := by
  constructor
  · intro h
    induction e generalizing scope code with
    | number p n =>
      cases h
      exact .number p n
    | string p s =>
      cases h
      exact .string p s
    | name p x =>
      unfold Code.ofExpr at h
      split at h
      · rename_i i hi
        cases h
        obtain ⟨between, outer, hscope, hx, rfl⟩ := idxOf?_nearest.mp hi
        exact .name p hscope hx
      · cases h
    | builtin p x =>
      unfold Code.ofExpr at h
      split at h
      · rename_i b hb
        cases h
        obtain ⟨hmem, rfl⟩ := ofName?_eq_some_iff.mp hb
        exact .builtin p hmem
      · cases h
    | lambda p x body ih =>
      unfold Code.ofExpr at h
      split at h
      · cases h
      · rename_i inner hbody
        cases h
        exact .lambda (ih hbody)
    | apply p func arg ihf iha =>
      unfold Code.ofExpr at h
      split at h
      · cases h
      · rename_i f hf
        split at h
        · cases h
        · rename_i a ha
          cases h
          exact .apply (ihf hf) (iha ha)
  · intro h
    induction h with
    | number p n => rfl
    | string p s => rfl
    | name p hscope hx =>
      rw [Code.ofExpr, idxOf?_nearest.mpr ⟨_, _, hscope, hx, rfl⟩]
    | builtin p hb => rw [Code.ofExpr, ofName?_eq_some_iff.mpr ⟨hb, rfl⟩]
    | lambda _ ih => rw [Code.ofExpr, ih]
    | apply _ _ ihf iha => simp only [Code.ofExpr, ihf, iha]

/-! ## 2. Other names for parameters -/

namespace Expr

/-- The names that stand in a tree, as names or as parameters. -/
def names : Expr → List String
  | .number .. | .string .. | .builtin .. => []
  | .name _ x => [x]
  | .lambda _ x body => x :: body.names
  | .apply _ func arg => func.names ++ arg.names

/-- The tree with the name `y` where the name `x` stands and means something outside the tree. -/
def rename (x y : String) : Expr → Expr
  | .number p n => .number p n
  | .string p s => .string p s
  | .name p z => .name p (if z = x then y else z)
  | .builtin p z => .builtin p z
  | .lambda p z body => .lambda p z (if z = x then body else body.rename x y)
  | .apply p func arg => .apply p (func.rename x y) (arg.rename x y)

end Expr

/-- Equal up to places and to the names of parameters. A parameter can be called by any name that
    does not stand in the body of its lambda, if all of its occurrences are. -/
inductive AlphaEq : Expr → Expr → Prop where
  | number {p q : Pos} {n : Int64} : AlphaEq (.number p n) (.number q n)
  | string {p q : Pos} {s : String} : AlphaEq (.string p s) (.string q s)
  | name {p q : Pos} {x : String} : AlphaEq (.name p x) (.name q x)
  | builtin {p q : Pos} {x : String} : AlphaEq (.builtin p x) (.builtin q x)
  | lambda {p q : Pos} {x : String} {b b' : Expr} (h : AlphaEq b b') :
      AlphaEq (.lambda p x b) (.lambda q x b')
  | apply {p q : Pos} {f f' a a' : Expr} (hf : AlphaEq f f') (ha : AlphaEq a a') :
      AlphaEq (.apply p f a) (.apply q f' a')
  | rename {p : Pos} {x y : String} {body : Expr} (hy : y ∉ body.names) :
      AlphaEq (.lambda p x body) (.lambda p y (body.rename x y))
  | symm {e e' : Expr} (h : AlphaEq e e') : AlphaEq e' e
  | trans {e e' e'' : Expr} (h : AlphaEq e e') (h' : AlphaEq e' e'') : AlphaEq e e''

/-! ## 3. A new name does not show in the code -/

/-- Two scopes in which the names of a tree mean the same give it the same code. -/
theorem ofExpr_congr {e : Expr} {scope scope' : List String}
    (h : ∀ x ∈ e.names, scope.idxOf? x = scope'.idxOf? x) :
    Code.ofExpr scope e = Code.ofExpr scope' e := by
  induction e generalizing scope scope' with
  | number p n => rfl
  | string p s => rfl
  | name p x => rw [Code.ofExpr, Code.ofExpr, h x List.mem_cons_self]
  | builtin p x => rfl
  | lambda p y body ih =>
    have hbody : Code.ofExpr (y :: scope) body = Code.ofExpr (y :: scope') body := by
      refine ih fun x hx => ?_
      rw [List.idxOf?_cons, List.idxOf?_cons, h x (List.mem_cons_of_mem y hx)]
    rw [Code.ofExpr, Code.ofExpr, hbody]
  | apply p func arg ihf iha =>
    rw [Code.ofExpr, Code.ofExpr, ihf fun x hx => h x (List.mem_append_left _ hx),
      iha fun x hx => h x (List.mem_append_right _ hx)]

/-- What a lambda is called makes no difference to other names. -/
theorem idxOf?_other {x y z : String} (hx : z ≠ x) (hy : z ≠ y) (inner outer : List String) :
    (inner ++ y :: outer).idxOf? z = (inner ++ x :: outer).idxOf? z := by
  have hbeq {w : String} (hw : z ≠ w) : (w == z) = false := beq_eq_false_iff_ne.mpr (Ne.symm hw)
  induction inner with
  | nil => simp only [List.nil_append, List.idxOf?_cons, hbeq hx, hbeq hy]
  | cons w inner ih => simp only [List.cons_append, List.idxOf?_cons, ih]

/-- **A tree in which a parameter has a new name has the same code**, `inner` being the lambdas
    between the tree and the one with that parameter. -/
theorem ofExpr_rename {e : Expr} {x y : String} (inner outer : List String)
    (hy : y ∉ e.names) (hxi : x ∉ inner) (hyi : y ∉ inner) :
    Code.ofExpr (inner ++ y :: outer) (e.rename x y) = Code.ofExpr (inner ++ x :: outer) e := by
  induction e generalizing inner with
  | number p n => rfl
  | string p s => rfl
  | builtin p z => rfl
  | name p z =>
    by_cases hz : z = x
    · subst hz
      have hnew := idxOf?_nearest.mpr ⟨inner, outer, rfl, hyi, rfl⟩
      have hold := idxOf?_nearest.mpr ⟨inner, outer, rfl, hxi, rfl⟩
      rw [Expr.rename, if_pos rfl, Code.ofExpr, Code.ofExpr, hnew, hold]
    · have hzy : z ≠ y := fun he => hy (by simp [Expr.names, he])
      rw [Expr.rename, if_neg hz, Code.ofExpr, Code.ofExpr, idxOf?_other hz hzy]
  | lambda p z body ih =>
    have hzy : z ≠ y := fun he => hy (by simp [Expr.names, he])
    have hbody : y ∉ body.names := fun h => hy (List.mem_cons_of_mem z h)
    by_cases hz : z = x
    · -- the lambda takes the name for itself: its body does not see the outer one
      subst hz
      have hsame : Code.ofExpr (z :: (inner ++ y :: outer)) body =
          Code.ofExpr (z :: (inner ++ z :: outer)) body := by
        refine ofExpr_congr fun w hw => ?_
        by_cases hwz : w = z
        · simp [List.idxOf?_cons, hwz]
        · have hwy : w ≠ y := fun he => hbody (he ▸ hw)
          rw [List.idxOf?_cons, List.idxOf?_cons, idxOf?_other hwz hwy]
      rw [Expr.rename, if_pos rfl, Code.ofExpr, Code.ofExpr, hsame]
    · have hinner := ih (z :: inner) hbody (List.not_mem_cons_of_ne_of_not_mem (Ne.symm hz) hxi)
        (List.not_mem_cons_of_ne_of_not_mem (Ne.symm hzy) hyi)
      rw [List.cons_append, List.cons_append] at hinner
      rw [Expr.rename, if_neg hz, Code.ofExpr, Code.ofExpr, hinner]
  | apply p func arg ihf iha =>
    have hfunc : y ∉ func.names := fun h => hy (List.mem_append_left _ h)
    have harg : y ∉ arg.names := fun h => hy (List.mem_append_right _ h)
    rw [Expr.rename, Code.ofExpr, Code.ofExpr, ihf inner hfunc hxi hyi, iha inner harg hxi hyi]

/-! ## 4. Equal up to names is equal in code -/

/-- **Trees that are equal up to names have the same code**, in every scope. -/
theorem AlphaEq.nameless_iff {e e' : Expr} (h : AlphaEq e e') (scope : List String) (code : Code) :
    Nameless scope e code ↔ Nameless scope e' code := by
  induction h generalizing scope code with
  | number =>
    constructor <;> intro hc <;> cases hc <;> exact .number _ _
  | string =>
    constructor <;> intro hc <;> cases hc <;> exact .string _ _
  | name =>
    constructor <;> intro hc <;> cases hc <;> exact .name _ ‹_› ‹_›
  | builtin =>
    constructor <;> intro hc <;> cases hc <;> exact .builtin _ ‹_›
  | lambda _ ih =>
    constructor
    · intro hc
      cases hc with
      | lambda hbody => exact .lambda ((ih _ _).mp hbody)
    · intro hc
      cases hc with
      | lambda hbody => exact .lambda ((ih _ _).mpr hbody)
  | apply _ _ ihf iha =>
    constructor
    · intro hc
      cases hc with
      | apply hf ha => exact .apply ((ihf _ _).mp hf) ((iha _ _).mp ha)
    · intro hc
      cases hc with
      | apply hf ha => exact .apply ((ihf _ _).mpr hf) ((iha _ _).mpr ha)
  | @rename p x y body hy =>
    have hrename : Code.ofExpr (y :: scope) (body.rename x y) = Code.ofExpr (x :: scope) body :=
      ofExpr_rename [] scope hy List.not_mem_nil List.not_mem_nil
    rw [← ofExpr_eq_ok_iff, ← ofExpr_eq_ok_iff, Code.ofExpr, Code.ofExpr, hrename]
  | symm _ ih => exact (ih scope code).symm
  | trans _ _ ih ih' => exact (ih scope code).trans (ih' scope code)

/-- A variable is the code of a name, which the scope tells. -/
theorem Nameless.var {scope : List String} {e : Expr} {i : Nat} (h : Nameless scope e (.var i)) :
    ∃ p x, e = .name p x ∧ scope[i]? = some x := by
  cases h with
  | @name _ between outer p x hscope hx => exact ⟨p, x, rfl, by simp [hscope]⟩

/-- **Trees with the same code in the same scope are equal up to names.** The induction is on the
    code: under a lambda both bodies get one and the same new parameter, so that they stand in the same
    scope again. -/
theorem alphaEq_of_code {code : Code} {scope : List String} {e e' : Expr}
    (h : Nameless scope e code) (h' : Nameless scope e' code) : AlphaEq e e' := by
  induction code generalizing scope e e' with
  | number n =>
    cases h
    cases h'
    exact .number
  | string s =>
    cases h
    cases h'
    exact .string
  | builtin b =>
    cases h
    cases h'
    exact .builtin
  | var i =>
    obtain ⟨p, x, rfl, hx⟩ := h.var
    obtain ⟨q, y, rfl, hy⟩ := h'.var
    obtain rfl : x = y := Option.some.inj (hx.symm.trans hy)
    exact .name
  | lambda code ih =>
    cases h with
    | @lambda _ p x b _ hb =>
    cases h' with
    | @lambda _ q y b' _ hb' =>
    obtain ⟨z, hz⟩ := Infinite.exists_notMem_finset (b.names ++ b'.names).toFinset
    rw [List.mem_toFinset, List.mem_append, not_or] at hz
    have hnew {w : String} {body : Expr} (hfresh : z ∉ body.names)
        (hcode : Nameless (w :: scope) body code) :
        Nameless (z :: scope) (body.rename w z) code := by
      rw [← ofExpr_eq_ok_iff] at hcode ⊢
      rw [← hcode]
      exact ofExpr_rename [] scope hfresh List.not_mem_nil List.not_mem_nil
    have hbodies : AlphaEq (b.rename x z) (b'.rename y z) := ih (hnew hz.1 hb) (hnew hz.2 hb')
    have hleft : AlphaEq (.lambda p x b) (.lambda p z (b.rename x z)) := .rename hz.1
    have hright : AlphaEq (.lambda q y b') (.lambda q z (b'.rename y z)) := .rename hz.2
    exact hleft.trans ((AlphaEq.lambda hbodies).trans hright.symm)
  | apply f a ihf iha =>
    cases h with
    | apply hf ha =>
    cases h' with
    | apply hf' ha' => exact .apply (ihf hf hf') (iha ha ha')

/-- **Compiling forgets the names of parameters, and nothing else.** A program compiles to the code
    that the translation gives it: a name counts the lambdas up to the nearest one with that
    parameter, `@name` is the primitive of that name that a program can write, and all else is kept.
    Two programs that compile have the same code exactly if they are equal up to places and to the
    names of parameters. -/
theorem compile_forgets_names :
    (∀ e code, e.compileWalk = .ok code ↔ Nameless [] e code) ∧
    ∀ e e' code code', e.compileWalk = .ok code → e'.compileWalk = .ok code' →
      (code = code' ↔ AlphaEq e e') := by
  have hcompile (e : Expr) (code : Code) : e.compileWalk = .ok code ↔ Nameless [] e code := by
    rw [e.compileWalk_eq, Expr.compile, ofExpr_eq_ok_iff]
  refine ⟨hcompile, fun e e' code code' h h' => ?_⟩
  constructor
  · intro hcode
    rw [← hcode] at h'
    exact alphaEq_of_code ((hcompile e code).mp h) ((hcompile e' code).mp h')
  · intro halpha
    have hsame := (halpha.nameless_iff [] code).mp ((hcompile e code).mp h)
    have hok : (Except.ok code : Except (At BindFault) Code) = .ok code' :=
      ((hcompile e' code).mpr hsame).symm.trans h'
    exact Except.ok.inj hok

end CallByNeed
