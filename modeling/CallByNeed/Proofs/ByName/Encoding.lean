/-
  File:      CallByNeed/Proofs/ByName/Encoding.lean
  Subject:   No program can tell a primitive from the term that encodes it.

  Without memory a program and its encoding take turns: whenever the program takes a step, both come
  to states of the same moment again (`TreeState.EncodedBy.turn`). The machine with memory ends as
  the one without, so the programs end alike.

  * `Value.Peer`, `strictTree_encodedBy` -- strict primitives come to the same from values that
    stand for each other; only the text of a value at fault can differ (`Fault.bare`);
  * `TreeState.EncodedBy.turn` -- one turn;
  * `Indistinguishable`, `church_encoding_unobservable` -- whole runs.
-/
import CallByNeed.Proofs.ByName.Agreement
import CallByNeed.Proofs.ByName.Church

namespace CallByNeed

/-! ## 1. Strict primitives -/

/-- A fault without the text of the value at fault. -/
def Fault.bare : Fault → Fault
  | .typeMismatch b _ => .typeMismatch b ""
  | fault => fault

/-- Values that a strict primitive cannot tell apart. -/
inductive Value.Peer : Value → Value → Prop where
  | number (n : Int64) : Value.Peer (.number n) (.number n)
  | string (s : String) : Value.Peer (.string s) (.string s)
  | function {v w : Value} (hv : v.isFunction = true) (hw : w.isFunction = true) : Value.Peer v w

/-- What strict primitives come to. -/
inductive Value.Computed : Value → Prop where
  | number (n : Int64) : Value.Computed (.number n)
  | string (s : String) : Value.Computed (.string s)
  | truth (b : Bool) : Value.Computed (.ofBool b)

section Results

variable {b : Builtin} {v w v' w' : Value}

theorem exactly_computed {n : Int} (h : exactly b n = .ok v) : v.Computed := by
  unfold exactly at h
  split at h <;> cases h
  exact .number _

theorem divided_computed {d : Int64} {n : Int} (h : divided b d n = .ok v) : v.Computed := by
  unfold divided at h
  split at h
  · cases h
  · exact exactly_computed h

theorem arithmetic?_computed {m n : Int64} (h : arithmetic? b m n = some (.ok v)) : v.Computed := by
  unfold arithmetic? at h
  split at h <;> simp only [Option.some.injEq, reduceCtorEq] at h
  · exact exactly_computed h
  · exact exactly_computed h
  · exact exactly_computed h
  · exact divided_computed h
  · exact divided_computed h
  · cases h
    exact .truth _
  · cases h
    exact .truth _

theorem textual?_computed {s t : String} (h : textual? b s t = some (.ok v)) : v.Computed := by
  unfold textual? at h
  split at h <;> cases h
  · exact .string _
  · exact .truth _
  · exact .truth _

theorem getD_unfitPair {r : Option (Except Fault Value)} (h : r.getD (unfitPair b v w) = .ok v') :
    r = some (.ok v') := by
  cases r with
  | none => cases h
  | some r => exact congrArg some h

theorem binaryResult_computed (h : binaryResult b v w = .ok v') : v'.Computed := by
  unfold binaryResult at h
  split at h
  · cases h
    exact .truth _
  · exact arithmetic?_computed (getD_unfitPair h)
  · exact textual?_computed (getD_unfitPair h)
  · cases h
    exact .string _
  · cases h
    exact .string _
  · cases h

theorem strictResult_computed {args : List Value} (h : strictResult b args = .ok v) :
    v.Computed := by
  unfold strictResult at h
  split at h
  · cases h
    exact .number _
  · cases h
  · exact binaryResult_computed h
  · cases h

/-- With a function no primitive computes anything but that it equals nothing. -/
theorem binaryResult_of_function (h : v.isFunction = true ∨ w.isFunction = true) :
    (binaryResult b v w).mapError Fault.bare =
      if b = .eq then .ok (Value.ofBool false) else .error (.typeMismatch b "") := by
  by_cases hb : b = .eq
  · subst hb
    cases v <;> cases w <;> first | rfl | simp [Value.isFunction] at h
  · rw [if_neg hb]
    cases v <;> cases w <;>
      simp_all [binaryResult, Value.isFunction, unfitPair, unfit, Except.mapError, Fault.bare]

theorem binaryResult_peer (hv : v.Peer v') (hw : w.Peer w') :
    (binaryResult b v w).mapError Fault.bare = (binaryResult b v' w').mapError Fault.bare := by
  cases hv with
  | function hv hv' => rw [binaryResult_of_function (.inl hv), binaryResult_of_function (.inl hv')]
  | number n =>
    cases hw with
    | function hw hw' =>
      rw [binaryResult_of_function (.inr hw), binaryResult_of_function (.inr hw')]
    | _ => rfl
  | string s =>
    cases hw with
    | function hw hw' =>
      rw [binaryResult_of_function (.inr hw), binaryResult_of_function (.inr hw')]
    | _ => rfl

theorem strictResult_of_function (hv : v.isFunction = true) :
    (strictResult b [v]).mapError Fault.bare = .error (.typeMismatch b "") := by
  cases v with
  | number n => cases hv
  | string s => cases hv
  | closure body env => cases b <;> rfl
  | primitive b' args => cases b <;> rfl

/-- **A strict primitive cannot tell one function from another.** -/
theorem strictResult_peer {vs ws : List Value} (h : List.Forall₂ Value.Peer vs ws) :
    (strictResult b vs).mapError Fault.bare = (strictResult b ws).mapError Fault.bare := by
  cases h with
  | nil => rfl
  | cons hv h =>
    cases h with
    | nil =>
      cases hv with
      | function hv hv' => rw [strictResult_of_function hv, strictResult_of_function hv']
      | _ => rfl
    | cons hw h =>
      cases h with
      | nil => simpa [strictResult] using binaryResult_peer hv hw
      | cons _ h => simp [strictResult, Except.mapError, Fault.bare]

end Results

theorem Meaning.EncodedBy.peer {v w : Meaning} (h : v.EncodedBy w) : v.blank.Peer w.blank := by
  cases h with
  | number n => exact .number n
  | string s => exact .string s
  | closure => exact .function rfl rfl
  | kept => exact .function rfl rfl
  | collecting => exact .function rfl rfl
  | ignoresTwo => exact .function rfl rfl
  | ignoresOne => exact .function rfl rfl

/-- What a strict primitive computes stands for itself. -/
theorem Value.Computed.encodedBy {v : Value} (h : v.Computed) (g : Nat → Tree) :
    (v.over g).EncodedBy (v.over g) := by
  cases h with
  | number n => exact .number n
  | string s => exact .string s
  | truth b => cases b <;> exact .kept rfl .nil Nat.zero_lt_two

theorem strictTree_of_ne_print {b : Builtin} (hb : b ≠ .print) (vs : List Meaning) :
    strictTree b vs =
      (strictResult b (vs.map Meaning.blank)).map (Value.over fun _ => default) := by
  unfold strictTree
  rw [strictEffect_of_ne_print fun _ h => absurd h hb]
  cases strictResult b (vs.map Meaning.blank) <;> rfl

/-- What a step or a run comes to, in both programs. -/
def ResultEncodedBy : Except Fault Meaning → Except Fault Meaning → Prop
  | .ok v, .ok w => v.EncodedBy w
  | .error f, .error g => f.bare = g.bare
  | _, _ => False

theorem strictTree_encodedBy {b : Builtin} (hb : b ≠ .print) {vs ws : List Meaning}
    (h : List.Forall₂ Meaning.EncodedBy vs ws) :
    ResultEncodedBy (strictTree b vs) (strictTree b ws) := by
  have hpeers : List.Forall₂ Value.Peer (vs.map Meaning.blank) (ws.map Meaning.blank) :=
    List.forall₂_map_left_iff.mpr
      (List.forall₂_map_right_iff.mpr (h.imp fun _ _ => Meaning.EncodedBy.peer))
  have hsame := strictResult_peer (b := b) hpeers
  rw [strictTree_of_ne_print hb, strictTree_of_ne_print hb]
  cases hv : strictResult b (vs.map Meaning.blank) with
  | ok v =>
    rw [hv] at hsame
    cases hw : strictResult b (ws.map Meaning.blank) with
    | ok w =>
      rw [hw] at hsame
      obtain rfl : v = w := Except.ok.inj hsame
      exact (strictResult_computed hv).encodedBy _
    | error g =>
      rw [hw] at hsame
      cases hsame
  | error f =>
    rw [hv] at hsame
    cases hw : strictResult b (ws.map Meaning.blank) with
    | ok w =>
      rw [hw] at hsame
      cases hsame
    | error g =>
      rw [hw] at hsame
      exact Except.error.inj hsame

/-! ## 2. One turn -/

@[simp] theorem Code.printFree_builtin {b : Builtin} : (Code.builtin b).PrintFree ↔ b ≠ .print := by
  simp [Code.PrintFree, Code.builtins, eq_comm]

@[simp] theorem Code.printFree_lambda {body : Code} :
    (Code.lambda body).PrintFree ↔ body.PrintFree :=
  Iff.rfl

@[simp] theorem Code.printFree_apply {f x : Code} :
    (Code.apply f x).PrintFree ↔ f.PrintFree ∧ x.PrintFree := by
  simp [Code.PrintFree, Code.builtins]

/-- What the program comes to next, and the state that the encoded program is in. -/
def Answers : Except Fault TreeState → TreeState → Prop
  | .ok s, t =>
    ∃ k m s' t', treeMachine.Steps k s s' ∧ treeMachine.Steps (m + 1) t t' ∧ s'.EncodedBy t'
  | .error f, t =>
    ∃ g, (∀ below, treeMachine.next (t.onto below) = .inr (.error g)) ∧ f.bare = g.bare

/-- A turn: both machines without memory end alike, or go on to states of the same moment. -/
abbrev TreeTurn (s t : TreeState) : Prop :=
  Turn treeMachine treeMachine TreeState.EncodedBy ResultEncodedBy s t

theorem Answers.turn {r : Except Fault TreeState} {s t : TreeState} {fs gs : List TreeFrame}
    (hs : treeMachine.next s = resume r fs) (h : Answers r t)
    (hfs : List.Forall₂ TreeFrame.EncodedBy fs gs) : TreeTurn s (t.onto gs) := by
  cases r with
  | ok s₁ =>
    obtain ⟨k, m, s', t', hs', ht', hst⟩ := h
    exact .inr ⟨k, m, _, _, .head hs (treeMachine_onto hs' fs), treeMachine_onto ht' gs,
      hst.onto hfs⟩
  | error f =>
    obtain ⟨g, hg, hfg⟩ := h
    exact .inl ⟨_, _, hs, hg gs, hfg⟩

/-- What one step comes to, in both programs. -/
def StepEncodedBy : Except Fault TreeState → Except Fault TreeState → Prop
  | .ok s, .ok t => s.EncodedBy t
  | .error f, .error g => f.bare = g.bare
  | _, _ => False

/-- Both programs take one step. -/
theorem Answers.of_step {r r' : Except Fault TreeState} {t : TreeState}
    (ht : ∀ below, treeMachine.next (t.onto below) = resume r' below) (h : StepEncodedBy r r') :
    Answers r t := by
  cases r with
  | ok s =>
    cases r' with
    | ok t' =>
      have hnext := ht []
      simp only [TreeState.onto, resume, List.append_nil] at hnext
      exact ⟨0, 0, s, t', .refl s, .single hnext, h⟩
    | error g => exact h.elim
  | error f =>
    cases r' with
    | ok t' => exact h.elim
    | error g => exact ⟨g, ht, h⟩

theorem Answers.of_give {r : Except Fault TreeState} {w : Meaning} {g : TreeFrame}
    (h : StepEncodedBy r (giveTree w g)) : Answers r ⟨.give w, [g]⟩ :=
  .of_step (fun _ => rfl) h

theorem encodedBy_snoc {α : Type} {R : α → α → Prop} {xs ys : List α} {x y : α}
    (h : List.Forall₂ R xs ys) (hx : R x y) : List.Forall₂ R (xs ++ [x]) (ys ++ [y]) :=
  List.rel_append h (.cons hx .nil)

/-- The cells of a variable. -/
theorem encodedBy_lookup {env env' : List Tree} (h : List.Forall₂ Tree.EncodedBy env env')
    (i : Nat) :
    (env[i]? = none ∧ env'[i]? = none) ∨
      ∃ t u, env[i]? = some t ∧ env'[i]? = some u ∧ t.EncodedBy u := by
  induction h generalizing i with
  | nil => exact .inl ⟨rfl, rfl⟩
  | cons ht _ ih =>
    cases i with
    | zero => exact .inr ⟨_, _, rfl, rfl, ht⟩
    | succ i => exact ih i

/-- A primitive that a program names stays, or it is a function of at least one argument. -/
theorem Builtin.church_cases (b : Builtin) (hb : b ≠ .print) :
    (b.isKept = Bool.true ∧ b.church = .builtin b) ∨
      ∃ (body : Code) (n : Nat), b.church = body.under b.collects ∧ n + 1 = b.collects := by
  cases hs : b.isStrict with
  | true =>
    refine .inl ⟨?_, church_strict hs⟩
    cases b <;> first | rfl | exact absurd rfl hb | cases hs
  | false =>
    obtain ⟨body, hbody⟩ := church_under hs
    refine .inr ⟨body, b.collects - 1, hbody, ?_⟩
    cases b <;> rfl

theorem Builtin.collects_pos {b : Builtin} : 0 < b.collects := by cases b <;> decide

theorem argumentTree_encodedBy {code : Code} {env env' : List Tree} (hcode : code.PrintFree)
    (henv : List.Forall₂ Tree.EncodedBy env env') :
    (∃ f, argumentTree env code = .error f ∧ argumentTree env' code.encode = .error f) ∨
      ∃ t u, argumentTree env code = .ok t ∧ argumentTree env' code.encode = .ok u ∧
        t.EncodedBy u := by
  cases code with
  | number n => exact .inr ⟨_, _, rfl, rfl, .value (.number n)⟩
  | string s => exact .inr ⟨_, _, rfl, rfl, .value (.string s)⟩
  | lambda body => exact .inr ⟨_, _, rfl, rfl, .value (.closure hcode henv)⟩
  | apply f x => exact .inr ⟨_, _, rfl, rfl, .suspended hcode henv⟩
  | var i =>
    simp only [Code.encode, argumentTree]
    rcases encodedBy_lookup henv i with ⟨h, h'⟩ | ⟨t, u, h, h', htu⟩
    · rw [h, h']
      exact .inl ⟨.unboundVariable i, rfl, rfl⟩
    · rw [h, h']
      exact .inr ⟨t, u, rfl, rfl, htu⟩
  | builtin b =>
    rw [Code.encode]
    rcases b.church_cases (Code.printFree_builtin.mp hcode) with ⟨hkept, hb⟩ | ⟨body, n, hb, hn⟩
    · rw [hb]
      exact .inr ⟨_, _, rfl, rfl, .value (.kept hkept .nil b.collects_pos)⟩
    · have hunapplied := Meaning.EncodedBy.unapplied hb hn env'
      rw [hb, ← hn]
      exact .inr ⟨_, _, rfl, rfl, .value hunapplied⟩

theorem evalTree_encodedBy {code : Code} {env env' : List Tree} (hcode : code.PrintFree)
    (henv : List.Forall₂ Tree.EncodedBy env env') :
    StepEncodedBy (evalTree env code) (evalTree env' code.encode) := by
  cases code with
  | number n => exact ⟨.give (.number n), .nil⟩
  | string s => exact ⟨.give (.string s), .nil⟩
  | lambda body => exact ⟨.give (.closure hcode henv), .nil⟩
  | var i =>
    simp only [Code.encode, evalTree]
    rcases encodedBy_lookup henv i with ⟨h, h'⟩ | ⟨t, u, h, h', htu⟩
    · rw [h, h']
      exact (rfl : (Fault.unboundVariable i).bare = _)
    · rw [h, h']
      exact ⟨.force htu, .nil⟩
  | apply f x =>
    obtain ⟨hf, hx⟩ := Code.printFree_apply.mp hcode
    simp only [Code.encode, evalTree]
    rcases argumentTree_encodedBy hx henv with ⟨fault, h, h'⟩ | ⟨t, u, h, h', htu⟩
    · rw [h, h']
      exact (rfl : fault.bare = _)
    · rw [h, h']
      exact ⟨.eval hf henv, .cons (.apply htu) .nil⟩
  | builtin b =>
    rw [Code.encode]
    rcases b.church_cases (Code.printFree_builtin.mp hcode) with ⟨hkept, hb⟩ | ⟨body, n, hb, hn⟩
    · rw [hb]
      exact ⟨.give (.kept hkept .nil b.collects_pos), .nil⟩
    · have hunapplied := Meaning.EncodedBy.unapplied hb hn env'
      rw [hb, ← hn]
      exact ⟨.give hunapplied, .nil⟩

theorem encodedBy_applies {xs ys : List Tree} (h : List.Forall₂ Tree.EncodedBy xs ys) :
    List.Forall₂ TreeFrame.EncodedBy (xs.map .apply) (ys.map .apply) := by
  induction h with
  | nil => exact .nil
  | cons hx _ ih => exact .cons (.apply hx) ih

theorem force_answers {t u : Tree} (h : t.EncodedBy u) :
    Answers (.ok (forceTree t)) ⟨.force u, []⟩ := by
  cases h with
  | suspended hcode henv => exact ⟨0, 0, _, _, .refl _, .single rfl, .eval hcode henv, .nil⟩
  | ready hu hv => exact ⟨0, _, _, _, .refl _, hu, .give hv, .nil⟩
  | @deferred _ _ f g xs ys m n ht hu hf hxs =>
    -- the first of the steps is the one that is taken now
    cases ht with
    | head hnext hrest =>
      cases hnext
      have hrest : treeMachine.Steps m (forceTree t) ⟨.force f, xs.map .apply⟩ := by
        simpa [TreeState.onto] using hrest
      exact ⟨m, n, _, _, hrest, hu, .force hf, encodedBy_applies hxs⟩

theorem actTree_encodedBy {b : Builtin} {args args' : List Tree} (hb : b.isKept = true)
    (hargs : List.Forall₂ Tree.EncodedBy args args') (hpos : 0 < args.length)
    (hlen : args.length ≤ b.collects) : StepEncodedBy (actTree b args) (actTree b args') := by
  have hlen' := hargs.length_eq
  unfold actTree
  rw [← hlen']
  split
  · rename_i hlt
    exact ⟨.give (.kept hb hargs hlt), .nil⟩
  · have hfull : args.length = b.collects := by omega
    split
    · rename_i hs
      cases hargs with
      | nil => cases hpos
      | cons ht hargs =>
        have hprint : b ≠ .print := by
          rintro rfl
          cases hb
        exact ⟨.force ht, .cons (.strict hprint .nil hargs) .nil⟩
    · rename_i hs
      -- only the truth values are left
      have htruth : b = .true ∨ b = .false := by
        cases b <;> simp [Builtin.isKept, Builtin.isStrict] at hb hs ⊢
      rcases htruth with rfl | rfl
      · match args, args', hargs, hfull with
        | [_, _], [_, _], .cons ha (.cons _ .nil), _ => exact ⟨.force ha, .nil⟩
      · match args, args', hargs, hfull with
        | [_, _], [_, _], .cons _ (.cons ha .nil), _ => exact ⟨.force ha, .nil⟩

/-- A primitive gets one more argument, and so does its term. -/
theorem collecting_answers {b : Builtin} {body : Code} {args args' rest : List Tree} {n : Nat}
    {t u : Tree} (hb : b.church = body.under b.collects)
    (hargs : List.Forall₂ Tree.EncodedBy args args') (hn : args.length + (n + 1) = b.collects)
    (htu : t.EncodedBy u) :
    Answers (actTree b (args ++ [t]))
      ⟨.give (.closure (body.under n) (args'.reverse ++ rest)), [.apply u]⟩ := by
  have hstrict : b.isStrict = false := by
    cases hs : b.isStrict with
    | false => rfl
    | true =>
      rw [Builtin.church_strict hs, ← hn] at hb
      cases hb
  have hargs' := encodedBy_snoc hargs htu
  have hlen : (args ++ [t]).length = args.length + 1 := by simp
  have henv : u :: (args'.reverse ++ rest) = (args' ++ [u]).reverse ++ rest := by simp
  -- the term takes its next argument
  have hnext : treeMachine.next
      ⟨.give (.closure (body.under n) (args'.reverse ++ rest)), [.apply u]⟩ =
        .inl ⟨.eval (body.under n) ((args' ++ [u]).reverse ++ rest), []⟩ := by
    rw [← henv]
    rfl
  unfold actTree
  cases n with
  | zero =>
    rw [if_neg (by omega), if_neg (by simp [hstrict])]
    obtain ⟨s, hs, k, m, s', t', hs', ht', hst⟩ :=
      encoded_fires hb hargs' (by omega) rest
    rw [hs]
    exact ⟨k, m, s', t', hs', .head hnext ht', hst⟩
  | succ n =>
    rw [if_pos (by omega)]
    exact ⟨0, 1, _, _, .refl _, .head hnext (.single rfl),
      .give (.collecting hb hargs' (by omega) rfl), .nil⟩

theorem giveTree_answers {v w : Meaning} {f g : TreeFrame} (hv : v.EncodedBy w)
    (hf : f.EncodedBy g) : Answers (giveTree v f) ⟨.give w, [g]⟩ := by
  cases hf with
  | @strict b vs ws ts us hb hvs hts =>
    have hall := encodedBy_snoc hvs hv
    refine .of_give ?_
    cases hts with
    | cons ht hts => exact ⟨.force ht, .cons (.strict hb hall hts) .nil⟩
    | nil =>
      have hresult := strictTree_encodedBy hb hall
      simp only [giveTree]
      cases hr : strictTree b (vs ++ [v]) <;> cases hr' : strictTree b (ws ++ [w]) <;>
        rw [hr, hr'] at hresult
      · exact hresult
      · exact hresult.elim
      · exact hresult.elim
      · exact ⟨.give hresult, .nil⟩
  | @apply t u htu =>
    cases hv with
    | number n => exact .of_give (rfl : (Fault.notCallable (decimal n)).bare = _)
    | string s => exact .of_give (rfl : (Fault.notCallable s).bare = _)
    | closure hcode henv => exact .of_give ⟨.eval hcode (.cons htu henv), .nil⟩
    | kept hb hargs hlen =>
      refine .of_give (actTree_encodedBy hb (encodedBy_snoc hargs htu) (by simp) ?_)
      rw [List.length_append]
      exact hlen
    | collecting hb hargs hn henv =>
      subst henv
      exact collecting_answers hb hargs hn htu
    | ignoresTwo env =>
      exact ⟨1, 1, _, _, .single rfl, .head rfl (.single rfl), .give (.ignoresOne _), .nil⟩
    | ignoresOne env =>
      exact ⟨1, 1, _, _, .single rfl, .head rfl (.single rfl),
        .give (.unapplied (b := .false) (n := 1) rfl rfl _), .nil⟩

/-- **Whatever the program does next, both programs come to states of the same moment.** -/
theorem TreeState.EncodedBy.turn {s t : TreeState} (h : s.EncodedBy t) : TreeTurn s t := by
  obtain ⟨focus, fs⟩ := s
  obtain ⟨focus', gs⟩ := t
  obtain ⟨hfocus, hframes⟩ := h
  cases hfocus with
  | @eval code env env' hcode henv =>
    have hstep := evalTree_encodedBy hcode henv
    have hanswers : Answers (evalTree env code) ⟨.eval code.encode env', []⟩ :=
      .of_step (fun _ => rfl) hstep
    exact hanswers.turn rfl hframes
  | force htu => exact (force_answers htu).turn rfl hframes
  | give hv =>
    cases hframes with
    | nil => exact .inl ⟨_, _, rfl, rfl, hv⟩
    | cons hf hframes => exact (giveTree_answers hv hf).turn rfl hframes

/-! ## 3. Whole runs -/

/-- Without limits the code comes to this ending. -/
def ComesTo (c : Code) (e : Ending) : Prop := ∃ n, (evaluate c ⟨n, none⟩).ending = e

/-- Without limits two programs come to the same number, to the same string, both to a function, to
    the same fault but for the text of a value at fault, or to no end. -/
structure Indistinguishable (c d : Code) : Prop where
  number : ∀ m, ComesTo c (.value (.number m)) ↔ ComesTo d (.value (.number m))
  string : ∀ s, ComesTo c (.value (.string s)) ↔ ComesTo d (.value (.string s))
  function : (∃ v, v.isFunction = true ∧ ComesTo c (.value v)) ↔
    ∃ v, v.isFunction = true ∧ ComesTo d (.value v)
  fault : ∀ f : Fault, (∃ g, g.bare = f.bare ∧ ComesTo c (.fault g)) ↔
    ∃ g, g.bare = f.bare ∧ ComesTo d (.fault g)
  endless : (∀ n, (evaluate c ⟨n, none⟩).ending = .outOfTime) ↔
    ∀ n, (evaluate d ⟨n, none⟩).ending = .outOfTime

theorem Indistinguishable.symm {c d : Code} (h : Indistinguishable c d) : Indistinguishable d c :=
  ⟨fun m => (h.number m).symm, fun s => (h.string s).symm, h.function.symm,
    fun f => (h.fault f).symm, h.endless.symm⟩

theorem Indistinguishable.trans {c d e : Code} (h : Indistinguishable c d)
    (h' : Indistinguishable d e) : Indistinguishable c e :=
  ⟨fun m => (h.number m).trans (h'.number m), fun s => (h.string s).trans (h'.string s),
    h.function.trans h'.function, fun f => (h.fault f).trans (h'.fault f),
    h.endless.trans h'.endless⟩

/-- Endings that a program cannot tell apart. -/
def Ending.Peer : Ending → Ending → Prop
  | .value v, .value w => v.Peer w
  | .fault f, .fault g => f.bare = g.bare
  | _, _ => False

theorem Value.Peer.symm {v w : Value} (h : v.Peer w) : w.Peer v := by
  cases h with
  | number n => exact .number n
  | string s => exact .string s
  | function hv hw => exact .function hw hv

theorem Ending.Peer.symm {e e' : Ending} (h : e.Peer e') : e'.Peer e := by
  cases e <;> cases e' <;> first | exact Value.Peer.symm h | exact Eq.symm h | exact h.elim

theorem Value.Peer.of_blank {v w : Value} (h : v.blank.Peer w.blank) : v.Peer w := by
  generalize hv : v.blank = v' at h
  generalize hw : w.blank = w' at h
  cases h with
  | number n =>
    cases v <;> cases hv
    cases w <;> cases hw
    exact .number n
  | string s =>
    cases v <;> cases hv
    cases w <;> cases hw
    exact .string s
  | function h h' =>
    rw [← hv, Value.isFunction_blank] at h
    rw [← hw, Value.isFunction_blank] at h'
    exact .function h h'

theorem Alike.of_ok {e : Ending} {p : Printed} {m : Meaning} (h : Alike (e, p) (.ok m)) :
    ∃ v, e = .value v ∧ m.blank = v.blank := by
  cases e with
  | value v => exact ⟨v, rfl, h⟩
  | fault | outOfTime | outOfFrames => exact h.elim

theorem Alike.of_error {e : Ending} {p : Printed} {f : Fault} (h : Alike (e, p) (.error f)) :
    e = .fault f := by
  cases e with
  | fault g => exact congrArg Ending.fault (Eq.symm h)
  | value | outOfTime | outOfFrames => exact h.elim

theorem peer_of_alike {e e' : Ending} {p p' : Printed} {d d' : Except Fault Meaning}
    (h : Alike (e, p) d) (h' : Alike (e', p') d') (hd : ResultEncodedBy d d') : e.Peer e' := by
  cases d with
  | ok m =>
    cases d' with
    | error g => exact hd.elim
    | ok m' =>
      obtain ⟨v, rfl, hv⟩ := h.of_ok
      obtain ⟨w, rfl, hw⟩ := h'.of_ok
      have hpeer := Meaning.EncodedBy.peer hd
      rw [hv, hw] at hpeer
      exact hpeer.of_blank
  | error f =>
    cases d' with
    | ok m' => exact hd.elim
    | error g =>
      obtain rfl := h.of_error
      obtain rfl := h'.of_error
      exact hd

theorem comesTo_iff {c : Code} {e : Ending} (he : e ≠ .outOfTime) :
    ComesTo c e ↔ ∃ p, needMachine.Ends (State.start c) (e, p) := by
  have hrun : ∀ n, evaluate c ⟨n, none⟩ = runBy step n 0 (State.start c) :=
    fun n => run_none_eq n 0 _
  simp only [ComesTo, hrun]
  exact exists_ending_iff he

/-- The tree of a program at its start. -/
theorem start_byNeed (c : Code) : ByNeed (State.start c) ⟨.eval c [], []⟩ :=
  ⟨orderly_start c, _, unfolds_start c, rfl⟩

theorem start_encodedBy {c : Code} (hc : c.PrintFree) :
    TreeState.EncodedBy ⟨.eval c [], []⟩ ⟨.eval c.encode [], []⟩ :=
  ⟨.eval hc .nil, .nil⟩

theorem Ending.Peer.ne_outOfTime {e e' : Ending} (h : e.Peer e') : e ≠ .outOfTime := by
  intro he
  subst he
  exact h.elim

/-- What the one program ends with, the other one ends with. -/
def Carries (c d : Code) : Prop :=
  ∀ e, e ≠ .outOfTime → ComesTo c e → ∃ e', ComesTo d e' ∧ e.Peer e'

/-- Two programs that take turns from their start on end alike. -/
theorem carries_of_turn {c d : Code} {R : TreeState → TreeState → Prop}
    {E : Except Fault Meaning → Except Fault Meaning → Prop}
    (hT : ∀ s t, R s t → Turn treeMachine treeMachine R E s t)
    (hR : R ⟨.eval c [], []⟩ ⟨.eval d [], []⟩)
    (hE : ∀ {e e' p p' r r'}, Alike (e, p) r → Alike (e', p') r' → E r r' → e.Peer e') :
    Carries c d := by
  intro e hne he
  obtain ⟨p, hends⟩ := (comesTo_iff hne).mp he
  obtain ⟨r, hr, halike⟩ := need_followed.ends (start_byNeed c) hends
  obtain ⟨r', hr', hrr⟩ := ends_of_turn hT hR hr
  obtain ⟨⟨e', p'⟩, hends', halike'⟩ := need_followed.ends_back (start_byNeed d) hr'
  have hpeer := hE halike halike' hrr
  exact ⟨e', (comesTo_iff hpeer.symm.ne_outOfTime).mpr ⟨p', hends'⟩, hpeer⟩

section Carries

variable {c d : Code} (h : Carries c d)

include h

theorem Carries.number {m : Int64} (hc : ComesTo c (.value (.number m))) :
    ComesTo d (.value (.number m)) := by
  obtain ⟨e, he, hpeer⟩ := h _ (by simp) hc
  cases e with
  | value w =>
    have hpeer : Value.Peer (.number m) w := hpeer
    cases hpeer with
    | number => exact he
    | function hv => cases hv
  | fault | outOfTime | outOfFrames => exact hpeer.elim

theorem Carries.string {s : String} (hc : ComesTo c (.value (.string s))) :
    ComesTo d (.value (.string s)) := by
  obtain ⟨e, he, hpeer⟩ := h _ (by simp) hc
  cases e with
  | value w =>
    have hpeer : Value.Peer (.string s) w := hpeer
    cases hpeer with
    | string => exact he
    | function hv => cases hv
  | fault | outOfTime | outOfFrames => exact hpeer.elim

theorem Carries.function (hc : ∃ v, v.isFunction = true ∧ ComesTo c (.value v)) :
    ∃ v, v.isFunction = true ∧ ComesTo d (.value v) := by
  obtain ⟨v, hv, hc⟩ := hc
  obtain ⟨e, he, hpeer⟩ := h _ (by simp) hc
  cases e with
  | value w =>
    have hpeer : v.Peer w := hpeer
    cases hpeer with
    | number => cases hv
    | string => cases hv
    | function _ hw => exact ⟨w, hw, he⟩
  | fault | outOfTime | outOfFrames => exact hpeer.elim

theorem Carries.fault {f : Fault} (hc : ∃ g, g.bare = f.bare ∧ ComesTo c (.fault g)) :
    ∃ g, g.bare = f.bare ∧ ComesTo d (.fault g) := by
  obtain ⟨g, hg, hc⟩ := hc
  obtain ⟨e, he, hpeer⟩ := h _ (by simp) hc
  cases e with
  | fault g' =>
    have hpeer : g.bare = g'.bare := hpeer
    exact ⟨g', hpeer.symm.trans hg, he⟩
  | value | outOfTime | outOfFrames => exact hpeer.elim

theorem Carries.endless (hd : ∀ n, (evaluate d ⟨n, none⟩).ending = .outOfTime) :
    ∀ n, (evaluate c ⟨n, none⟩).ending = .outOfTime := by
  intro n
  refine Decidable.byContradiction fun hne => ?_
  obtain ⟨e, ⟨m, he⟩, hpeer⟩ := h _ hne ⟨n, rfl⟩
  exact hpeer.symm.ne_outOfTime (he.symm.trans (hd m))

end Carries

theorem Carries.indistinguishable {c d : Code} (h : Carries c d) (h' : Carries d c) :
    Indistinguishable c d :=
  ⟨fun _ => ⟨h.number, h'.number⟩, fun _ => ⟨h.string, h'.string⟩, ⟨h.function, h'.function⟩,
    fun _ => ⟨h.fault, h'.fault⟩, ⟨h'.endless, h.endless⟩⟩

/-- A program and its encoding cannot be told apart. -/
theorem encode_indistinguishable {c : Code} (hc : c.PrintFree) : Indistinguishable c c.encode := by
  have hturn : ∀ s t, TreeState.EncodedBy s t → TreeTurn s t := fun s t h => h.turn
  have hforth : Carries c c.encode := carries_of_turn hturn (start_encodedBy hc) peer_of_alike
  have hback : Carries c.encode c :=
    carries_of_turn (fun t s h => (hturn s t h).flip) (start_encodedBy hc)
      fun h h' hd => (peer_of_alike h' h hd).symm
  exact hforth.indistinguishable hback

/-- **No program can tell a primitive from its encoding.** Code that prints nothing and the same
    code with every primitive replaced by its term come, without limits, to the same number or
    string, both to a function, to a fault of the same kind, or both to no end; and so do any two
    codes that differ only in which primitives are replaced. -/
theorem church_encoding_unobservable (c : Code) (hc : c.PrintFree) :
    Indistinguishable c c.encode ∧
      ∀ d : Code, d.PrintFree → d.encode = c.encode → Indistinguishable c d := by
  refine ⟨encode_indistinguishable hc, fun d hd hcd => ?_⟩
  have hencoded := encode_indistinguishable hd
  rw [hcd] at hencoded
  exact (encode_indistinguishable hc).trans hencoded.symm

/-- The second number of a list, behind `tail`. -/
theorem church_encoding_unobservable_second :
    let list (xs : List Int64) : Code :=
      xs.foldr (fun n l => .call (.builtin .append) [.number n, l]) (.builtin .nil)
    let c : Code := .apply (.builtin .head) (.apply (.builtin .tail) (list [7, 8, 9]))
    c.PrintFree ∧ ComesTo c (.value (.number 8)) ∧ ComesTo c.encode (.value (.number 8)) := by
  intro list c
  have hc : c.PrintFree := by decide
  have hrun : ComesTo c (.value (.number 8)) := ⟨200, by decide⟩
  exact ⟨hc, hrun, ((church_encoding_unobservable c hc).1.number 8).mp hrun⟩

end CallByNeed
