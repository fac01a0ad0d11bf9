/-
  File:      CallByNeed/Proofs/Parser/InStep.lean
  Subject:   Two readings that go in step.

  A law about reading compares two readings more often than not: of a text and of the same text with
  something behind it, under a limit and under a higher one, or of one text with itself, to carry an
  invariant along. `Link` names what is kept between the two: cursors, places, trees and faults.
  If the tokens keep it (`InStep`), whole lines do.

  * `Link`, `Link.Outcome` -- what two readings have in common, and their results;
  * `InStep` -- the link is kept by every token and by every node of a tree;
  * `InStep.tree?` -- the trees of two flat lines;
  * `InStep.term?`, `InStep.line` -- so it is kept by terms and lines, the second reading with
    `ahead` more levels to go.
-/
import CallByNeed.Proofs.Parser.Progress
import Mathlib.Data.List.Forall2

namespace CallByNeed

/-! ## 1. Links -/

section Rel

variable {α β γ δ : Type} {R : α → β → Prop} {S : γ → δ → Prop} {o : Option α} {o' : Option β}

theorem rel_cases (h : Option.Rel R o o') :
    (o = none ∧ o' = none) ∨ ∃ a b, o = some a ∧ o' = some b ∧ R a b := by
  cases h with
  | none => exact .inl ⟨rfl, rfl⟩
  | some h => exact .inr ⟨_, _, rfl, rfl, h⟩

theorem rel_bind {f : α → Option γ} {g : β → Option δ} (h : Option.Rel R o o')
    (hf : ∀ a b, R a b → Option.Rel S (f a) (g b)) : Option.Rel S (o.bind f) (o'.bind g) := by
  cases h with
  | none => exact .none
  | some h => exact hf _ _ h

end Rel

/-- What two readings have in common. -/
structure Link where
  /-- Cursors with so many parentheses open. -/
  cursor : Nat → Cursor → Cursor → Prop
  place : Pos → Pos → Prop
  tree : Expr → Expr → Prop
  fault : At ParseFault → At ParseFault → Prop
  /-- Faults of the first reading that say nothing about the second one. -/
  waived : At ParseFault → Prop

namespace Link

/-- Results of two readings: both succeed and agree, or both fail alike. -/
inductive Outcome (K : Link) {α β : Type} (agree : α → β → Prop) : Parsed α → Parsed β → Prop where
  | ok {a : α} {b : β} (h : agree a b) : K.Outcome agree (.ok a) (.ok b)
  | error {e e' : At ParseFault} (h : K.fault e e') : K.Outcome agree (.error e) (.error e')
  | waived {e : At ParseFault} {y : Parsed β} (h : K.waived e) : K.Outcome agree (.error e) y

/-- The same token, and the cursors behind it. -/
def Token (K : Link) (d : Nat) {α : Type} (t t' : α × Cursor) : Prop :=
  t.1 = t'.1 ∧ K.cursor d t.2 t'.2

/-- Trees, and the cursors behind them. -/
def Piece (K : Link) (d : Nat) (t t' : Expr × Cursor) : Prop :=
  K.tree t.1 t'.1 ∧ K.cursor d t.2 t'.2

/-- Lines, and the cursors behind them. -/
def Lined (K : Link) (d : Nat) (l l' : Option Expr × Cursor) : Prop :=
  Option.Rel K.tree l.1 l'.1 ∧ K.cursor d l.2 l'.2

/-- What stands between two operands. -/
inductive Joins (K : Link) : Joint → Joint → Prop where
  | sideBySide : K.Joins .sideBySide .sideBySide
  | operator {p p' : Pos} {x : String} (h : K.tree (.name p x) (.name p' x)) :
      K.Joins (.operator p x) (.operator p' x)

/-- An operand with what stands in front of it. -/
def Operand (K : Link) (t t' : Joint × Expr) : Prop := K.Joins t.1 t'.1 ∧ K.tree t.2 t'.2

variable {K : Link} {α β γ δ : Type} {agree : α → β → Prop} {agree' : γ → δ → Prop}

theorem Outcome.bind {x : Parsed α} {y : Parsed β} {f : α → Parsed γ} {g : β → Parsed δ}
    (h : K.Outcome agree x y) (hf : ∀ a b, agree a b → K.Outcome agree' (f a) (g b)) :
    K.Outcome agree' (x >>= f) (y >>= g) := by
  cases h with
  | ok h => exact hf _ _ h
  | error h => exact .error h
  | waived h => exact .waived h

end Link

/-- The link is kept by every token, by every node of a tree and by every fault. The second reading
    has `ahead` more levels of lines to go. -/
structure InStep (K : Link) (r r' : Reading) (ahead : Nat) : Prop where
  spaces {d c c'} : K.cursor d c c' → K.cursor d c.skipSpaces c'.skipSpaces
  operator {d c c'} : K.cursor d c c' → Option.Rel (K.Token d) c.operator? c'.operator?
  word {d c c'} : K.cursor d c c' → Option.Rel (K.Token d) c.word? c'.word?
  numeral {d c c'} : K.cursor d c c' → Option.Rel (K.Token d) c.numeral? c'.numeral?
  symbol {d c c' ch} : K.cursor d c c' → ch ∈ ['@', '\\', '.', ';'] →
    Option.Rel (K.cursor d) (c.eat? ch) (c'.eat? ch)
  enter {d c c'} : K.cursor d c c' → Option.Rel (K.cursor (d + 1)) (c.eat? '(') (c'.eat? '(')
  leave {d c c'} : K.cursor (d + 1) c c' → Option.Rel (K.cursor d) (c.eat? ')') (c'.eat? ')')
  string {d c c'} : K.cursor d c c' →
    Option.Rel (fun b b' => K.Outcome (Option.Rel (K.Piece d)) (r.string (r.pos c) b)
      (r'.string (r'.pos c') b')) (c.eat? '"') (c'.eat? '"')
  pos {d c c'} : K.cursor d c c' → K.place (r.pos c) (r'.pos c')
  start {e e'} : K.tree e e' → K.place e.pos e'.pos
  number {p p' n} : K.place p p' → K.tree (.number p n) (.number p' n)
  name {p p' x} : K.place p p' → TermName x → K.tree (.name p x) (.name p' x)
  builtin {p p' x} : K.place p p' → Spelled isNameChar x → K.tree (.builtin p x) (.builtin p' x)
  lambda {p p' x b b'} : K.place p p' → ParamName x → K.tree b b' →
    K.tree (.lambda p x b) (.lambda p' x b')
  apply {p p' f f' a a'} : K.place p p' → K.tree f f' → K.tree a a' →
    K.tree (.apply p f a) (.apply p' f' a')
  missing {d c c' x} : K.cursor d c c' → c.skipSpaces = c → c'.skipSpaces = c' → x ≠ .expression →
    K.fault ⟨.unexpected (r.seen c) x, r.pos c⟩ ⟨.unexpected (r'.seen c') x, r'.pos c'⟩
  badToken {d c c' f} : K.cursor d c c' → (f = .missingBuiltinName ∨ ∃ t, f = .numberOutOfRange t) →
    K.fault ⟨f, r.pos c⟩ ⟨f, r'.pos c'⟩
  deep {d c c'} : K.cursor d c c' →
    K.Outcome (K.Lined d) (r.fail c (.tooDeep r.limit)) (r'.line ahead c')

namespace InStep

variable {K : Link} {r r' : Reading} {ahead d : Nat} {c c' : Cursor}

/-! ## 2. Trees of lines -/

section Trees

variable (hK : InStep K r r' ahead)
include hK

/-- An operator that waits, with its left operand. -/
def Waits (K : Link) (w w' : Waiting) : Prop :=
  Option.Rel K.tree w.left w'.left ∧ K.Joins w.op w'.op

theorem close {w w' : Waiting} {e e' : Expr} (hw : Waits K w w') (he : K.tree e e') :
    K.tree (w.close e) (w'.close e') := by
  obtain ⟨left, op⟩ := w
  obtain ⟨left', op'⟩ := w'
  obtain ⟨hleft, hop⟩ := hw
  cases hop with
  | sideBySide =>
    cases hleft with
    | none => exact he
    | some hl => exact hK.apply (hK.start hl) hl he
  | operator hname =>
    cases hleft with
    | none => exact hK.apply (hK.start hname) hname he
    | some hl => exact hK.apply (hK.start hl) (hK.apply (hK.start hl) hname hl) he

omit hK in
theorem symbol_eq {op op' : Joint} (h : K.Joins op op') : op.symbol = op'.symbol := by
  cases h <;> rfl

theorem settle {op op' : Joint} (hop : K.Joins op op') {ws ws' : List Waiting}
    (hws : List.Forall₂ (Waits K) ws ws') {e e' : Expr} (he : K.tree e e') :
    List.Forall₂ (Waits K) (Line.settle op ws e).1 (Line.settle op' ws' e').1 ∧
      K.tree (Line.settle op ws e).2 (Line.settle op' ws' e').2 := by
  induction hws generalizing e e' with
  | nil => exact ⟨.nil, he⟩
  | @cons w w' ws ws' hw hws ih =>
    simp only [Line.settle, symbol_eq hop, symbol_eq hw.2]
    split
    · exact ih (hK.close hw he)
    · exact ⟨.cons hw hws, he⟩

theorem settleAll {ws ws' : List Waiting} (hws : List.Forall₂ (Waits K) ws ws') {e e' : Expr}
    (he : K.tree e e') : K.tree (Line.settleAll ws e) (Line.settleAll ws' e') := by
  induction hws generalizing e e' with
  | nil => exact he
  | cons hw _ ih => exact ih (hK.close hw he)

theorem treeFrom {ops ops' : List (Joint × Expr)} (hops : List.Forall₂ K.Operand ops ops')
    {ws ws' : List Waiting} (hws : List.Forall₂ (Waits K) ws ws') {e e' : Expr} (he : K.tree e e') :
    K.tree (Line.treeFrom ws e ops) (Line.treeFrom ws' e' ops') := by
  induction hops generalizing ws ws' e e' with
  | nil => exact hK.settleAll hws he
  | cons ho _ ih =>
    obtain ⟨hws₁, he₁⟩ := hK.settle ho.1 hws he
    exact ih (.cons ⟨.some he₁, ho.1⟩ hws₁) ho.2

/-- **The trees of two flat lines that agree agree.** -/
theorem tree? {first first' : Option Expr} {ops ops' : List (Joint × Expr)}
    (hfirst : Option.Rel K.tree first first') (hops : List.Forall₂ K.Operand ops ops') :
    Option.Rel K.tree (Line.tree? ⟨first, ops⟩) (Line.tree? ⟨first', ops'⟩) := by
  cases hops with
  | nil => exact hfirst
  | cons ho hops => exact .some (hK.treeFrom hops (.cons ⟨hfirst, ho.1⟩ .nil) ho.2)

end Trees

/-! ## 3. Pieces of a line -/

section Pieces

variable (hK : InStep K r r' ahead)
include hK

theorem bracketedOperator? (h : K.cursor d c c') :
    Option.Rel (K.Token d) c.bracketedOperator? c'.bracketedOperator? := by
  refine rel_bind (hK.enter h) fun inner inner' h₁ => ?_
  refine rel_bind (hK.operator (hK.spaces h₁)) fun t t' h₂ => ?_
  refine rel_bind (hK.leave (hK.spaces h₂.2)) fun after after' h₃ => ?_
  exact .some ⟨h₂.1, h₃⟩

theorem param (h : K.cursor d c c') :
    K.Token d (Reading.param c) (Reading.param c') ∧ ParamName (Reading.param c).1 := by
  unfold Reading.param
  rcases rel_cases (hK.bracketedOperator? h) with ⟨e, e'⟩ | ⟨t, t', e, e', ht⟩
  · rw [e, e']
    rcases rel_cases (hK.word h) with ⟨e, e'⟩ | ⟨t, t', e, e', ht⟩
    · rw [e, e']
      have underscore : Spelled isNameChar "_" := by decide
      exact ⟨⟨rfl, h⟩, .inr underscore⟩
    · rw [e, e']
      exact ⟨ht, .inr (Cursor.run?_eq_some e).2⟩
  · rw [e, e']
    obtain ⟨_, _, _, hop⟩ := Cursor.bracketedOperator?_eq_some e
    exact ⟨ht, .inl hop⟩

/-- Both readings miss the same piece, behind any spaces. -/
theorem missed {α β : Type} {agree : α → β → Prop} {x : Expectation} (h : K.cursor d c c')
    (hs : c.skipSpaces = c) (hs' : c'.skipSpaces = c') (hx : x ≠ .expression) :
    K.Outcome agree (r.missing c x) (r'.missing c' x) :=
  .error (hK.missing h hs hs' hx)

theorem punctuation {ch : Char} {x : Expectation} {d' : Nat} (h : K.cursor d c c')
    (hx : x ≠ .expression)
    (heat : Option.Rel (K.cursor d') (c.skipSpaces.eat? ch) (c'.skipSpaces.eat? ch)) :
    K.Outcome (K.cursor d') (r.punctuation c ch x) (r'.punctuation c' ch x) := by
  simp only [Reading.punctuation]
  rcases rel_cases heat with ⟨e, e'⟩ | ⟨t, t', e, e', ht⟩
  · rw [e, e']
    exact hK.missed (hK.spaces h) c.skipSpaces_skipSpaces c'.skipSpaces_skipSpaces hx
  · rw [e, e']
    exact .ok ht

theorem builtinTerm {p p' : Pos} (hp : K.place p p') (h : K.cursor d c c') :
    K.Outcome (Option.Rel (K.Piece d)) (r.builtin p c) (r'.builtin p' c') := by
  simp only [Reading.builtin]
  rcases rel_cases (hK.word h) with ⟨e, e'⟩ | ⟨⟨x, c₁⟩, ⟨x', c₁'⟩, e, e', hx, hc⟩
  · rw [e, e']
    exact .error (hK.badToken h (.inl rfl))
  · rw [e, e']
    obtain rfl : x = x' := hx
    exact .ok (.some ⟨hK.builtin hp (Cursor.run?_eq_some e).2, hc⟩)

theorem plain (h : K.cursor d c c') :
    K.Outcome (Option.Rel (K.Piece d)) (r.plain c) (r'.plain c') := by
  simp only [Reading.plain]
  rcases rel_cases (hK.numeral h) with ⟨e, e'⟩ | ⟨⟨n, c₁⟩, ⟨n', c₁'⟩, e, e', hn, hc⟩
  · rw [e, e']
    rcases rel_cases (hK.word h) with ⟨w, w'⟩ | ⟨⟨x, c₁⟩, ⟨x', c₁'⟩, w, w', hx, hc⟩
    · rw [w, w']
      exact .ok .none
    · rw [w, w']
      obtain rfl : x = x' := hx
      exact .ok (.some ⟨hK.name (hK.pos h) (Cursor.word?_termName e w), hc⟩)
  · rw [e, e']
    obtain rfl : n = n' := hn
    dsimp only
    cases word? (numeralValue n) with
    | none => exact .error (hK.badToken h (.inr ⟨_, rfl⟩))
    | some v => exact .ok (.some ⟨hK.number (hK.pos h), hc⟩)

theorem jointAt (h : K.cursor d c c') :
    K.Joins (r.jointAt c).1 (r'.jointAt c').1 ∧ K.cursor d (r.jointAt c).2 (r'.jointAt c').2 := by
  simp only [Reading.jointAt]
  rcases rel_cases (hK.operator h) with ⟨e, e'⟩ | ⟨⟨x, c₁⟩, ⟨x', c₁'⟩, e, e', hx, hc⟩
  · rw [e, e']
    exact ⟨.sideBySide, h⟩
  · rw [e, e']
    obtain rfl : x = x' := hx
    exact ⟨.operator (hK.name (hK.pos h) (.inl (Cursor.run?_eq_some e).2)), hc⟩

end Pieces

/-! ## 4. Terms and lines -/

/-- Readers of lines that go in step. -/
structure Lines (K : Link) (line line' : LineReader) : Prop where
  trims : LineReader.Trims line
  trims' : LineReader.Trims line'
  lined : ∀ d c c', K.cursor d c c' → K.Outcome (K.Lined d) (line c) (line' c')

/-- Readers of terms that go in step. -/
def Terms (K : Link) (term term' : TermReader) : Prop :=
  ∀ d c c', K.cursor d c c' → K.Outcome (Option.Rel (K.Piece d)) (term c) (term' c')

section Lines

variable (hK : InStep K r r' ahead) {line line' : LineReader} {term term' : TermReader}
include hK

theorem lineOr (hline : Lines K line line') {x : Expectation} (h : K.cursor d c c')
    (hx : x ≠ .expression) :
    K.Outcome (K.Piece d) (r.lineOr line c x) (r'.lineOr line' c' x) := by
  obtain ⟨htrims, htrims', hlined⟩ := hline
  have hout := hlined d c c' h
  unfold Reading.lineOr
  revert hout
  generalize hl : line c = l
  generalize hl' : line' c' = l'
  intro hout
  cases hout with
  | error he => exact .error he
  | waived he => exact .waived he
  | @ok t t' ht =>
    obtain ⟨o, c₁⟩ := t
    obtain ⟨o', c₁'⟩ := t'
    obtain ⟨ho, hc⟩ := ht
    cases ho with
    | none => exact hK.missed hc (htrims _ _ _ hl) (htrims' _ _ _ hl') hx
    | some ht => exact .ok ⟨ht, hc⟩

theorem group (hline : Lines K line line') (h : K.cursor (d + 1) c c') :
    K.Outcome (Option.Rel (K.Piece d)) (r.group line c) (r'.group line' c') := by
  refine (hK.lineOr hline h (by decide)).bind fun t t' ht => ?_
  refine (hK.punctuation ht.2 (by decide) (hK.leave (hK.spaces ht.2))).bind fun c₁ c₁' hc => ?_
  exact .ok (.some ⟨ht.1, hc⟩)

theorem lambdaTerm (hline : Lines K line line') {p p' : Pos} (hp : K.place p p')
    (h : K.cursor d c c') :
    K.Outcome (Option.Rel (K.Piece d)) (r.lambda line p c) (r'.lambda line' p' c') := by
  obtain ⟨⟨hx, hc⟩, hparam⟩ := hK.param (hK.spaces h)
  have hc₁ := hK.spaces hc
  simp only [Reading.lambda, ← hx]
  rcases rel_cases (hK.symbol hc₁ (by decide : '.' ∈ _)) with ⟨e, e'⟩ | ⟨c₂, c₂', e, e', hc₂⟩
  · rw [e, e']
    rcases rel_cases (hK.operator hc₁) with ⟨e, e'⟩ | ⟨⟨op, c₂⟩, ⟨op', c₂'⟩, e, e', hop, hc₂⟩
    · rw [e, e']
      exact hK.missed hc₁ (Cursor.skipSpaces_skipSpaces _) (Cursor.skipSpaces_skipSpaces _)
        (by decide)
    · rw [e, e']
      obtain rfl : op = op' := hop
      have hflip : TermName (Operator.flipped op) := .inl (Cursor.run?_eq_some e).2.flipped
      refine (hK.lineOr hline hc₂ (by decide)).bind fun v v' hv => ?_
      refine (hK.punctuation hv.2 (by decide)
        (hK.symbol (hK.spaces hv.2) (by decide))).bind fun c₃ c₃' hc₃ => ?_
      refine (hK.lineOr hline hc₃ (by decide)).bind fun b b' hb => ?_
      exact .ok (.some ⟨hK.apply hp (hK.apply hp (hK.name hp hflip) hv.1)
        (hK.lambda hp hparam hb.1), hb.2⟩)
  · rw [e, e']
    refine (hK.lineOr hline hc₂ (by decide)).bind fun b b' hb => ?_
    exact .ok (.some ⟨hK.lambda hp hparam hb.1, hb.2⟩)

/-- **Terms go in step.** -/
theorem term? (hline : Lines K line line') : Terms K (r.term? line) (r'.term? line') := by
  intro d c c' h
  have hpos := hK.pos h
  rcases rel_cases (hK.enter h) with ⟨ho, ho'⟩ | ⟨c₁, c₁', e, e', hc⟩
  case inr =>
    rw [Reading.term?_open e, Reading.term?_open e']
    rcases rel_cases (hK.bracketedOperator? h) with ⟨e, e'⟩ | ⟨⟨x, c₂⟩, ⟨x', c₂'⟩, e, e', hx, hc₂⟩
    · rw [e, e']
      exact hK.group hline hc
    · rw [e, e']
      obtain rfl : x = x' := hx
      obtain ⟨_, _, _, hop⟩ := Cursor.bracketedOperator?_eq_some e
      exact .ok (.some ⟨hK.name hpos (.inl hop), hc₂⟩)
  rcases rel_cases (hK.symbol h (by decide : '@' ∈ _)) with ⟨ha, ha'⟩ | ⟨c₁, c₁', e, e', hc⟩
  case inr =>
    rw [Reading.term?_at e, Reading.term?_at e']
    exact hK.builtinTerm hpos hc
  rcases rel_cases (hK.symbol h (by decide : '\\' ∈ _)) with ⟨hb, hb'⟩ | ⟨c₁, c₁', e, e', hc⟩
  case inr =>
    rw [Reading.term?_backslash e, Reading.term?_backslash e']
    exact hK.lambdaTerm hline hpos hc
  rcases rel_cases (hK.string h) with ⟨hq, hq'⟩ | ⟨c₁, c₁', e, e', hs⟩
  case inr =>
    rw [Reading.term?_quote e, Reading.term?_quote e']
    exact hs
  rw [Reading.term?_plain ho ha hb hq, Reading.term?_plain ho' ha' hb' hq']
  exact hK.plain h

/-- No operand follows: the line is over, or it misses one. -/
theorem noOperand {op op' : Joint} {done done' : List (Joint × Expr)} (hop : K.Joins op op')
    (h : K.cursor d c c') (hs : c.skipSpaces = c) (hs' : c'.skipSpaces = c')
    (hdone : List.Forall₂ K.Operand done done') :
    K.Outcome (fun t t' => List.Forall₂ K.Operand t.1 t'.1 ∧ K.cursor d t.2 t'.2)
      (match op with
        | .sideBySide => .ok (done.reverse, c)
        | .operator .. => r.missing c .operand)
      (match op' with
        | .sideBySide => .ok (done'.reverse, c')
        | .operator .. => r'.missing c' .operand) := by
  cases hop with
  | sideBySide => exact .ok ⟨List.rel_reverse hdone, h⟩
  | operator _ => exact hK.missed h hs hs' (by decide)

/-- Operands go in step. The induction is on a bound for the characters left to the first
    reading. -/
theorem operands (hterm : Terms K term term') (hadv : TermReader.Advances term)
    (hadv' : TermReader.Advances term') (hidle : Reading.Idle term) (hidle' : Reading.Idle term')
    (n : Nat) {chars chars' : List Char} {done done' : List (Joint × Expr)} (h : K.cursor d c c')
    (hn : c.rest.length < n) (hc : c.rest.length ≤ chars.length)
    (hc' : c'.rest.length ≤ chars'.length) (hdone : List.Forall₂ K.Operand done done') :
    K.Outcome (fun t t' => List.Forall₂ K.Operand t.1 t'.1 ∧ K.cursor d t.2 t'.2)
      (r.operands term chars done c) (r'.operands term' chars' done' c') := by
  induction n generalizing c c' chars chars' done done' with
  | zero => omega
  | succ n ih =>
    obtain ⟨hjoint, hc₁⟩ := hK.jointAt (hK.spaces h)
    have hc₂ := hK.spaces hc₁
    obtain ⟨read, hread⟩ := r.operand_past c
    rw [Reading.operands_eq hadv hidle hc, Reading.operands_eq hadv' hidle' hc']
    have hout := hterm d _ _ hc₂
    revert hout
    generalize ht : term (r.jointAt c.skipSpaces).2.skipSpaces = x
    generalize ht' : term' (r'.jointAt c'.skipSpaces).2.skipSpaces = y
    intro hout
    cases hout with
    | error he => exact .error he
    | waived he => exact .waived he
    | ok ho =>
      cases ho with
      | some hp =>
        obtain ⟨read₁, hne, hread₁⟩ := hadv _ _ _ ht
        have hlt := (hread.trans hread₁).length_lt (by simp [hne])
        exact ih hp.2 (by omega) (Nat.le_refl _) (Nat.le_refl _) (.cons ⟨hjoint, hp.1⟩ hdone)
      | none =>
        exact hK.noOperand hjoint hc₂ (Cursor.skipSpaces_skipSpaces _)
          (Cursor.skipSpaces_skipSpaces _) hdone

theorem flatLine (hterm : Terms K term term') (hadv : TermReader.Advances term)
    (hadv' : TermReader.Advances term') (hidle : Reading.Idle term) (hidle' : Reading.Idle term')
    (h : K.cursor d c c') :
    K.Outcome (fun t t' => Option.Rel K.tree t.1.tree? t'.1.tree? ∧ K.cursor d t.2 t'.2)
      (r.flatLine term c) (r'.flatLine term' c') := by
  refine (hterm d _ _ (hK.spaces h)).bind fun o o' ho => ?_
  cases ho with
  | none =>
    refine (hK.operands hterm hadv hadv' hidle hidle' _ (hK.spaces h) (Nat.lt_succ_self _)
      (Nat.le_refl _) (Nat.le_refl _) .nil).bind fun t t' ht => ?_
    exact .ok ⟨hK.tree? .none ht.1, ht.2⟩
  | some hp =>
    refine (hK.operands hterm hadv hadv' hidle hidle' _ hp.2 (Nat.lt_succ_self _)
      (Nat.le_refl _) (Nat.le_refl _) .nil).bind fun t t' ht => ?_
    exact .ok ⟨hK.tree? (.some hp.1) ht.1, ht.2⟩

end Lines

/-- **Lines go in step.** -/
theorem line (hK : InStep K r r' ahead) (levels d : Nat) (c c' : Cursor) (h : K.cursor d c c') :
    K.Outcome (K.Lined d) (r.line levels c) (r'.line (levels + ahead) c') := by
  induction levels generalizing d c c' with
  | zero =>
    rw [Nat.zero_add]
    exact hK.deep h
  | succ levels ih =>
    have hlines : Lines K (r.line levels) (r'.line (levels + ahead)) :=
      ⟨r.line_trims _, r'.line_trims _, ih⟩
    rw [Nat.add_right_comm]
    refine (hK.flatLine (hK.term? hlines) (Reading.term?_advances (r.line_advances _))
      (Reading.term?_advances (r'.line_advances _)) Reading.term?_idle Reading.term?_idle
      h).bind fun t t' ht => ?_
    exact .ok ht

end InStep

end CallByNeed
