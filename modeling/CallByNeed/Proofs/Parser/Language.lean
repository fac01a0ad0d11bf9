/-
  File:      CallByNeed/Proofs/Parser/Language.lean
  Subject:   The texts that are read are the texts that the grammar derives.

  A line is read as far as it goes, so what is read are the derivations whose lines go on as long as
  they can (`NoOperand`), with the levels that their depth needs. Other derivations of the grammar
  can be made such ones, so no text is lost; but a text can have several of the others.

  * `Cursor.run?_longest`, `Cursor.bracketedOperator?_bracketed`, ... -- the tokens of the reader
    are those of the grammar;
  * `Expr.bare`, `Line.treeFrom_bare` -- trees and lines without their places;
  * `Reading.line_derives` -- what is read has a derivation, and is the tree of that derivation;
  * `Derives.reads` -- what has a derivation is read;
  * `derives_of_parse`, `parse_iff_derives` -- whole programs;
  * `lambda_body_ambiguous` -- a text with two derivations.
-/
import CallByNeed.Proofs.Parser.Derivation
import CallByNeed.Proofs.Parser.Seam

namespace CallByNeed

/-! ## 1. Tokens -/

namespace Cursor

variable {c c' : Cursor} {p : Char → Bool} {x op : String} {s' : List Char}

theorem rest_skipSpaces (c : Cursor) : c.skipSpaces.rest = dropSpaces c.rest := rfl

theorem run?_longest (h : c.run? p = some (x, c')) : Longest p x c.rest c'.rest := by
  rw [run?_eq] at h
  split at h
  · cases h
  · rename_i hne
    cases h
    exact ⟨by simp [span], rfl, by simpa using hne⟩

theorem run?_of_longest (h : Longest p x c.rest s') :
    ∃ c', c.run? p = some (x, c') ∧ c'.rest = s' := by
  have hrun : (c.span p).1 = x.toList := h.run
  refine ⟨(c.span p).2, ?_, h.rest⟩
  rw [run?_eq, hrun, if_neg h.some, String.ofList_toList]

theorem run?_none_head (h : c.run? p = none) : ∀ ch ∈ c.rest.head?, p ch = false := by
  intro ch hch
  have hrun := run?_eq_none.mp h
  cases hrest : c.rest with
  | nil =>
    rw [hrest] at hch
    cases hch
  | cons d rest =>
    rw [hrest] at hch hrun
    cases hch
    cases hp : p ch with
    | false => rfl
    | true => simp [hp] at hrun

theorem eat?_of_rest {ch : Char} (h : c.rest = ch :: s') :
    ∃ c', c.eat? ch = some c' ∧ c'.rest = s' := by
  obtain ⟨rest, o⟩ := c
  simp only at h
  subst h
  exact ⟨⟨s', o + ch.utf8Size⟩, by simp [eat?], rfl⟩

theorem bracketedOperator?_bracketed (h : c.bracketedOperator? = some (op, c')) :
    Bracketed op c.rest c'.rest := by
  simp only [bracketedOperator?, Option.bind_eq_bind, Option.bind_eq_some_iff] at h
  obtain ⟨inner, hopen, ⟨x, behind⟩, hop, after, hclose, hr⟩ := h
  cases hr
  exact ⟨inner.rest, behind.rest, (eat?_eq_some.mp hopen).1, run?_longest hop,
    (eat?_eq_some.mp hclose).1⟩

theorem bracketedOperator?_of_bracketed (h : Bracketed op c.rest s') :
    ∃ c', c.bracketedOperator? = some (op, c') ∧ c'.rest = s' := by
  obtain ⟨s₁, s₂, hs, hop, hclose⟩ := h
  obtain ⟨c₁, hopen, rfl⟩ := eat?_of_rest hs
  obtain ⟨c₂, hrun, rfl⟩ := run?_of_longest (c := c₁.skipSpaces) hop
  obtain ⟨c₃, hend, rfl⟩ := eat?_of_rest (c := c₂.skipSpaces) hclose
  refine ⟨c₃, ?_, rfl⟩
  simp only [bracketedOperator?, hopen, Option.bind_eq_bind, Option.bind_some, operator?, hrun,
    hend]
  rfl

/-- A sign is one of the two, or there is none. -/
theorem sign_cases (c : Cursor) : IsSign c.sign.1 ∧ c.rest = c.sign.1 ++ c.sign.2.rest := by
  refine ⟨?_, c.sign_past.1⟩
  unfold sign
  split
  · exact .inr (.inl rfl)
  · exact .inr (.inr rfl)
  · exact .inl rfl

theorem numeral?_longest {numeral : List Char} (h : c.numeral? = some (numeral, c')) :
    ∃ sign s digits, IsSign sign ∧ c.rest = sign ++ s ∧ Longest Char.isDigit digits s c'.rest ∧
      numeral = sign ++ digits.toList := by
  obtain ⟨hsign, hrest⟩ := c.sign_cases
  rw [numeral?_eq] at h
  split at h
  · cases h
  · rename_i hne
    cases h
    refine ⟨_, _, String.ofList (c.sign.2.span Char.isDigit).1, hsign, hrest, ⟨?_, rfl, ?_⟩, ?_⟩
    · simp [span]
    · simpa using hne
    · simp

theorem numeral?_of_longest {sign s : List Char} {digits : String}
    (hsign : IsSign sign) (hs : c.rest = sign ++ s) (hd : Longest Char.isDigit digits s s') :
    ∃ c', c.numeral? = some (sign ++ digits.toList, c') ∧ c'.rest = s' := by
  obtain ⟨rfl, rfl⟩ := sign_of_rest hsign hd hs
  have hrun : (c.sign.2.span Char.isDigit).1 = digits.toList := hd.run
  refine ⟨(c.sign.2.span Char.isDigit).2, ?_, hd.rest⟩
  rw [numeral?_eq, hrun, if_neg hd.some]

/-- No numeral is read exactly where none begins. -/
theorem numeral?_eq_none {ch : Char} {s : List Char} (h : c.rest = ch :: s) :
    c.numeral? = none ↔ (ch.isDigit || signed (ch :: s)) = false := by
  obtain ⟨rest, o⟩ := c
  simp only at h
  subst h
  have hdigits (cs : List Char) : cs.takeWhile Char.isDigit = [] ↔
      ∀ d ∈ cs.head?, d.isDigit = false := by
    cases cs with
    | nil => simp
    | cons d cs => cases hd : d.isDigit <;> simp [hd]
  have hsigned {a : Char} (ha : a = '+' ∨ a = '-') : signed (a :: s) = false ↔
      ∀ d ∈ s.head?, d.isDigit = false := by
    cases s with
    | nil => simp [signed]
    | cons d s => rcases ha with rfl | rfl <;> simp [signed]
  rw [numeral?_eq]
  by_cases hplus : ch = '+'
  · subst hplus
    simp [Cursor.sign, span, hdigits, hsigned]
  by_cases hminus : ch = '-'
  · subst hminus
    simp [Cursor.sign, span, hdigits, hsigned]
  have hnone : signed (ch :: s) = false := by
    cases s <;> simp [signed, hplus, hminus]
  simp [Cursor.sign, span, hplus, hminus, hnone, hdigits]

end Cursor

namespace Reading

variable {r : Reading} {line : LineReader} {c c' : Cursor} {e : Expr}

theorem plain_eq_none : r.plain c = .ok none ↔ c.numeral? = none ∧ c.word? = none := by
  unfold plain
  cases hn : c.numeral? with
  | some t =>
    obtain ⟨numeral, c₁⟩ := t
    simp only [reduceCtorEq, false_and, iff_false]
    split <;> simp [fail]
  | none => simp

/-- **A term is looked for exactly where the grammar lets one begin.** -/
theorem term?_eq_none : r.term? line c = .ok none ↔ formOf c.rest = none := by
  obtain ⟨rest, o⟩ := c
  cases rest with
  | nil => simp [formOf, term?_idle o]
  | cons ch s =>
    by_cases hopen : ch = '('
    · subst hopen
      simp only [formOf, if_true, reduceCtorEq, iff_false, term?]
      split
      · simp
      · exact group_ne_none
    by_cases hat : ch = '@'
    · subst hat
      simp only [term?, builtin]
      split <;> simp [formOf, fail]
    by_cases hslash : ch = '\\'
    · subst hslash
      have hne : r.lambda line (r.pos ⟨'\\' :: s, o⟩) ⟨s, o + 1⟩ ≠ .ok none := lambda_ne_none
      simp [term?, formOf, hne]
    by_cases hquote : ch = '"'
    · subst hquote
      simp only [term?, string]
      split <;> simp [formOf, fail]
    have hhead : ∀ d ∈ (ch :: s).head?, d ∉ ['(', '@', '\\', '"'] := by simp_all
    rw [term?_of_head hhead, plain_eq_none, Cursor.numeral?_eq_none rfl, Cursor.word?,
      Cursor.run?_eq_none]
    simp only [formOf, hopen, hat, hslash, hquote, if_false]
    cases hn : ch.isDigit || signed (ch :: s) with
    | true => simp
    | false => cases hw : isNameChar ch <;> simp [hw]

end Reading

/-! ## 2. Trees without places -/

/-- The tree with all places forgotten. -/
def Expr.bare (e : Expr) : Expr := e.mapPos fun _ => default

@[simp] theorem Expr.bare_lambda (p : Pos) (x : String) (body : Expr) :
    (Expr.lambda p x body).bare = .lambda default x body.bare := rfl

@[simp] theorem Expr.bare_apply (p : Pos) (f a : Expr) :
    (Expr.apply p f a).bare = .apply default f.bare a.bare := rfl

theorem Expr.sameShape_iff {e e' : Expr} : e.sameShape e' = true ↔ e.bare = e'.bare := by
  induction e generalizing e' with
  | lambda p x body ih =>
    cases e' with
    | lambda p' x' body' => simp [sameShape, ih]
    | _ => simp [sameShape, bare, mapPos]
  | apply p f a ihf iha =>
    cases e' with
    | apply p' f' a' => simp [sameShape, ihf, iha]
    | _ => simp [sameShape, bare, mapPos]
  | _ => cases e' <;> simp [sameShape, bare, mapPos]

/-- What stands between two operands, its place forgotten. -/
def Joint.bare : Joint → Joint
  | .sideBySide => .sideBySide
  | .operator _ x => .operator default x

@[simp] theorem Joint.symbol_bare (op : Joint) : op.bare.symbol = op.symbol := by cases op <;> rfl

/-- A waiting operator, all places forgotten. -/
def Waiting.bare (w : Waiting) : Waiting := ⟨w.left.map Expr.bare, w.op.bare⟩

/-- An operand with what stands in front of it, all places forgotten. -/
def bareOperand (t : Joint × Expr) : Joint × Expr := (t.1.bare, t.2.bare)

theorem Waiting.close_bare (w : Waiting) (e : Expr) : (w.close e).bare = w.bare.close e.bare := by
  obtain ⟨left, op⟩ := w
  cases op <;> cases left <;>
    simp [Waiting.close, Waiting.bare, Joint.bare, Expr.bare, Expr.mapPos, Expr.pos_mapPos]

namespace Line

theorem settle_bare (op : Joint) : ∀ (ws : List Waiting) (e : Expr),
    settle op.bare (ws.map Waiting.bare) e.bare =
      ((settle op ws e).1.map Waiting.bare, (settle op ws e).2.bare)
  | [], e => rfl
  | w :: ws, e => by
      have hop : w.bare.op.symbol = w.op.symbol := w.op.symbol_bare
      simp only [List.map_cons, settle, hop, Joint.symbol_bare]
      split
      · rw [← w.close_bare]
        exact settle_bare op ws (w.close e)
      · rfl

theorem settleAll_bare : ∀ (ws : List Waiting) (e : Expr),
    settleAll (ws.map Waiting.bare) e.bare = (settleAll ws e).bare
  | [], e => rfl
  | w :: ws, e => by
      rw [List.map_cons, settleAll, settleAll, ← w.close_bare]
      exact settleAll_bare ws (w.close e)

/-- Places make no difference to the shape of a line's tree. -/
theorem treeFrom_bare : ∀ (ops : List (Joint × Expr)) (ws : List Waiting) (e : Expr),
    treeFrom (ws.map Waiting.bare) e.bare (ops.map bareOperand) = (treeFrom ws e ops).bare
  | [], ws, e => settleAll_bare ws e
  | (op, next) :: ops, ws, e => by
      simp only [List.map_cons, bareOperand, treeFrom, settle_bare]
      exact treeFrom_bare ops (⟨some (settle op ws e).2, op⟩ :: (settle op ws e).1) next

/-- A line with a first operand, as the loop sees it. -/
theorem tree?_some (first : Expr) (ops : List (Joint × Expr)) :
    tree? ⟨some first, ops⟩ = some (treeFrom [] first ops) := by
  cases ops <;> rfl

end Line

/-! ## 3. What is read has a derivation -/

/-- What the reader reads has a derivation that is no deeper than `n` lines and stands for the same
    tree. -/
def LineReader.Derived (line : LineReader) (n : Nat) : Prop :=
  ∀ c e c', line c = .ok (some e, c') →
    ∃ t : Derivation .line, Derives NoOperand t c.rest c'.rest ∧ t.depth ≤ n ∧ t.tree = e.bare

namespace Reading

variable {r : Reading} {line : LineReader} {c c' : Cursor} {e : Expr} {n : Nat}

theorem param_at (c : Cursor) :
    ∃ p : Param, p.At c.rest (param c).2.rest ∧ p.name = (param c).1 := by
  unfold param
  cases hop : c.bracketedOperator? with
  | some t => exact ⟨.operator t.1, .operator (Cursor.bracketedOperator?_bracketed hop), rfl⟩
  | none =>
    cases hw : c.word? with
    | some t => exact ⟨.word t.1, .word (Cursor.run?_longest hw), rfl⟩
    | none => exact ⟨.absent, .absent _, rfl⟩

theorem group_derives {s : List Char} (hline : LineReader.Derived line n) (hs : s = '(' :: c.rest)
    (h : r.group line c = .ok (some (e, c'))) :
    ∃ t : Derivation .term, Derives NoOperand t s c'.rest ∧ t.depth ≤ n ∧ t.tree = e.bare := by
  simp only [group, Parsed.bind_eq_ok] at h
  obtain ⟨⟨inner, c₁⟩, hinner, c₂, hclose, h⟩ := h
  cases h
  obtain ⟨t, ht, hdepth, htree⟩ := hline _ _ _ (lineOr_eq_ok.mp hinner)
  have hparen := (Cursor.eat?_eq_some.mp (punctuation_eq_ok.mp hclose)).1
  exact ⟨.group t, .group hs ht hparen, hdepth, htree⟩

theorem builtin_derives {s : List Char} {start : Pos} (hs : s = '@' :: c.rest)
    (h : r.builtin start c = .ok (some (e, c'))) :
    ∃ t : Derivation .term, Derives NoOperand t s c'.rest ∧ t.depth ≤ n ∧ t.tree = e.bare := by
  simp only [builtin] at h
  split at h
  · rename_i name c₁ hname
    cases h
    exact ⟨.builtin name, .builtin hs (Cursor.run?_longest hname), Nat.zero_le n, rfl⟩
  · cases h

theorem lambda_derives {s : List Char} {start : Pos} (hline : LineReader.Derived line n)
    (hs : s = '\\' :: c.rest) (h : r.lambda line start c = .ok (some (e, c'))) :
    ∃ t : Derivation .term, Derives NoOperand t s c'.rest ∧ t.depth ≤ n ∧ t.tree = e.bare := by
  obtain ⟨p, hp, hname⟩ := param_at c.skipSpaces
  simp only [lambda] at h
  split at h
  · rename_i c₁ hdot
    simp only [Parsed.bind_eq_ok] at h
    obtain ⟨⟨body, c₂⟩, hbody, h⟩ := h
    cases h
    obtain ⟨t, ht, hdepth, htree⟩ := hline _ _ _ (lineOr_eq_ok.mp hbody)
    refine ⟨.lambda p t, .lambda hs hp (Cursor.eat?_eq_some.mp hdot).1 ht, hdepth, ?_⟩
    rw [Derivation.tree, htree, hname]
    rfl
  · split at h
    · cases h
    · rename_i op c₁ hop
      simp only [Parsed.bind_eq_ok] at h
      obtain ⟨⟨value, c₂⟩, hvalue, c₃, hsemi, ⟨body, c₄⟩, hbody, h⟩ := h
      cases h
      obtain ⟨t, ht, hdepth, htree⟩ := hline _ _ _ (lineOr_eq_ok.mp hvalue)
      obtain ⟨u, hu, hdepth', htree'⟩ := hline _ _ _ (lineOr_eq_ok.mp hbody)
      have hsemi := (Cursor.eat?_eq_some.mp (punctuation_eq_ok.mp hsemi)).1
      refine ⟨.binding p op t u, .binding hs hp (Cursor.run?_longest hop) ht hsemi hu,
        Nat.max_le.mpr ⟨hdepth, hdepth'⟩, ?_⟩
      rw [Derivation.tree, htree, htree', hname]
      rfl

theorem string_derives {s : List Char} {start : Pos} (hs : s = '"' :: c.rest)
    (h : r.string start c = .ok (some (e, c'))) :
    ∃ t : Derivation .term, Derives NoOperand t s c'.rest ∧ t.depth ≤ n ∧ t.tree = e.bare := by
  simp only [string] at h
  split at h
  · rename_i body c₁ hbody
    cases h
    obtain ⟨htext, hrest, _⟩ := Cursor.stringBody_eq_ok hbody
    exact ⟨.string body, .string (by simp [hs, hrest]) htext, Nat.zero_le n, rfl⟩
  · cases h

theorem plain_derives (h : r.plain c = .ok (some (e, c'))) :
    ∃ t : Derivation .term, Derives NoOperand t c.rest c'.rest ∧ t.depth ≤ n ∧ t.tree = e.bare := by
  simp only [plain] at h
  split at h
  · rename_i numeral c₁ hnum
    obtain ⟨sign, s, digits, hsign, hs, hdigits, rfl⟩ := Cursor.numeral?_longest hnum
    split at h
    · rename_i w hword
      cases h
      obtain ⟨hfits, rfl⟩ : fitsWord (numeralValue (sign ++ digits.toList)) = true ∧
          Int64.ofInt (numeralValue (sign ++ digits.toList)) = w := by
        rw [word?] at hword
        split at hword
        · exact ⟨by assumption, Option.some.inj hword⟩
        · cases hword
      exact ⟨.number sign digits, .number hs hsign hdigits hfits, Nat.zero_le n, rfl⟩
    · cases h
  · rename_i hnum
    cases hw : c.word? with
    | none =>
      rw [hw] at h
      cases h
    | some t =>
      obtain ⟨x, c₁⟩ := t
      rw [hw] at h
      cases h
      refine ⟨.name x, .name (Cursor.run?_longest hw) fun ch hch => ?_, Nat.zero_le n, rfl⟩
      -- a digit at the beginning would have been a numeral
      obtain ⟨d, ds, hd, _⟩ := (Cursor.run?_longest hw).head
      obtain rfl : d = ch := by simpa [hd] using hch
      have hno := (Cursor.numeral?_eq_none hd).mp hnum
      exact (Bool.or_eq_false_iff.mp hno).1

/-- **A term that is read has a derivation.** -/
theorem term?_derives (hline : LineReader.Derived line n)
    (h : r.term? line c = .ok (some (e, c'))) :
    ∃ t : Derivation .term, Derives NoOperand t c.rest c'.rest ∧ t.depth ≤ n ∧ t.tree = e.bare := by
  cases ho : c.eat? '(' with
  | some c₁ =>
    rw [term?_open ho] at h
    split at h
    · rename_i op c₂ hop
      cases h
      exact ⟨.operator op, .operator (Cursor.bracketedOperator?_bracketed hop), Nat.zero_le n, rfl⟩
    · exact group_derives hline (Cursor.eat?_eq_some.mp ho).1 h
  | none =>
  cases ha : c.eat? '@' with
  | some c₁ =>
    rw [term?_at ha] at h
    exact builtin_derives (Cursor.eat?_eq_some.mp ha).1 h
  | none =>
  cases hb : c.eat? '\\' with
  | some c₁ =>
    rw [term?_backslash hb] at h
    exact lambda_derives hline (Cursor.eat?_eq_some.mp hb).1 h
  | none =>
  cases hq : c.eat? '"' with
  | some c₁ =>
    rw [term?_quote hq] at h
    exact string_derives (Cursor.eat?_eq_some.mp hq).1 h
  | none =>
    rw [term?_plain ho ha hb hq] at h
    exact plain_derives h

/-- What stands in front of an operand, as it is read. -/
theorem jointAt_at (c : Cursor) : ∃ op, JointAt op c.rest (r.jointAt c).2.rest ∧
    ((r.jointAt c).1 = .sideBySide ↔ op = none) ∧ (r.jointAt c).1.bare = bareJoint op := by
  unfold jointAt
  cases hop : c.operator? with
  | some t => exact ⟨some t.1, .operator (Cursor.run?_longest hop), by simp, rfl⟩
  | none => exact ⟨none, .none (Cursor.run?_none_head hop), by simp, rfl⟩

/-- **Operands that are read have a derivation.** -/
theorem operands_derives (hadv : TermReader.Advances (r.term? line))
    (hline : LineReader.Derived line n) {done ops : List (Joint × Expr)}
    (h : r.operands (r.term? line) c.rest done c = .ok (ops, c')) :
    ∃ (t : Derivation .operands) (more : List (Joint × Expr)),
      Derives NoOperand t c.rest c'.rest ∧ t.depth ≤ n ∧ ops = done.reverse ++ more ∧
        t.tree = more.map bareOperand := by
  -- every operand takes at least one character
  generalize hlen : c.rest.length = len
  induction len using Nat.strongRecOn generalizing c done with
  | _ len ih =>
    obtain ⟨op, hop, hnone, hbare⟩ := r.jointAt_at c.skipSpaces
    obtain ⟨read, hread⟩ := r.operand_past c
    rw [operands_eq hadv term?_idle (Nat.le_refl _)] at h
    cases ht : r.term? line (r.jointAt c.skipSpaces).2.skipSpaces with
    | error fault =>
      rw [ht] at h
      cases h
    | ok o =>
      rw [ht] at h
      cases o with
      | some operand =>
        obtain ⟨operand, c₁⟩ := operand
        obtain ⟨read₁, hne, hread₁⟩ := hadv _ _ _ ht
        have hlt := (hread.trans hread₁).length_lt (by simp [hne])
        obtain ⟨u, more, hmore, hdepth, hops, hmap⟩ := ih c₁.rest.length (by omega) h rfl
        obtain ⟨t, hterm, hdepth', htree⟩ := term?_derives hline ht
        refine ⟨.operand op t u, ((r.jointAt c.skipSpaces).1, operand) :: more,
          .operand hop hterm hmore, Nat.max_le.mpr ⟨hdepth', hdepth⟩, by simp [hops], ?_⟩
        rw [Derivation.tree, htree, hmap, ← hbare]
        rfl
      | none =>
        have hform := term?_eq_none.mp ht
        cases hjoint : (r.jointAt c.skipSpaces).1 with
        | operator p x =>
          rw [hjoint] at h
          cases h
        | sideBySide =>
          rw [hjoint] at h
          cases h
          obtain rfl := hnone.mp hjoint
          obtain ⟨hrest, hchars⟩ := hop.of_none
          rw [Cursor.rest_skipSpaces, hrest, Cursor.rest_skipSpaces, dropSpaces_dropSpaces]
            at hform ⊢
          exact ⟨.done, [], .done ⟨hform, hchars⟩, Nat.zero_le n, by simp, rfl⟩

/-- **A line that is read has a derivation.** -/
theorem line_derives (r : Reading) : ∀ n, LineReader.Derived (r.line n) n
  | 0, c, e, c', h => by cases h
  | n + 1, c, e, c', h => by
      have hline := r.line_derives n
      have hadv := term?_advances (r := r) (r.line_advances n)
      simp only [line, flatLine, Parsed.bind_eq_ok] at h
      obtain ⟨⟨l, c₁⟩, ⟨first, hfirst, ⟨ops, c₂⟩, hops, hl⟩, h⟩ := h
      cases hl
      obtain ⟨hread, rfl⟩ := Prod.mk.inj (Except.ok.inj h)
      cases first with
      | some t =>
        obtain ⟨e₁, c₃⟩ := t
        obtain ⟨t, ht, hdepth, htree⟩ := term?_derives hline hfirst
        obtain ⟨u, more, hmore, hdepth', hmoreOps, hmap⟩ := operands_derives hadv hline hops
        obtain rfl : ops = more := hmoreOps
        rw [Cursor.rest_skipSpaces, ← dropSpaces_dropSpaces] at ht
        refine ⟨.line none t u, .line (.none _) ht hmore,
          Nat.succ_le_succ (Nat.max_le.mpr ⟨hdepth, hdepth'⟩), ?_⟩
        obtain rfl : Line.treeFrom [] e₁ ops = e :=
          Option.some.inj ((Line.tree?_some e₁ ops).symm.trans hread)
        simp only [Derivation.tree, htree, hmap]
        exact Line.treeFrom_bare ops [] e₁
      | none =>
        have hform := term?_eq_none.mp hfirst
        obtain ⟨u, more, hmore, hdepth, hmoreOps, hmap⟩ := operands_derives hadv hline hops
        obtain rfl : ops = more := hmoreOps
        simp only [Cursor.rest_skipSpaces] at hform hmore
        cases u with
        | done =>
          obtain rfl : ops = [] := List.map_eq_nil_iff.mp hmap.symm
          cases hread
        | operand op t u =>
          obtain ⟨⟨op', e₁⟩, more, rfl, hfirst', hops'⟩ := List.map_eq_cons_iff.mp hmap.symm
          obtain ⟨hop, htree⟩ := Prod.mk.inj hfirst'
          obtain rfl : Line.treeFrom [⟨none, op'⟩] e₁ more = e := Option.some.inj hread
          refine ⟨.line op t u, hmore.line_of_operand hform, Nat.succ_le_succ hdepth, ?_⟩
          rw [← Line.treeFrom_bare, hops', htree]
          cases op with
          | some x =>
            rw [Derivation.tree, ← hop]
            rfl
          | none => exact (hmore.not_sideBySide hform).elim

end Reading

/-! ## 4. What has a derivation is read -/

/-- The reader reads a line from `s` to `s'`, wherever that text stands. -/
def LineReader.Reads (line : LineReader) (s s' : List Char) : Prop :=
  ∀ c, c.rest = s → ∃ e c', line c = .ok (some e, c') ∧ c'.rest = s'

/-- The reader reads a term from `s` to `s'`, wherever that text stands. -/
def TermReader.Reads (term : TermReader) (s s' : List Char) : Prop :=
  ∀ c, c.rest = s → ∃ e c', term c = .ok (some (e, c')) ∧ c'.rest = s'

/-- Only the terms with a character of their own in front begin with it. -/
theorem head_of_form {s : List Char} (h : formOf s = some .number ∨ formOf s = some .name) :
    ∀ ch ∈ s.head?, ch ∉ ['(', '@', '\\', '"'] := by
  intro ch hch hmem
  cases s with
  | nil => cases hch
  | cons d s =>
    cases hch
    simp only [List.mem_cons, List.not_mem_nil, or_false] at hmem
    rcases hmem with rfl | rfl | rfl | rfl <;> rcases h with h | h <;> cases h

/-- A line with at least one operand has a tree. -/
theorem Line.tree?_of_operand {l : Line} (h : l.first ≠ none ∨ l.further ≠ []) :
    ∃ e, l.tree? = some e := by
  obtain ⟨first, further⟩ := l
  cases further with
  | cons t more => exact ⟨_, rfl⟩
  | nil =>
    cases first with
    | some e => exact ⟨e, rfl⟩
    | none => simp at h

namespace Reading

variable {r : Reading} {line : LineReader} {c : Cursor} {n : Nat} {s s' : List Char}

theorem param_of_at {p : Param} (h : p.At c.rest s') (hb : BehindParam s')
    (hc : ∀ ch ∈ c.rest.head?, ch ≠ ' ') : (param c).2.rest = s' := by
  unfold param
  cases h with
  | operator hop =>
    obtain ⟨c', hc', hrest⟩ := Cursor.bracketedOperator?_of_bracketed hop
    rw [hc']
    exact hrest
  | word hw =>
    obtain ⟨d, ds, hd, hname⟩ := hw.head
    have hnone : c.bracketedOperator? = none := Cursor.bracketedOperator?_of_head fun ch hch => by
      obtain rfl : d = ch := by simpa [hd] using hch
      exact isNameChar_ne hname (by decide)
    obtain ⟨c', hc', hrest⟩ := Cursor.run?_of_longest hw
    rw [hnone, Cursor.word?, hc']
    exact hrest
  | absent =>
    have hhead : ∀ ch ∈ c.rest.head?, isNameChar ch = false ∧ ch ≠ '(' := by
      intro ch hch
      obtain ⟨rest, hrest⟩ : ∃ rest, c.rest = ch :: rest := by
        cases hs : c.rest with
        | nil => simp [hs] at hch
        | cons d rest => exact ⟨rest, by simp_all⟩
      rw [hrest] at hb
      exact behindParam_head (hc ch hch) hb
    rw [Cursor.bracketedOperator?_of_head fun ch hch => (hhead ch hch).2, Cursor.word?,
      Cursor.run?_of_head fun ch hch => (hhead ch hch).1]
    rfl

theorem punctuation_of_rest {x : Expectation} {ch : Char} (h : dropSpaces c.rest = ch :: s') :
    ∃ c', r.punctuation c ch x = .ok c' ∧ c'.rest = s' := by
  obtain ⟨c', hc', hrest⟩ := Cursor.eat?_of_rest (c := c.skipSpaces) h
  exact ⟨c', punctuation_eq_ok.mpr hc', hrest⟩

theorem reads_operator {op : String} (h : Bracketed op s s') :
    TermReader.Reads (r.term? line) s s' := by
  intro c hc
  subst hc
  obtain ⟨c', hc', hrest⟩ := Cursor.bracketedOperator?_of_bracketed h
  obtain ⟨s₁, s₂, hopen, _⟩ := h
  obtain ⟨c₁, heat, _⟩ := Cursor.eat?_of_rest hopen
  refine ⟨.name (r.pos c) op, c', ?_, hrest⟩
  rw [term?_open heat, hc']

theorem reads_group {s₁ s₂ : List Char} (hopen : s = '(' :: s₁)
    (hinner : LineReader.Reads line s₁ s₂) (hclose : dropSpaces s₂ = ')' :: s')
    (hnot : ∀ op u, ¬ Bracketed op s u) : TermReader.Reads (r.term? line) s s' := by
  intro c hc
  subst hc
  obtain ⟨c₁, heat, rfl⟩ := Cursor.eat?_of_rest hopen
  obtain ⟨e, c₂, hline, rfl⟩ := hinner c₁ rfl
  obtain ⟨c₃, hparen, hrest⟩ := punctuation_of_rest (r := r) (x := .closingParen) hclose
  have hnone : c.bracketedOperator? = none := by
    cases hop : c.bracketedOperator? with
    | none => rfl
    | some t => exact absurd (Cursor.bracketedOperator?_bracketed hop) (hnot t.1 t.2.rest)
  refine ⟨e, c₃, ?_, hrest⟩
  rw [term?_open heat, hnone]
  simp only [group, Parsed.bind_eq_ok]
  exact ⟨_, lineOr_eq_ok.mpr hline, _, hparen, rfl⟩

theorem reads_builtin {x : String} {s₁ : List Char} (hat : s = '@' :: s₁)
    (hname : Longest isNameChar x s₁ s') : TermReader.Reads (r.term? line) s s' := by
  intro c hc
  subst hc
  obtain ⟨c₁, heat, rfl⟩ := Cursor.eat?_of_rest hat
  obtain ⟨c', hc', hrest⟩ := Cursor.run?_of_longest hname
  refine ⟨.builtin (r.pos c) x, c', ?_, hrest⟩
  rw [term?_at heat, builtin, Cursor.word?, hc']

theorem reads_lambda {p : Param} {s₁ s₂ s₃ : List Char} (hslash : s = '\\' :: s₁)
    (hparam : p.At (dropSpaces s₁) s₂) (hdot : dropSpaces s₂ = '.' :: s₃)
    (hbody : LineReader.Reads line s₃ s') : TermReader.Reads (r.term? line) s s' := by
  intro c hc
  subst hc
  obtain ⟨c₁, heat, rfl⟩ := Cursor.eat?_of_rest hslash
  have hrest := param_of_at (c := c₁.skipSpaces) hparam (behindParam_dot hdot) (dropSpaces_head _)
  obtain ⟨c₂, heat', rfl⟩ := Cursor.eat?_of_rest (c := (param c₁.skipSpaces).2.skipSpaces)
    (by rw [Cursor.rest_skipSpaces, hrest, hdot])
  obtain ⟨e, c', hline, hrest'⟩ := hbody c₂ rfl
  refine ⟨.lambda (r.pos c) (param c₁.skipSpaces).1 e, c', ?_, hrest'⟩
  rw [term?_backslash heat]
  simp only [lambda, heat', Parsed.bind_eq_ok]
  exact ⟨_, lineOr_eq_ok.mpr hline, rfl⟩

theorem reads_binding {p : Param} {op : String} {s₁ s₂ s₃ s₄ s₅ : List Char}
    (hslash : s = '\\' :: s₁) (hparam : p.At (dropSpaces s₁) s₂)
    (hop : Longest isOperatorChar op (dropSpaces s₂) s₃) (hvalue : LineReader.Reads line s₃ s₄)
    (hsemi : dropSpaces s₄ = ';' :: s₅) (hbody : LineReader.Reads line s₅ s') :
    TermReader.Reads (r.term? line) s s' := by
  intro c hc
  subst hc
  obtain ⟨c₁, heat, rfl⟩ := Cursor.eat?_of_rest hslash
  have hrest :=
    param_of_at (c := c₁.skipSpaces) hparam (behindParam_operator hop) (dropSpaces_head _)
  have hc₂ : (param c₁.skipSpaces).2.skipSpaces.rest = dropSpaces s₂ := by
    rw [Cursor.rest_skipSpaces, hrest]
  have hdot : (param c₁.skipSpaces).2.skipSpaces.eat? '.' = none := by
    refine Cursor.eat?_of_head fun ch hch => ?_
    obtain ⟨d, ds, hd, hchar⟩ := hop.head
    obtain rfl : d = ch := by simpa [hc₂, hd] using hch
    exact (isOperatorChar_spec hchar).2.2.2.2.2.2.1
  obtain ⟨c₃, hrun, rfl⟩ :=
    Cursor.run?_of_longest (c := (param c₁.skipSpaces).2.skipSpaces) (hc₂ ▸ hop)
  obtain ⟨value, c₄, hline, rfl⟩ := hvalue c₃ rfl
  obtain ⟨c₅, hend, rfl⟩ := punctuation_of_rest (r := r) (x := .semicolon) hsemi
  obtain ⟨body, c', hline', hrest'⟩ := hbody c₅ rfl
  refine ⟨.apply (r.pos c) (.apply (r.pos c) (.name (r.pos c) (Operator.flipped op)) value)
    (.lambda (r.pos c) (param c₁.skipSpaces).1 body), c', ?_, hrest'⟩
  rw [term?_backslash heat]
  simp only [lambda, hdot, Cursor.operator?, hrun, Parsed.bind_eq_ok]
  exact ⟨_, lineOr_eq_ok.mpr hline, _, hend, _, lineOr_eq_ok.mpr hline', rfl⟩

theorem reads_number {sign s₁ : List Char} {digits : String} (hs : s = sign ++ s₁)
    (hsign : IsSign sign) (hdigits : Longest Char.isDigit digits s₁ s')
    (hfits : fitsWord (numeralValue (sign ++ digits.toList)) = true)
    (hform : formOf s = some .number) : TermReader.Reads (r.term? line) s s' := by
  intro c hc
  subst hc
  obtain ⟨c', hc', hrest⟩ := Cursor.numeral?_of_longest hsign hs hdigits
  have hword : word? (numeralValue (sign ++ digits.toList)) =
      some (Int64.ofInt (numeralValue (sign ++ digits.toList))) := by
    rw [word?, if_pos hfits]
  refine ⟨.number (r.pos c) (Int64.ofInt (numeralValue (sign ++ digits.toList))), c', ?_, hrest⟩
  rw [term?_of_head (head_of_form (.inl hform)), plain, hc']
  simp only [hword]

theorem reads_string {body : List Char} (hs : s = '"' :: (body ++ '"' :: s'))
    (hbody : StringText body) : TermReader.Reads (r.term? line) s s' := by
  intro c hc
  subst hc
  obtain ⟨⟨rest, o⟩, heat, rfl⟩ := Cursor.eat?_of_rest hs
  refine ⟨.string (r.pos c) (unescape (String.ofList body)), ⟨s', o + byteCount body + 1⟩, ?_, rfl⟩
  rw [term?_quote heat, string, Cursor.stringBody_of_text hbody]

theorem reads_name {x : String} (hname : Longest isNameChar x s s')
    (hform : formOf s = some .name) : TermReader.Reads (r.term? line) s s' := by
  intro c hc
  subst hc
  obtain ⟨ch, rest, hch, _⟩ := hname.head
  have hnum : c.numeral? = none := by
    refine (Cursor.numeral?_eq_none hch).mpr ?_
    cases hn : ch.isDigit || signed (ch :: rest) with
    | false => rfl
    | true =>
      rw [hch] at hform
      rcases Bool.or_eq_true_iff.mp hn with hn | hn
      · rw [formOf_digit hn] at hform
        cases hform
      · rw [formOf_signed hn] at hform
        cases hform
  obtain ⟨c', hc', hrest⟩ := Cursor.run?_of_longest hname
  refine ⟨.name (r.pos c) x, c', ?_, hrest⟩
  rw [term?_of_head (head_of_form (.inr hform)), plain, hnum]
  simp only [Cursor.word?, hc', Option.map_some]

/-- Operands are read from `s` to `s'`, whatever was read before them. -/
def ReadsOperands (r : Reading) (term : TermReader) (s s' : List Char) : Prop :=
  ∀ c done, c.rest = s → ∃ more c',
    r.operands term c.rest done c = .ok (done.reverse ++ more, c') ∧ c'.rest = s'

theorem jointAt_of_at {op : Option String} (h : JointAt op c.rest s') :
    (r.jointAt c).2.rest = s' ∧ ((r.jointAt c).1 = .sideBySide ↔ op = none) := by
  obtain ⟨op', hop, hnone, _⟩ := r.jointAt_at c
  obtain ⟨rfl, rfl⟩ := h.unique hop
  exact ⟨rfl, hnone⟩

theorem reads_done (hadv : TermReader.Advances (r.term? line)) (h : NoOperand (dropSpaces s)) :
    r.ReadsOperands (r.term? line) s (dropSpaces s) := by
  intro c done hc
  subst hc
  obtain ⟨hrest, hside⟩ := jointAt_of_at (r := r) (c := c.skipSpaces) (.none h.2)
  have hbehind : (r.jointAt c.skipSpaces).2.skipSpaces.rest = dropSpaces c.rest := by
    rw [Cursor.rest_skipSpaces, hrest, Cursor.rest_skipSpaces, dropSpaces_dropSpaces]
  have hterm : r.term? line (r.jointAt c.skipSpaces).2.skipSpaces = .ok none :=
    term?_eq_none.mpr (hbehind ▸ h.1)
  refine ⟨[], (r.jointAt c.skipSpaces).2.skipSpaces, ?_, hbehind⟩
  rw [operands_eq hadv term?_idle (Nat.le_refl _), hterm, hside.mpr rfl]
  simp

theorem reads_operand (hadv : TermReader.Advances (r.term? line)) {op : Option String}
    {s₁ s₂ : List Char} (hop : JointAt op (dropSpaces s) s₁)
    (hterm : TermReader.Reads (r.term? line) (dropSpaces s₁) s₂)
    (hmore : r.ReadsOperands (r.term? line) s₂ s') (hc : c.rest = s)
    (done : List (Joint × Expr)) : ∃ e more c',
      r.operands (r.term? line) c.rest done c = .ok (done.reverse ++ e :: more, c') ∧
        c'.rest = s' := by
  subst hc
  obtain ⟨hrest, _⟩ := jointAt_of_at (r := r) (c := c.skipSpaces) hop
  obtain ⟨e, c₁, he, rfl⟩ := hterm (r.jointAt c.skipSpaces).2.skipSpaces
    (by rw [Cursor.rest_skipSpaces, hrest])
  obtain ⟨more, c', hops, hrest'⟩ := hmore c₁ (((r.jointAt c.skipSpaces).1, e) :: done) rfl
  refine ⟨((r.jointAt c.skipSpaces).1, e), more, c', ?_, hrest'⟩
  rw [operands_eq hadv term?_idle (Nat.le_refl _), he]
  simpa using hops

theorem reads_line {lead : Option String} {s₁ s₂ : List Char}
    (hlead : LeadAt lead (dropSpaces s) s₁)
    (hfirst : TermReader.Reads (r.term? (r.line n)) (dropSpaces s₁) s₂)
    (hfurther : r.ReadsOperands (r.term? (r.line n)) s₂ s') :
    LineReader.Reads (r.line (n + 1)) s s' := by
  intro c hc
  subst hc
  have hadv := term?_advances (r := r) (r.line_advances n)
  simp only [line, flatLine, Parsed.bind_eq_ok]
  cases hlead with
  | none =>
    obtain ⟨e, c₁, he, rfl⟩ := hfirst c.skipSpaces (by simp [Cursor.rest_skipSpaces])
    obtain ⟨more, c', hops, hrest⟩ := hfurther c₁ [] rfl
    obtain ⟨tree, htree⟩ := Line.tree?_of_operand (l := ⟨some e, more⟩) (.inl (by simp))
    exact ⟨tree, c', ⟨(⟨some e, more⟩, c'), ⟨_, he, _, hops, rfl⟩, by rw [← htree]; rfl⟩, hrest⟩
  | operator hop hsigned =>
    -- no term begins here: there is no first operand, and the operator stands before the next one
    have hnone : r.term? (r.line n) c.skipSpaces = .ok none := by
      rw [term?_eq_none, Cursor.rest_skipSpaces, formOf_operator hop hsigned]
    obtain ⟨e, more, c', hops, hrest⟩ := reads_operand hadv (c := c.skipSpaces)
      (s := dropSpaces c.rest) (.operator (by simpa using hop)) hfirst hfurther rfl []
    obtain ⟨tree, htree⟩ := Line.tree?_of_operand (l := ⟨none, e :: more⟩) (.inr (by simp))
    exact ⟨tree, c', ⟨(⟨none, e :: more⟩, c'), ⟨_, hnone, _, hops, rfl⟩, by rw [← htree]; rfl⟩,
      hrest⟩

/-- What stands for a nonterminal is read from `s` to `s'` with `n` levels of lines. -/
def ReadsAs (r : Reading) (n : Nat) : Nonterminal → List Char → List Char → Prop
  | .term, s, s' => TermReader.Reads (r.term? (r.line n)) s s'
  | .line, s, s' => LineReader.Reads (r.line n) s s'
  | .operands, s, s' => r.ReadsOperands (r.term? (r.line n)) s s'

end Reading

/-- **What has a derivation is read**, with as many levels as it is deep. -/
theorem Derives.reads (r : Reading) {k : Nonterminal} {t : Derivation k} {s s' : List Char}
    (h : Derives NoOperand t s s') {n : Nat} (hn : t.depth ≤ n) : r.ReadsAs n k s s' := by
  induction h generalizing n with
  | operator hop => exact Reading.reads_operator hop
  | group hopen hinner hclose ih =>
    exact Reading.reads_group hopen (ih hn) hclose fun _ _ hop => hop.not_group hopen hinner
  | builtin hat hname => exact Reading.reads_builtin hat hname
  | lambda hslash hparam hdot _ ih => exact Reading.reads_lambda hslash hparam hdot (ih hn)
  | binding hslash hparam hop _ hsemi _ ihv ihb =>
    obtain ⟨hv, hb⟩ := Nat.max_le.mp hn
    exact Reading.reads_binding hslash hparam hop (ihv hv) hsemi (ihb hb)
  | @number sign digits s s₁ s' hs hsign hdigits hfits =>
    have hnumber : Derives NoOperand (.number sign digits) s s' := .number hs hsign hdigits hfits
    exact Reading.reads_number hs hsign hdigits hfits hnumber.form
  | string hs hbody => exact Reading.reads_string hs hbody
  | @name x s s' hname hdigit =>
    have hword : Derives NoOperand (.name x) s s' := .name hname hdigit
    exact Reading.reads_name hname hword.form
  | line hlead _ _ ihf iho =>
    cases n with
    | zero => exact absurd hn (Nat.not_succ_le_zero _)
    | succ n =>
      obtain ⟨hf, ho⟩ := Nat.max_le.mp (Nat.le_of_succ_le_succ hn)
      exact Reading.reads_line hlead (ihf hf) (iho ho)
  | done h => exact Reading.reads_done (Reading.term?_advances (r.line_advances n)) h
  | operand hop _ _ iht ihm =>
    obtain ⟨ht, hm⟩ := Nat.max_le.mp hn
    intro c done hc
    obtain ⟨e, more, c', hops, hrest⟩ := Reading.reads_operand
      (Reading.term?_advances (r.line_advances n)) hop (iht ht) (ihm hm) hc done
    exact ⟨e :: more, c', hops, hrest⟩

/-! ## 5. Programs -/

/-- A program that is read has a derivation that is not too deep and stands for the same tree. -/
theorem derives_of_parse {source : Source} {depth : Nat} {e : Expr}
    (h : parse source [] depth = .ok e) :
    ∃ t : Derivation .line, Derives NoOperand t (blankText source.chars) [] ∧ t.depth ≤ depth ∧
      t.tree = e.bare := by
  rw [parse_nil, Reading.whole_eq_ok] at h
  obtain ⟨c', hline, hend⟩ := h
  obtain ⟨t, ht, hdepth, htree⟩ := Reading.line_derives ⟨source, depth⟩ depth _ _ _ hline
  -- the line has taken the spaces behind it along
  have hspaces := (ht.noOperand (by simp)).2
  rw [← hspaces, ← Cursor.rest_skipSpaces, hend] at ht
  exact ⟨t, ht, hdepth, htree⟩

/-- A program is read if its whole text has a derivation that is not too deep. -/
theorem parse_iff_depth (source : Source) (depth : Nat) :
    (∃ e, parse source [] depth = .ok e) ↔ ∃ t : Derivation .line,
      Derives NoOperand t (blankText source.chars) [] ∧ t.depth ≤ depth := by
  constructor
  · intro ⟨e, h⟩
    obtain ⟨t, ht, hdepth, _⟩ := derives_of_parse h
    exact ⟨t, ht, hdepth⟩
  · intro ⟨t, ht, hdepth⟩
    obtain ⟨e, c', hline, hrest⟩ := ht.reads ⟨source, depth⟩ hdepth ⟨_, 0⟩ rfl
    simp only [parse_nil, Reading.whole_eq_ok]
    refine ⟨e, c', hline, ?_⟩
    rw [Cursor.rest_skipSpaces, hrest]
    rfl

/-- A text has no more levels of lines than characters, so that many are no bound on it. -/
theorem parse_iff_derives_longest {source : Source} {depth : Nat}
    (h : (blankText source.chars).length ≤ depth) :
    (∃ e, parse source [] depth = .ok e) ↔
      ∃ t : Derivation .line, Derives NoOperand t (blankText source.chars) [] := by
  rw [parse_iff_depth]
  constructor
  · intro ⟨t, ht, _⟩
    exact ⟨t, ht⟩
  · intro ⟨t, ht⟩
    exact ⟨t, ht, Nat.le_trans ht.depth_le.1 h⟩

/-- A whole text with a derivation has one whose lines go on as long as they can, of the same
    tokens. -/
theorem Derives.whole {stops : List Char → Prop} {t : Derivation .line} {s : List Char}
    (h : Derives stops t s []) :
    ∃ u : Derivation .line, Derives NoOperand u s [] ∧ u.tokens = t.tokens := by
  obtain ⟨u, hu, htokens⟩ := h.extended (.nothing noOperand_nil rfl)
  exact ⟨u, hu, by simpa [Derivation.tokens] using htokens⟩

/-- A text is derived by the rules alone exactly if it is with lines that go on as long as they
    can. -/
theorem exists_derives_iff {s : List Char} :
    (∃ t : Derivation .line, Derives NoOperand t s []) ↔
      ∃ t : Derivation .line, Derives (fun _ => True) t s [] := by
  constructor
  · intro ⟨t, ht⟩
    exact ⟨t, ht.imp fun _ _ => trivial⟩
  · intro ⟨t, ht⟩
    obtain ⟨u, hu, _⟩ := ht.whole
    exact ⟨u, hu⟩

/-- **The programs that are read are those that the grammar derives.** The rules alone leave open
    where the body of a lambda ends. If it goes on as long as it can, as every line does, then a
    program has one derivation; it stands for the tree that is read, and every derivation by the
    rules alone has its tokens. -/
theorem parse_iff_derives (source : Source) :
    let text := blankText source.chars
    (∀ depth, text.length ≤ depth →
      ((∃ e, parse source [] depth = .ok e) ↔
        ∃ t : Derivation .line, Derives (fun _ => True) t text []) ∧
      ((∃ e, parse source [] depth = .ok e) ↔
        ∃! t : Derivation .line, Derives NoOperand t text [])) ∧
    (∀ depth e, parse source [] depth = .ok e →
      ∃ t : Derivation .line, Derives NoOperand t text [] ∧ t.tree = e.bare) ∧
    ∀ t u : Derivation .line, Derives (fun _ => True) t text [] → Derives NoOperand u text [] →
      t.tokens = u.tokens := by
  intro text
  refine ⟨fun depth hlong => ?_, fun depth e h => ?_, fun t u ht hu => ?_⟩
  · have hread := parse_iff_derives_longest hlong
    refine ⟨hread.trans exists_derives_iff, hread.trans ⟨fun ⟨t, ht⟩ => ?_, fun h => h.exists⟩⟩
    exact ⟨t, ht, fun u hu => (hu.unique ht).1⟩
  · obtain ⟨t, ht, _, htree⟩ := derives_of_parse h
    exact ⟨t, ht, htree⟩
  · obtain ⟨v, hv, htokens⟩ := ht.whole
    rw [← htokens, (hv.unique hu).1]

/-- The lambda `\x.a` with the argument `b`, and the lambda with the body `a b`. -/
theorem derives_body_twice :
    ∃ t u : Derivation .line, t ≠ u ∧
      Derives (fun _ => True) t (blankText (⟨"main", "\\x.a b"⟩ : Source).chars) [] ∧
      Derives NoOperand u (blankText (⟨"main", "\\x.a b"⟩ : Source).chars) [] := by
  have htext : blankText (⟨"main", "\\x.a b"⟩ : Source).chars =
      ['\\', 'x', '.', 'a', ' ', 'b'] := by decide
  rw [htext]
  have hx : Longest isNameChar "x" ['x', '.', 'a', ' ', 'b'] ['.', 'a', ' ', 'b'] :=
    ⟨by decide, by decide, by decide⟩
  have ha : Longest isNameChar "a" ['a', ' ', 'b'] [' ', 'b'] :=
    ⟨by decide, by decide, by decide⟩
  have hb : Longest isNameChar "b" ['b'] [] := ⟨by decide, by decide, by decide⟩
  have hhead {p : Char → Bool} {ch : Char} {s : List Char} (h : p ch = false) :
      ∀ d ∈ (ch :: s).head?, p d = false := by
    intro d hd
    cases hd
    exact h
  have hargument {stops : List Char → Prop} (h : stops []) :
      Derives stops (.operand none (.name "b") .done) (dropSpaces [' ', 'b']) [] :=
    .operand (.none (hhead (by decide))) (.name hb (hhead (by decide))) (.done h)
  have hshort : Derives (fun _ => True) (.line none (.name "a") .done) ['a', ' ', 'b'] ['b'] :=
    .line (.none _) (.name ha (hhead (by decide))) (.done trivial)
  have hlong : Derives NoOperand (.line none (.name "a") (.operand none (.name "b") .done))
      ['a', ' ', 'b'] [] :=
    .line (.none _) (.name ha (hhead (by decide))) (hargument noOperand_nil).after_spaces
  have happlied : Derives (fun _ => True) _ ['\\', 'x', '.', 'a', ' ', 'b'] [] :=
    .line (.none _) (.lambda rfl (.word hx) rfl hshort) (hargument trivial)
  have hwhole : Derives NoOperand _ ['\\', 'x', '.', 'a', ' ', 'b'] [] :=
    .line (.none _) (.lambda rfl (.word hx) rfl hlong) (.done noOperand_nil)
  exact ⟨_, _, by simp, happlied, hwhole⟩

/-- By the rules alone `\x.a b` is derived in two ways, and it is read. -/
theorem lambda_body_ambiguous :
    (∃ e, parse ⟨"main", "\\x.a b"⟩ [] 6 = .ok e) ∧
      ¬ ∃! t : Derivation .line,
        Derives (fun _ => True) t (blankText (⟨"main", "\\x.a b"⟩ : Source).chars) [] := by
  obtain ⟨t, u, hne, ht, hu⟩ := derives_body_twice
  refine ⟨⟨_, rfl⟩, fun ⟨v, _, honly⟩ => hne ?_⟩
  rw [honly t ht, honly u (hu.imp fun _ _ => trivial)]

/-- It is read as its derivation with the longer body, the only one whose lines go on as long as they
    can. -/
theorem parse_iff_derives_body :
    ∃ t u : Derivation .line, t ≠ u ∧ t.tokens = u.tokens ∧
      Derives (fun _ => True) t (blankText (⟨"main", "\\x.a b"⟩ : Source).chars) [] ∧
      Derives NoOperand u (blankText (⟨"main", "\\x.a b"⟩ : Source).chars) [] ∧
      ∃ e, parse ⟨"main", "\\x.a b"⟩ [] 6 = .ok e ∧ u.tree = e.bare := by
  obtain ⟨hread, htree, htokens⟩ := parse_iff_derives ⟨"main", "\\x.a b"⟩
  obtain ⟨t, u, hne, ht, hu⟩ := derives_body_twice
  obtain ⟨hrules, honly⟩ := hread 6 (by decide)
  obtain ⟨e, he⟩ := hrules.mpr ⟨t, ht⟩
  obtain ⟨v, hv, hve⟩ := htree 6 e he
  obtain rfl : u = v := (honly.mp ⟨e, he⟩).unique hu hv
  exact ⟨t, u, hne, htokens t u ht hu, ht, hu, e, he, hve⟩

end CallByNeed
