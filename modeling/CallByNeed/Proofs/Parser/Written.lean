/-
  File:      CallByNeed/Proofs/Parser/Written.lean
  Subject:   Reading text of a known form.

  * `Stops`, `Breaks` -- text that no line, and text that no word and no number goes on into;
  * `Cursor.span_written`, `Cursor.run?_written`, ... -- the tokens at the head of a text;
  * `SideBySide` -- terms with nothing but spaces between them; `SideBySide.line`: they are a line;
  * `Reading.line_operator` -- an operator alone is no line, which is why parentheses around a line
    never read as the name of an operator (`Reading.term?_group`);
  * `Reading.term?_lambda_eq` -- a lambda with its parameter written as a name;
  * `Reading.line_error`, `SideBySide.line_error`, ... -- a fault in one of the pieces.
-/
import CallByNeed.Proofs.Layout
import CallByNeed.Proofs.Parser.Progress

namespace CallByNeed

/-! ## 1. Where a piece of text ends -/

/-- A line in front of this text is over. -/
def Stops (rest : List Char) : Prop := ∀ ch ∈ rest.head?, ch = ')'

/-- A word or a number in front of this text is over. -/
def Breaks (rest : List Char) : Prop := ∀ ch ∈ rest.head?, ch = ' ' ∨ ch = ')'

theorem Stops.nil : Stops [] := by
  intro ch hch
  cases hch

theorem Stops.close (rest : List Char) : Stops (')' :: rest) := by
  intro ch hch
  simpa using hch.symm

theorem Stops.breaks {rest : List Char} (h : Stops rest) : Breaks rest :=
  fun ch hch => .inr (h ch hch)

theorem Breaks.space (rest : List Char) : Breaks (' ' :: rest) := by
  intro ch hch
  exact .inl (by simpa using hch.symm)

/-- No class without the blank and the parenthesis goes on. -/
theorem Breaks.head {rest : List Char} (h : Breaks rest) {p : Char → Bool} (hs : p ' ' = false)
    (hc : p ')' = false) : ∀ ch ∈ rest.head?, p ch = false := by
  intro ch hch
  rcases h ch hch with rfl | rfl
  · exact hs
  · exact hc

namespace Cursor

variable {p : Char → Bool} {rest : List Char}

/-! ## 2. Tokens at the head of a text -/

theorem span_written {xs : List Char} (hx : ∀ ch ∈ xs, p ch = true)
    (h : ∀ ch ∈ rest.head?, p ch = false) (o : Int) :
    (⟨xs ++ rest, o⟩ : Cursor).span p = (xs, ⟨rest, o + byteCount xs⟩) := by
  simp only [span, List.takeWhile_append_of_pos hx, List.dropWhile_append_of_pos hx,
    takeWhile_of_head h, dropWhile_of_head h, List.append_nil]

theorem run?_written {x : String} (hx : Spelled p x) (h : ∀ ch ∈ rest.head?, p ch = false)
    (o : Int) :
    (⟨x.toList ++ rest, o⟩ : Cursor).run? p = some (x, ⟨rest, o + byteCount x.toList⟩) := by
  rw [run?_eq, span_written hx.2 h, if_neg hx.1, String.ofList_toList]

theorem run?_of_head {c : Cursor} (h : ∀ ch ∈ c.rest.head?, p ch = false) : c.run? p = none :=
  run?_eq_none.mpr (takeWhile_of_head h)

theorem skipSpaces_cons {ch : Char} (h : ch ≠ ' ') (o : Int) :
    (⟨ch :: rest, o⟩ : Cursor).skipSpaces = ⟨ch :: rest, o⟩ :=
  skipSpaces_of_head (by simpa using h)

/-- One space more or less. -/
theorem skipSpaces_space (o : Int) :
    (⟨' ' :: rest, o⟩ : Cursor).skipSpaces = (⟨rest, o + 1⟩ : Cursor).skipSpaces := by
  have one : ' '.utf8Size = 1 := by decide
  simp only [skipSpaces, span, List.takeWhile_cons, List.dropWhile_cons, beq_self_eq_true, if_true,
    byteCount_cons, one, mk.injEq, true_and]
  omega

theorem eat?_cons {ch : Char} (h : ch.utf8Size = 1) (o : Int) :
    (⟨ch :: rest, o⟩ : Cursor).eat? ch = some ⟨rest, o + 1⟩ := by
  simp [eat?, h]

theorem eat?_of_head {c : Cursor} {ch : Char} (h : ∀ d ∈ c.rest.head?, d ≠ ch) :
    c.eat? ch = none := by
  obtain ⟨rest, o⟩ := c
  cases rest with
  | nil => rfl
  | cons d rest => simp [eat?, h d (by simp)]

theorem bracketedOperator?_written {op : String} (hop : Spelled isOperatorChar op) (o : Int) :
    (⟨'(' :: (op.toList ++ ')' :: rest), o⟩ : Cursor).bracketedOperator? =
      some (op, ⟨rest, o + 1 + byteCount op.toList + 1⟩) := by
  have hclose : ∀ ch ∈ (')' :: rest).head?, isOperatorChar ch = false := by
    intro ch hch
    obtain rfl : ')' = ch := by simpa using hch
    decide
  have hinner : (⟨op.toList ++ ')' :: rest, o + 1⟩ : Cursor).skipSpaces =
      ⟨op.toList ++ ')' :: rest, o + 1⟩ := by
    obtain ⟨d, ds, hd⟩ := List.exists_cons_of_ne_nil hop.1
    rw [hd]
    exact skipSpaces_cons (isOperatorChar_spec (hop.2 d (by simp [hd]))).2.2.1 _
  simp only [bracketedOperator?, eat?_cons (by decide : '('.utf8Size = 1), Option.bind_eq_bind,
    Option.bind_some, hinner, operator?, run?_written hop hclose,
    skipSpaces_cons (by decide : ')' ≠ ' '), eat?_cons (by decide : ')'.utf8Size = 1)]
  rfl

/-- Without a parenthesis in front there is no operator in parentheses. -/
theorem bracketedOperator?_of_head {c : Cursor} (h : ∀ d ∈ c.rest.head?, d ≠ '(') :
    c.bracketedOperator? = none := by
  rw [bracketedOperator?, eat?_of_head h]
  rfl

/-- The character behind the parenthesis is enough to see that. -/
theorem bracketedOperator?_of_second {ch : Char} (hspace : ch ≠ ' ') (hop : isOperatorChar ch = false)
    (o : Int) : (⟨'(' :: ch :: rest, o⟩ : Cursor).bracketedOperator? = none := by
  have hnone : (⟨ch :: rest, o + 1⟩ : Cursor).operator? = none := run?_of_head (by simpa using hop)
  rw [bracketedOperator?, eat?_cons (by decide)]
  simp only [Option.bind_eq_bind, Option.bind_some, skipSpaces_cons hspace, hnone,
    Option.bind_none]

end Cursor

/-! ## 3. Names as they are written -/

theorem nameText_operator {x : String} (hx : Spelled isOperatorChar x) :
    (Expr.nameText x).toList = '(' :: (x.toList ++ [')']) := by
  obtain ⟨d, ds, hd⟩ := List.exists_cons_of_ne_nil hx.1
  have hop : namesOperator x = true := by
    simp [namesOperator, hd, hx.2 d (by simp [hd])]
  simp [Expr.nameText, hop]

theorem nameText_word {x : String} (hx : Spelled isNameChar x) : Expr.nameText x = x := by
  obtain ⟨d, ds, hd⟩ := List.exists_cons_of_ne_nil hx.1
  have hop : namesOperator x = false := by
    simp [namesOperator, hd, isOperatorChar_of_isNameChar (hx.2 d (by simp [hd]))]
  simp [Expr.nameText, hop]

/-- Blanking leaves a name as it is. -/
theorem clean_nameText {x : String} (hx : ParamName x) : Clean (Expr.nameText x).toList := by
  rcases hx with hx | hx
  · rw [nameText_operator hx]
    refine clean_of_chars fun ch hch => ?_
    simp only [List.mem_cons, List.mem_append, List.not_mem_nil, or_false] at hch
    rcases hch with rfl | hch | rfl
    · decide
    · exact isPlainChar_of_operator (hx.2 ch hch)
    · decide
  · rw [nameText_word hx]
    exact clean_of_chars fun ch hch => isPlainChar_of_name (hx.2 ch hch)

/-- A word does not begin like anything else. -/
theorem Spelled.word_head {x : String} (hx : Spelled isNameChar x) {rest : List Char} {ch : Char}
    (hch : isNameChar ch = false) : ∀ d ∈ (x.toList ++ rest).head?, d ≠ ch := by
  obtain ⟨a, as, ha⟩ := List.exists_cons_of_ne_nil hx.1
  intro d hd
  obtain rfl : a = d := by simpa [ha] using hd
  exact isNameChar_ne (hx.2 a (by simp [ha])) hch

namespace Reading

variable {r : Reading} {line : LineReader} {term : TermReader} {c c₁ c' : Cursor} {e : Expr} {n : Nat}

/-- A parameter is read as it is written. -/
theorem param_written {x : String} (hx : ParamName x) (cs : List Char) (o : Int) :
    param ⟨(Expr.nameText x).toList ++ '.' :: cs, o⟩ =
      (x, ⟨'.' :: cs, o + byteCount (Expr.nameText x).toList⟩) := by
  rcases hx with hx | hx
  · rw [nameText_operator hx, param, List.cons_append, List.append_assoc, List.singleton_append,
      Cursor.bracketedOperator?_written hx]
    have one : '('.utf8Size = 1 ∧ ')'.utf8Size = 1 := by decide
    simp only [byteCount_cons, byteCount_append, byteCount_nil, one, Prod.mk.injEq,
      Cursor.mk.injEq, true_and]
    omega
  · have hdot : ∀ ch ∈ ('.' :: cs).head?, isNameChar ch = false := by
      intro ch hch
      obtain rfl : '.' = ch := by simpa using hch
      decide
    rw [nameText_word hx, param, Cursor.bracketedOperator?_of_head (hx.word_head (by decide)),
      Cursor.word?, Cursor.run?_written hx hdot]
    rfl

/-! ## 4. Lines -/

/-- A term that begins like none of the other forms is a number or a name. -/
theorem term?_of_head (h : ∀ ch ∈ c.rest.head?, ch ∉ ['(', '@', '\\', '"']) :
    r.term? line c = r.plain c := by
  have hne {ch : Char} (hch : ch ∈ ['(', '@', '\\', '"']) : c.eat? ch = none :=
    Cursor.eat?_of_head fun d hd he => h d hd (he ▸ hch)
  exact term?_plain (hne (by decide)) (hne (by decide)) (hne (by decide)) (hne (by decide))

/-- No term begins where a line is over. -/
theorem term?_stop (h : Stops c.rest) : r.term? line c = .ok none := by
  have hhead : ∀ ch ∈ c.rest.head?, ch ∉ ['(', '@', '\\', '"'] := by
    intro ch hch
    rw [h ch hch]
    decide
  have hsign : c.sign = ([], c) := by
    obtain ⟨rest, o⟩ := c
    cases rest with
    | nil => rfl
    | cons d rest =>
      obtain rfl : d = ')' := h d (by simp)
      rfl
  rw [term?_of_head hhead, plain, Cursor.numeral?_eq, hsign, Cursor.word?,
    Cursor.run?_of_head (h.breaks.head (by decide) (by decide))]
  simp [Cursor.span, Cursor.takeWhile_of_head (h.breaks.head (p := Char.isDigit) (by decide)
    (by decide))]

theorem skipSpaces_stop (h : Stops c.rest) : c.skipSpaces = c :=
  Cursor.skipSpaces_of_head fun ch hch => by
    rw [h ch hch]
    decide

theorem operator?_stop (h : Stops c.rest) : c.operator? = none :=
  Cursor.run?_of_head (h.breaks.head (by decide) (by decide))

/-- Where a line is over, no operand follows. -/
theorem operands_stop (h : Stops c.rest) (chars : List Char) (done : List (Joint × Expr)) :
    r.operands (r.term? line) chars done c = .ok (done.reverse, c) := by
  cases chars with
  | nil => rfl
  | cons a chars =>
    simp only [operands, skipSpaces_stop h, jointAt, operator?_stop h, term?_stop h]

/-- A term begins with no space. -/
theorem term?_skipSpaces {t : Expr × Cursor} (h : r.term? line c = .ok (some t)) :
    c.skipSpaces = c := by
  refine Cursor.skipSpaces_of_head fun ch hch hspace => ?_
  subst hspace
  obtain ⟨rest, o⟩ := c
  cases rest with
  | nil => cases hch
  | cons d rest =>
    obtain rfl : d = ' ' := by simpa using hch
    cases h

end Reading

/-- An expression applied to one more argument. It begins where the function begins. -/
def Expr.applied (f a : Expr) : Expr := .apply f.pos f a

/-- Terms one after another with nothing but spaces between them, from one cursor to another. Each
    is applied to the next. -/
inductive SideBySide (term : TermReader) : Cursor → Expr → Cursor → Prop where
  | term {c c' : Cursor} {e : Expr} (h : term c = .ok (some (e, c'))) : SideBySide term c e c'
  | apply {c c₁ c' : Cursor} {f a : Expr} (hf : SideBySide term c f c₁)
      (hop : c₁.skipSpaces.operator? = none) (ha : term c₁.skipSpaces = .ok (some (a, c'))) :
      SideBySide term c (f.applied a) c'

/-- Side by side groups to the left. -/
theorem Line.tree?_sideBySide (first : Expr) (args : List Expr) :
    Line.tree? ⟨some first, args.map (Joint.sideBySide, ·)⟩ =
      some (args.foldl Expr.applied first) := by
  have binds : Operator.bindsFirst (Joint.symbol .sideBySide) (Joint.symbol .sideBySide) = true := by
    decide
  have from_left (args : List Expr) : ∀ left right : Expr,
      treeFrom [⟨some left, .sideBySide⟩] right (args.map (Joint.sideBySide, ·)) =
        args.foldl Expr.applied (left.applied right) := by
    induction args with
    | nil => intro left right; rfl
    | cons a args ih =>
      intro left right
      simp only [List.map_cons, treeFrom, settle, binds, if_true]
      exact ih _ a
  cases args with
  | nil => rfl
  | cons a args => exact congrArg some (from_left args first a)

/-- The terms of the sequence are the operands of a line. -/
theorem SideBySide.operands {r : Reading} {term : TermReader} (hadv : TermReader.Advances term)
    (hidle : Reading.Idle term) {c c' : Cursor} {e : Expr} (h : SideBySide term c e c') :
    ∃ (first : Expr) (c₁ : Cursor) (args : List Expr),
      term c = .ok (some (first, c₁)) ∧ e = args.foldl Expr.applied first ∧
      ∀ done, r.operands term c₁.rest done c₁ =
        r.operands term c'.rest ((args.map (Joint.sideBySide, ·)).reverse ++ done) c' := by
  induction h with
  | @term c' e h => exact ⟨e, c', [], h, rfl, fun done => rfl⟩
  | @apply c₁ c' f a _ hop ha ih =>
    obtain ⟨first, c₀, args, hfirst, hf, hops⟩ := ih
    refine ⟨first, c₀, args ++ [a], hfirst, by rw [List.foldl_append, ← hf]; rfl, fun done => ?_⟩
    have hjoint : r.jointAt c₁.skipSpaces = (.sideBySide, c₁.skipSpaces) := by
      rw [Reading.jointAt, hop]
    rw [hops, Reading.operands_eq hadv hidle (Nat.le_refl _), hjoint]
    simp only [Cursor.skipSpaces_skipSpaces, ha, List.map_append, List.map_cons, List.map_nil,
      List.reverse_append, List.reverse_cons, List.reverse_nil, List.nil_append, List.cons_append]

/-- **Terms side by side are a line**, if the line is over behind them. -/
theorem SideBySide.line {r : Reading} {n : Nat} {c c' : Cursor} {e : Expr}
    (h : SideBySide (r.term? (r.line n)) c e c') (hstop : Stops c'.rest) :
    r.line (n + 1) c = .ok (some e, c') := by
  obtain ⟨first, c₁, args, hfirst, he, hops⟩ :=
    h.operands (r := r) (Reading.term?_advances (r.line_advances n)) Reading.term?_idle
  simp only [Reading.line, Reading.flatLine, Reading.term?_skipSpaces hfirst, hfirst, bind,
    Except.bind, hops, Reading.operands_stop hstop, List.append_nil, List.reverse_reverse]
  rw [he, ← Line.tree?_sideBySide]
  rfl

namespace Reading

variable {r : Reading} {line : LineReader} {c c₁ c' : Cursor} {e : Expr} {n : Nat} {op : String}

/-! ## 5. Parentheses -/

/-- Where an operator stands with nothing behind it, no term begins. -/
theorem term?_operator (hop : c.operator? = some (op, c₁)) (h : Breaks c₁.rest) :
    r.term? line c = .ok none := by
  obtain ⟨⟨hrest, -⟩, hne, hall⟩ := Cursor.run?_eq_some hop
  obtain ⟨d, ds, hd⟩ := List.exists_cons_of_ne_nil hne
  rw [hd] at hrest hall
  obtain ⟨rest, o⟩ := c
  simp only [List.cons_append] at hrest
  subst hrest
  have hdop := hall d (by simp)
  have hforms : ['(', '@', '\\', '"'].all (!isOperatorChar ·) = true := by decide
  have hhead : ∀ ch ∈ (d :: (ds ++ c₁.rest)).head?, ch ∉ ['(', '@', '\\', '"'] := by
    intro ch hch hform
    obtain rfl : d = ch := by simpa using hch
    simpa [hdop] using List.all_eq_true.mp hforms d hform
  -- the sign of a numeral would need a digit behind it
  have hdigits : ∀ ch ∈ (⟨d :: (ds ++ c₁.rest), o⟩ : Cursor).sign.2.rest.head?, ch.isDigit = false := by
    have hbehind : ∀ ch ∈ (ds ++ c₁.rest).head?, ch.isDigit = false := by
      cases ds with
      | nil => exact h.head (by decide) (by decide)
      | cons d' ds =>
        intro ch hch
        obtain rfl : d' = ch := by simpa using hch
        exact (isOperatorChar_spec (hall d' (by simp))).2.1
    unfold Cursor.sign
    split
    · rename_i h
      obtain ⟨-, rfl⟩ := List.cons.inj h
      exact hbehind
    · rename_i h
      obtain ⟨-, rfl⟩ := List.cons.inj h
      exact hbehind
    · intro ch hch
      obtain rfl : d = ch := by simpa using hch
      exact (isOperatorChar_spec hdop).2.1
  have hword : ∀ ch ∈ (d :: (ds ++ c₁.rest)).head?, isNameChar ch = false := by
    intro ch hch
    obtain rfl : d = ch := by simpa using hch
    exact (isOperatorChar_spec hdop).1
  rw [term?_of_head hhead, plain, Cursor.numeral?_eq, Cursor.word?, Cursor.run?_of_head hword]
  simp [Cursor.span, Cursor.takeWhile_of_head hdigits]

/-- **An operator alone is no line**: its operand is missing. -/
theorem line_operator (hop : c.skipSpaces.operator? = some (op, c₁)) (h : Stops c₁.skipSpaces.rest) :
    r.line (n + 1) c = r.missing c₁.skipSpaces .operand := by
  have hbreaks : Breaks c₁.rest := by
    obtain ⟨rest, o⟩ := c₁
    cases rest with
    | nil => exact Stops.nil.breaks
    | cons ch rest =>
      by_cases hspace : ch = ' '
      · subst hspace
        exact Breaks.space rest
      · rw [Cursor.skipSpaces_cons hspace] at h
        exact h.breaks
  simp only [Reading.line, flatLine, term?_operator hop hbreaks, bind, Except.bind]
  rw [operands_eq (term?_advances (r.line_advances n)) term?_idle (Nat.le_refl _),
    Cursor.skipSpaces_skipSpaces, jointAt, hop]
  simp only [term?_stop h]
  rfl

/-- Parentheses around a line are not the name of an operator. -/
theorem bracketedOperator?_of_line {t : Option Expr × Cursor} (hopen : c.eat? '(' = some c₁)
    (hline : r.line n c₁ = .ok t) : c.bracketedOperator? = none := by
  cases n with
  | zero => cases hline
  | succ n =>
    cases hb : c.bracketedOperator? with
    | none => rfl
    | some t' =>
      simp only [Cursor.bracketedOperator?, hopen, Option.bind_eq_bind, Option.bind_some,
        Option.bind_eq_some_iff] at hb
      obtain ⟨⟨op, behind⟩, hop, after, hclose, -⟩ := hb
      have hstop : Stops behind.skipSpaces.rest := by
        rw [(Cursor.eat?_eq_some.mp hclose).1]
        exact Stops.close _
      rw [line_operator hop hstop] at hline
      cases hline

/-- **A line in parentheses is a term.** -/
theorem term?_group {cs rest : List Char} {o o' : Int}
    (h : r.line n ⟨cs, o + 1⟩ = .ok (some e, ⟨')' :: rest, o'⟩)) :
    r.term? (r.line n) ⟨'(' :: cs, o⟩ = .ok (some (e, ⟨rest, o' + 1⟩)) := by
  have hopen : (⟨'(' :: cs, o⟩ : Cursor).eat? '(' = some ⟨cs, o + 1⟩ :=
    Cursor.eat?_cons (by decide) o
  have hclose : r.punctuation ⟨')' :: rest, o'⟩ ')' .closingParen = .ok ⟨rest, o' + 1⟩ := by
    rw [punctuation_eq_ok, Cursor.skipSpaces_cons (by decide), Cursor.eat?_cons (by decide)]
  rw [term?_open hopen, bracketedOperator?_of_line hopen h]
  exact Parsed.bind_eq_ok.mpr ⟨_, lineOr_eq_ok.mpr h, Parsed.bind_eq_ok.mpr ⟨_, hclose, rfl⟩⟩

/-! ## 6. Lambdas -/

/-- **A lambda, its parameter written as a name**, is read like the line behind its dot. -/
theorem term?_lambda_eq {x : String} (hx : ParamName x) (cs : List Char) (o : Int) :
    r.term? line ⟨'\\' :: ((Expr.nameText x).toList ++ '.' :: cs), o⟩ =
      r.lineOr line ⟨cs, o + 1 + byteCount (Expr.nameText x).toList + 1⟩ .lambdaBody >>= fun t =>
        pure (some (.lambda ⟨r.source, o⟩ x t.1, t.2)) := by
  have hname : (⟨(Expr.nameText x).toList ++ '.' :: cs, o + 1⟩ : Cursor).skipSpaces =
      ⟨(Expr.nameText x).toList ++ '.' :: cs, o + 1⟩ := by
    rcases hx with hx | hx
    · rw [nameText_operator hx]
      exact Cursor.skipSpaces_cons (by decide) _
    · rw [nameText_word hx]
      exact Cursor.skipSpaces_of_head (hx.word_head (by decide))
  rw [term?_backslash (Cursor.eat?_cons (by decide) o)]
  simp only [lambda, hname, param_written hx, Cursor.skipSpaces_cons (by decide : '.' ≠ ' '),
    Cursor.eat?_cons (by decide : '.'.utf8Size = 1)]
  rfl

theorem term?_lambda {x : String} (hx : ParamName x) {cs : List Char} {o : Int}
    (h : line ⟨cs, o + 1 + byteCount (Expr.nameText x).toList + 1⟩ = .ok (some e, c')) :
    r.term? line ⟨'\\' :: ((Expr.nameText x).toList ++ '.' :: cs), o⟩ =
      .ok (some (.lambda ⟨r.source, o⟩ x e, c')) := by
  rw [term?_lambda_eq hx, lineOr_eq_ok.mpr h]
  rfl

/-! ## 7. Faults on the way -/

variable {fault : At ParseFault}

theorem term?_lambda_error {x : String} (hx : ParamName x) {cs : List Char} {o : Int}
    (h : line ⟨cs, o + 1 + byteCount (Expr.nameText x).toList + 1⟩ = .error fault) :
    r.term? line ⟨'\\' :: ((Expr.nameText x).toList ++ '.' :: cs), o⟩ = .error fault := by
  rw [term?_lambda_eq hx, lineOr, h]
  rfl

theorem term?_group_error {cs : List Char} {o : Int}
    (hname : (⟨'(' :: cs, o⟩ : Cursor).bracketedOperator? = none)
    (h : line ⟨cs, o + 1⟩ = .error fault) : r.term? line ⟨'(' :: cs, o⟩ = .error fault := by
  rw [term?_open (Cursor.eat?_cons (by decide) o), hname]
  simp only [group, lineOr, h]
  rfl

end Reading

/-- A fault in the first term of a line. -/
theorem Reading.line_error {r : Reading} {n : Nat} {c : Cursor} {fault : At ParseFault}
    (hspaces : c.skipSpaces = c) (h : r.term? (r.line n) c = .error fault) :
    r.line (n + 1) c = .error fault := by
  simp only [line, flatLine, hspaces, h]
  rfl

/-- A fault in the term behind others. -/
theorem SideBySide.line_error {r : Reading} {n : Nat} {c c' : Cursor} {e : Expr}
    {fault : At ParseFault} (h : SideBySide (r.term? (r.line n)) c e c')
    (hop : c'.skipSpaces.operator? = none)
    (hnext : r.term? (r.line n) c'.skipSpaces = .error fault) :
    r.line (n + 1) c = .error fault := by
  have hadv := Reading.term?_advances (r := r) (r.line_advances n)
  obtain ⟨first, c₁, args, hfirst, _, hops⟩ := h.operands (r := r) hadv Reading.term?_idle
  have hjoint : r.jointAt c'.skipSpaces = (.sideBySide, c'.skipSpaces) := by
    rw [Reading.jointAt, hop]
  have hstop : r.operands (r.term? (r.line n)) c₁.rest [] c₁ = .error fault := by
    rw [hops, Reading.operands_eq hadv Reading.term?_idle (Nat.le_refl _), hjoint]
    simp only [Cursor.skipSpaces_skipSpaces, hnext]
  simp only [Reading.line, Reading.flatLine, Reading.term?_skipSpaces hfirst, hfirst, bind,
    Except.bind, hstop]

end CallByNeed
