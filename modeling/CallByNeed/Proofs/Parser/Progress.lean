/-
  File:      CallByNeed/Proofs/Parser/Progress.lean
  Subject:   Reading only ever moves on, and every operand takes at least one character.

  * `Reading.term?_open`, `Reading.term?_at`, ... -- the first character settles the form of a term;
  * `LineReader.Advances`, `TermReader.Advances` -- readers that stop behind what they have read, a
    term strictly so; `Reading.line_advances`, `Reading.term?_advances`;
  * `Reading.operands_eq` -- the operands of a line one after another: the characters left are
    always enough to count them;
  * `LineReader.Trims`, `Reading.line_skipSpaces` -- operands and lines stop in front of something
    that is no space;
  * `Reading.whole_eq_ok`, `parse_nil`, `parse_cons` -- whole programs.
-/
import CallByNeed.Proofs.Parser.Token

namespace CallByNeed

/-! ## 1. Steps of a reading -/

theorem Parsed.bind_eq_ok {α β : Type} {x : Parsed α} {f : α → Parsed β} {b : β} :
    x >>= f = .ok b ↔ ∃ a, x = .ok a ∧ f a = .ok b := by
  cases x with
  | error e => simp [bind, Except.bind]
  | ok a => simp [bind, Except.bind]

theorem bind_eq_error {ε α β : Type} {x : Except ε α} {f : α → Except ε β} {e : ε} :
    x >>= f = .error e ↔ x = .error e ∨ ∃ a, x = .ok a ∧ f a = .error e := by
  cases x with
  | error e' => simp [bind, Except.bind]
  | ok a => simp [bind, Except.bind]

namespace Reading

variable {r : Reading} {line : LineReader} {c c₁ c' : Cursor} {e : Expr}

theorem lineOr_eq_ok {x : Expectation} :
    r.lineOr line c x = .ok (e, c') ↔ line c = .ok (some e, c') := by
  rw [lineOr, Parsed.bind_eq_ok]
  constructor
  · rintro ⟨⟨o, c₁⟩, hline, h⟩
    cases o with
    | none => cases h
    | some e₁ =>
      cases h
      exact hline
  · intro h
    exact ⟨_, h, rfl⟩

theorem punctuation_eq_ok {ch : Char} {x : Expectation} :
    r.punctuation c ch x = .ok c' ↔ c.skipSpaces.eat? ch = some c' := by
  rw [punctuation]
  cases c.skipSpaces.eat? ch with
  | none => simp [missing, fail]
  | some c₁ => simp

/-! ## 2. The forms of a term -/

theorem eat?_rest {ch : Char} (hch : ch.utf8Size = 1) (h : c.eat? ch = some c₁) :
    c.rest = ch :: c₁.rest ∧ c₁ = ⟨c₁.rest, c.offset + 1⟩ := by
  obtain ⟨hrest, hoff⟩ := Cursor.eat?_eq_some.mp h
  refine ⟨hrest, ?_⟩
  obtain ⟨rest, o⟩ := c₁
  simp only at hoff
  simp [hoff, hch]

theorem term?_open (h : c.eat? '(' = some c₁) :
    r.term? line c =
      match c.bracketedOperator? with
      | some (op, c') => .ok (some (.name (r.pos c) op, c'))
      | none => r.group line c₁ := by
  obtain ⟨hrest, hc⟩ := eat?_rest (by decide) h
  rw [hc]
  cases hop : c.bracketedOperator? with
  | none => simp only [term?, hrest, hop]
  | some t => simp only [term?, hrest, hop]

theorem term?_at (h : c.eat? '@' = some c₁) : r.term? line c = r.builtin (r.pos c) c₁ := by
  obtain ⟨hrest, hc⟩ := eat?_rest (by decide) h
  rw [hc]
  simp only [term?, hrest]

theorem term?_backslash (h : c.eat? '\\' = some c₁) :
    r.term? line c = r.lambda line (r.pos c) c₁ := by
  obtain ⟨hrest, hc⟩ := eat?_rest (by decide) h
  rw [hc]
  simp only [term?, hrest]

theorem term?_quote (h : c.eat? '"' = some c₁) : r.term? line c = r.string (r.pos c) c₁ := by
  obtain ⟨hrest, hc⟩ := eat?_rest (by decide) h
  rw [hc]
  simp only [term?, hrest]

theorem term?_plain (ho : c.eat? '(' = none) (ha : c.eat? '@' = none) (hb : c.eat? '\\' = none)
    (hq : c.eat? '"' = none) : r.term? line c = r.plain c := by
  obtain ⟨rest, o⟩ := c
  cases rest with
  | nil => rfl
  | cons d rest =>
    simp only [Cursor.eat?, ite_eq_right_iff, reduceCtorEq, imp_false] at ho ha hb hq
    simp [term?, ho, ha, hb, hq]

/-- A parenthesis that opens is never passed over. -/
theorem group_ne_none : r.group line c ≠ .ok none := by
  intro h
  simp only [group, Parsed.bind_eq_ok] at h
  obtain ⟨_, _, _, _, h⟩ := h
  cases h

/-- Nor is a backslash. -/
theorem lambda_ne_none {start : Pos} : r.lambda line start c ≠ .ok none := by
  intro h
  simp only [lambda] at h
  split at h
  · simp only [Parsed.bind_eq_ok] at h
    obtain ⟨_, _, h⟩ := h
    cases h
  · split at h
    · cases h
    · simp only [Parsed.bind_eq_ok] at h
      obtain ⟨_, _, _, _, _, _, h⟩ := h
      cases h

end Reading

/-! ## 3. Readers move on -/

/-- The reader stops behind what it has read. -/
def LineReader.Advances (line : LineReader) : Prop :=
  ∀ c x c', line c = .ok (x, c') → ∃ read, c.Past read c'

/-- The reader stops behind any spaces. -/
def LineReader.Trims (line : LineReader) : Prop :=
  ∀ c x c', line c = .ok (x, c') → c'.skipSpaces = c'

/-- The reader stops behind what it has read, which is something if it is a term. -/
def TermReader.Advances (term : TermReader) : Prop :=
  ∀ c e c', term c = .ok (some (e, c')) → ∃ read, read ≠ [] ∧ c.Past read c'

namespace Reading

variable {r : Reading} {line : LineReader} {term : TermReader} {c c' : Cursor} {e : Expr}

theorem group_past (hline : LineReader.Advances line) (h : r.group line c = .ok (some (e, c'))) :
    ∃ read, c.Past read c' := by
  simp only [group, Parsed.bind_eq_ok] at h
  obtain ⟨⟨inner, c₁⟩, hinner, c₂, hclose, h⟩ := h
  cases h
  obtain ⟨read, hread⟩ := hline _ _ _ (lineOr_eq_ok.mp hinner)
  obtain ⟨blanks, hblanks⟩ := c₁.skipSpaces_past
  have hparen := Cursor.eat?_eq_some.mp (punctuation_eq_ok.mp hclose)
  exact ⟨_, hread.trans (hblanks.trans hparen)⟩

theorem param_past (c : Cursor) : ∃ read, c.Past read (param c).2 := by
  unfold param
  split
  · rename_i named h
    obtain ⟨read, _, hread, _⟩ := Cursor.bracketedOperator?_eq_some h
    exact ⟨read, hread⟩
  · cases h : c.word? with
    | none => exact ⟨[], .refl c⟩
    | some t => exact ⟨_, (Cursor.run?_eq_some h).1⟩

theorem lambda_past {start : Pos} (hline : LineReader.Advances line)
    (h : r.lambda line start c = .ok (some (e, c'))) : ∃ read, c.Past read c' := by
  obtain ⟨blanks, hblanks⟩ := c.skipSpaces_past
  obtain ⟨name, hname⟩ := param_past c.skipSpaces
  obtain ⟨blanks', hblanks'⟩ := (param c.skipSpaces).2.skipSpaces_past
  have hhead := hblanks.trans (hname.trans hblanks')
  simp only [lambda] at h
  split at h
  · rename_i c₁ hdot
    simp only [Parsed.bind_eq_ok] at h
    obtain ⟨⟨body, c₂⟩, hbody, h⟩ := h
    cases h
    obtain ⟨read, hread⟩ := hline _ _ _ (lineOr_eq_ok.mp hbody)
    exact ⟨_, hhead.trans ((Cursor.eat?_eq_some.mp hdot).trans hread)⟩
  · split at h
    · cases h
    · rename_i op c₁ hop
      simp only [Parsed.bind_eq_ok] at h
      obtain ⟨⟨value, c₂⟩, hvalue, c₃, hsemi, ⟨body, c₄⟩, hbody, h⟩ := h
      cases h
      obtain ⟨read, hread⟩ := hline _ _ _ (lineOr_eq_ok.mp hvalue)
      obtain ⟨blanks'', hblanks''⟩ := c₂.skipSpaces_past
      have hsemi := Cursor.eat?_eq_some.mp (punctuation_eq_ok.mp hsemi)
      obtain ⟨read', hread'⟩ := hline _ _ _ (lineOr_eq_ok.mp hbody)
      exact ⟨_, hhead.trans ((Cursor.run?_eq_some hop).1.trans (hread.trans
        (hblanks''.trans (hsemi.trans hread'))))⟩

theorem builtin_past {start : Pos} (h : r.builtin start c = .ok (some (e, c'))) :
    ∃ read, c.Past read c' := by
  simp only [builtin] at h
  split at h
  · rename_i name c₁ hname
    cases h
    exact ⟨_, (Cursor.run?_eq_some hname).1⟩
  · cases h

theorem string_past {start : Pos} (h : r.string start c = .ok (some (e, c'))) :
    ∃ read, c.Past read c' := by
  simp only [string] at h
  split at h
  · rename_i body c₁ hbody
    cases h
    exact ⟨_, (Cursor.stringBody_eq_ok hbody).2⟩
  · cases h

theorem plain_past (h : r.plain c = .ok (some (e, c'))) :
    ∃ read, read ≠ [] ∧ c.Past read c' := by
  simp only [plain] at h
  split at h
  · rename_i numeral c₁ hnum
    obtain ⟨hpast, hne⟩ := Cursor.numeral?_eq_some hnum
    split at h
    · cases h
      exact ⟨_, hne, hpast⟩
    · cases h
  · cases hw : c.word? with
    | none =>
      rw [hw] at h
      cases h
    | some t =>
      rw [hw] at h
      cases h
      obtain ⟨hpast, hne, _⟩ := Cursor.run?_eq_some hw
      exact ⟨_, hne, hpast⟩

/-- **A term takes at least one character.** -/
theorem term?_advances (hline : LineReader.Advances line) :
    TermReader.Advances (r.term? line) := by
  intro c e c' h
  -- a form that begins with a character of its own takes that character
  have behind {ch : Char} {c₁ : Cursor} (heat : c.eat? ch = some c₁)
      (hpast : ∃ read, c₁.Past read c') : ∃ read, read ≠ [] ∧ c.Past read c' := by
    obtain ⟨read, hread⟩ := hpast
    exact ⟨_, by simp, (Cursor.eat?_eq_some.mp heat).trans hread⟩
  cases ho : c.eat? '(' with
  | some c₁ =>
    rw [term?_open ho] at h
    split at h
    · rename_i op c₂ hop
      cases h
      obtain ⟨read, hne, hpast, _⟩ := Cursor.bracketedOperator?_eq_some hop
      exact ⟨read, hne, hpast⟩
    · exact behind ho (group_past hline h)
  | none =>
  cases ha : c.eat? '@' with
  | some c₁ =>
    rw [term?_at ha] at h
    exact behind ha (builtin_past h)
  | none =>
  cases hb : c.eat? '\\' with
  | some c₁ =>
    rw [term?_backslash hb] at h
    exact behind hb (lambda_past hline h)
  | none =>
  cases hq : c.eat? '"' with
  | some c₁ =>
    rw [term?_quote hq] at h
    exact behind hq (string_past h)
  | none =>
    rw [term?_plain ho ha hb hq] at h
    exact plain_past h

theorem jointAt_past (c : Cursor) : ∃ read, c.Past read (r.jointAt c).2 := by
  unfold jointAt
  split
  · rename_i name c₁ hop
    exact ⟨_, (Cursor.run?_eq_some hop).1⟩
  · exact ⟨[], .refl c⟩

/-- Where an operand begins, behind blanks and an operator. -/
theorem operand_past (c : Cursor) : ∃ read, c.Past read (r.jointAt c.skipSpaces).2.skipSpaces := by
  obtain ⟨blanks, hblanks⟩ := c.skipSpaces_past
  obtain ⟨op, hop⟩ := r.jointAt_past c.skipSpaces
  obtain ⟨blanks', hblanks'⟩ := (r.jointAt c.skipSpaces).2.skipSpaces_past
  exact ⟨_, hblanks.trans (hop.trans hblanks')⟩

theorem operands_past (hterm : TermReader.Advances term) {chars : List Char}
    {done ops : List (Joint × Expr)} (h : r.operands term chars done c = .ok (ops, c')) :
    ∃ read, c.Past read c' := by
  induction chars generalizing done c with
  | nil =>
    cases h
    exact ⟨[], .refl _⟩
  | cons _ chars ih =>
    obtain ⟨read, hread⟩ := r.operand_past c
    simp only [operands] at h
    split at h
    · cases h
    · rename_i operand c₁ ht
      obtain ⟨read₁, _, hread₁⟩ := hterm _ _ _ ht
      obtain ⟨read₂, hread₂⟩ := ih h
      exact ⟨_, hread.trans (hread₁.trans hread₂)⟩
    · split at h <;> cases h
      exact ⟨read, hread⟩

theorem flatLine_past (hterm : TermReader.Advances term) {l : Line}
    (h : r.flatLine term c = .ok (l, c')) : ∃ read, c.Past read c' := by
  simp only [flatLine, Parsed.bind_eq_ok] at h
  obtain ⟨first, hfirst, ⟨ops, c₁⟩, hops, h⟩ := h
  cases h
  obtain ⟨blanks, hblanks⟩ := c.skipSpaces_past
  obtain ⟨read, hread⟩ := operands_past hterm hops
  cases first with
  | none => exact ⟨_, hblanks.trans hread⟩
  | some t =>
    obtain ⟨read₁, _, hread₁⟩ := hterm _ _ _ hfirst
    exact ⟨_, hblanks.trans (hread₁.trans hread)⟩

/-- **A line stops behind what it has read.** -/
theorem line_advances (r : Reading) : ∀ levels, LineReader.Advances (r.line levels)
  | 0, c, x, c', h => by cases h
  | levels + 1, c, x, c', h => by
      simp only [line, Parsed.bind_eq_ok] at h
      obtain ⟨⟨l, c₁⟩, hl, h⟩ := h
      cases h
      exact flatLine_past (term?_advances (r.line_advances levels)) hl

/-! ## 4. The operands of a line -/

/-- No term begins at the end of the text. -/
def Idle (term : TermReader) : Prop := ∀ o, term ⟨[], o⟩ = .ok none

theorem term?_idle : Idle (r.term? line) := fun o => by
  simp [term?, plain, Cursor.numeral?, Cursor.sign, Cursor.span, Cursor.word?, Cursor.run?]

theorem operands_end (hidle : Idle term) (chars : List Char) (done : List (Joint × Expr)) (o : Int) :
    r.operands term chars done ⟨[], o⟩ = .ok (done.reverse, ⟨[], o⟩) := by
  cases chars with
  | nil => rfl
  | cons a chars =>
    simp [operands, jointAt, Cursor.skipSpaces, Cursor.span, Cursor.operator?, Cursor.run?, hidle o]

/-- Any two counts that are enough give the same operands. -/
theorem operands_count (hterm : TermReader.Advances term) (hidle : Idle term)
    {chars chars' : List Char} {done : List (Joint × Expr)} (h : c.rest.length ≤ chars.length)
    (h' : c.rest.length ≤ chars'.length) :
    r.operands term chars done c = r.operands term chars' done c := by
  induction chars generalizing chars' done c with
  | nil =>
    obtain ⟨rest, o⟩ := c
    obtain rfl : rest = [] := List.length_eq_zero_iff.mp (Nat.le_zero.mp h)
    rw [operands_end hidle, operands_end hidle]
  | cons a chars ih =>
    cases chars' with
    | nil =>
      obtain ⟨rest, o⟩ := c
      obtain rfl : rest = [] := List.length_eq_zero_iff.mp (Nat.le_zero.mp h')
      rw [operands_end hidle, operands_end hidle]
    | cons b chars' =>
      obtain ⟨read, hread⟩ := r.operand_past c
      simp only [operands]
      cases ht : term (r.jointAt c.skipSpaces).2.skipSpaces with
      | error fault => rfl
      | ok t =>
        cases t with
        | none => rfl
        | some t =>
          obtain ⟨operand, c₁⟩ := t
          obtain ⟨read₁, hne, hread₁⟩ := hterm _ _ _ ht
          have hlt := (hread.trans hread₁).length_lt (by simp [hne])
          simp only [List.length_cons] at h h'
          exact ih (by omega) (by omega)

/-- **The operands of a line one after another.** -/
theorem operands_eq (hterm : TermReader.Advances term) (hidle : Idle term)
    {chars : List Char} {done : List (Joint × Expr)} (h : c.rest.length ≤ chars.length) :
    r.operands term chars done c =
      match term (r.jointAt c.skipSpaces).2.skipSpaces with
      | .error fault => .error fault
      | .ok (some (operand, c')) =>
        r.operands term c'.rest (((r.jointAt c.skipSpaces).1, operand) :: done) c'
      | .ok none =>
        match (r.jointAt c.skipSpaces).1 with
        | .sideBySide => .ok (done.reverse, (r.jointAt c.skipSpaces).2.skipSpaces)
        | .operator .. => r.missing (r.jointAt c.skipSpaces).2.skipSpaces .operand := by
  obtain ⟨read, hread⟩ := r.operand_past c
  have hmore : c.rest.length ≤ (' ' :: chars).length := Nat.le_succ_of_le h
  rw [operands_count hterm hidle h hmore]
  simp only [operands]
  cases ht : term (r.jointAt c.skipSpaces).2.skipSpaces with
  | error fault => rfl
  | ok t =>
    cases t with
    | none => rfl
    | some t =>
      obtain ⟨read₁, hne, hread₁⟩ := hterm _ _ _ ht
      have hlt := (hread.trans hread₁).length_lt (by simp [hne])
      exact operands_count hterm hidle (by omega) (Nat.le_refl _)

/-- Operands are read up to something that is no space. -/
theorem operands_skipSpaces {term : TermReader} (hadv : TermReader.Advances term) (hidle : Idle term)
    {done ops : List (Joint × Expr)} (h : r.operands term c.rest done c = .ok (ops, c')) :
    c'.skipSpaces = c' := by
  obtain ⟨bound, hbound⟩ : ∃ bound, c.rest.length < bound := ⟨_, Nat.lt_succ_self _⟩
  induction bound generalizing c done with
  | zero => omega
  | succ bound ih =>
    obtain ⟨read, hread⟩ := r.operand_past c
    rw [operands_eq hadv hidle (Nat.le_refl _)] at h
    split at h
    · cases h
    · rename_i operand c₁ hterm
      obtain ⟨read₁, hne, hread₁⟩ := hadv _ _ _ hterm
      have hlt := (hread.trans hread₁).length_lt (by simp [hne])
      exact ih h (by omega)
    · split at h
      · cases h
        exact Cursor.skipSpaces_skipSpaces _
      · cases h

/-- So are lines. -/
theorem line_skipSpaces {n : Nat} {x : Option Expr} (h : r.line n c = .ok (x, c')) :
    c'.skipSpaces = c' := by
  cases n with
  | zero => cases h
  | succ n =>
    simp only [line, flatLine, Parsed.bind_eq_ok] at h
    obtain ⟨⟨l, c₁⟩, ⟨first, _, ⟨ops, c₂⟩, hops, h₁⟩, h⟩ := h
    cases h₁
    cases h
    exact operands_skipSpaces (term?_advances (r.line_advances n)) term?_idle hops

theorem line_trims (r : Reading) (n : Nat) : LineReader.Trims (r.line n) :=
  fun _ _ _ => line_skipSpaces

/-! ## 5. Programs -/

theorem whole_eq_ok : r.whole c = .ok e ↔
    ∃ c', r.line r.limit c = .ok (some e, c') ∧ c'.skipSpaces.rest = [] := by
  rw [whole, Parsed.bind_eq_ok]
  constructor
  · rintro ⟨⟨program, c'⟩, hline, h⟩
    dsimp only at h
    split at h
    · cases h
    · cases h
    · rename_i hrest
      cases h
      exact ⟨c', hline, hrest⟩
  · rintro ⟨c', hline, hrest⟩
    refine ⟨_, hline, ?_⟩
    simp only [hrest]
    rfl

end Reading

/-- Without definitions, a program is read as it is. -/
theorem parse_nil (source : Source) (depth : Nat) :
    parse source [] depth = (⟨source, depth⟩ : Reading).whole ⟨blankText source.chars, 0⟩ := by
  simp [parse, prepare, opening, closing, Prepared.text, Prepared.offset, blankText]

/-- With definitions, it is read if it is balanced. -/
theorem parse_cons (source : Source) (d : Definition) (ds : List Definition) (depth : Nat) :
    parse source (d :: ds) depth =
      (⟨source, depth⟩ : Reading).balanced (blankText source.chars) >>= fun _ =>
        (⟨source, depth⟩ : Reading).whole ⟨(prepare source.chars (d :: ds)).text,
          -((prepare source.chars (d :: ds)).offset : Int)⟩ :=
  rfl

end CallByNeed
