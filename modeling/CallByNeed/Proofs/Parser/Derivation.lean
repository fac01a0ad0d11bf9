/-
  File:      CallByNeed/Proofs/Parser/Derivation.lean
  Subject:   The grammar, apart from any reader.

      line   := operator? term (operator? term)*
      term   := '(' operator ')' | '(' line ')' | '@' word | lambda | numeral | string | word
      lambda := '\' param? '.' line
              | '\' param? operator line ';' line

  A derivation is a tree, and `Derives` says which text it derives and which text it leaves. Spaces
  may stand between tokens; a token of an alphabet goes on as long as it can. A line may end where
  the grammar says `stops`: anywhere, or only where no operand can follow. Where it may end anywhere
  the grammar does not say how far the body of a lambda goes: `\x.a b` is a lambda and its argument,
  or a lambda with a longer body. The tokens are the same (`Derives.extended`).

  * `Derivation`, `Derives` -- derivations, and what they derive; `Derivation.tree`: what they
    stand for;
  * `Derives.form` -- how a term begins settles its form;
  * `Derives.unique` -- lines that go on as long as they can are derived in one way;
  * `Derives.extended` -- every derivation can be made one of these;
  * `Derives.depth_le` -- no text is deeper than it is long.
-/
import CallByNeed.Proofs.Parser.Written

namespace CallByNeed

/-! ## 1. Tokens -/

/-- The text behind the spaces in front of it. -/
def dropSpaces (s : List Char) : List Char := s.dropWhile (· == ' ')

/-- `x` is the longest run of an alphabet at the head of `s`, and `s'` is left. -/
structure Longest (p : Char → Bool) (x : String) (s s' : List Char) : Prop where
  run : s.takeWhile p = x.toList
  rest : s.dropWhile p = s'
  some : x.toList ≠ []

/-- An operator in parentheses. -/
def Bracketed (op : String) (s s' : List Char) : Prop :=
  ∃ s₁ s₂, s = '(' :: s₁ ∧ Longest isOperatorChar op (dropSpaces s₁) s₂ ∧ dropSpaces s₂ = ')' :: s'

/-- What may stand in front of the digits of a number. -/
def IsSign (sign : List Char) : Prop := sign = [] ∨ sign = ['+'] ∨ sign = ['-']

/-- Whether a text begins with a sign that a digit follows. -/
def signed : List Char → Bool
  | a :: b :: _ => (a == '+' || a == '-') && b.isDigit
  | _ => false

/-- What is written for the parameter of a lambda. -/
inductive Param where
  | absent
  | word (x : String)
  | operator (op : String)

/-- A parameter at the head of a text. -/
inductive Param.At : Param → List Char → List Char → Prop where
  | absent (s : List Char) : Param.At .absent s s
  | word {x : String} {s s' : List Char} (h : Longest isNameChar x s s') : Param.At (.word x) s s'
  | operator {op : String} {s s' : List Char} (h : Bracketed op s s') :
      Param.At (.operator op) s s'

/-- What a line begins with. A sign that a digit follows belongs to the number. -/
inductive LeadAt : Option String → List Char → List Char → Prop where
  | none (s : List Char) : LeadAt none s s
  | operator {op : String} {s s' : List Char} (h : Longest isOperatorChar op s s')
      (hs : signed s = false) : LeadAt (some op) s s'

/-- What stands between two operands. There is no operator only where none can be read. -/
inductive JointAt : Option String → List Char → List Char → Prop where
  | none {s : List Char} (h : ∀ ch ∈ s.head?, isOperatorChar ch = false) : JointAt none s s
  | operator {op : String} {s s' : List Char} (h : Longest isOperatorChar op s s') :
      JointAt (some op) s s'

/-! ## 2. Derivations -/

/-- What a derivation is one of; `operands` are the further ones of a line. -/
inductive Nonterminal where
  | term
  | line
  | operands

/-- A derivation. -/
inductive Derivation : Nonterminal → Type where
  | operator (op : String) : Derivation .term
  | group (inner : Derivation .line) : Derivation .term
  | builtin (x : String) : Derivation .term
  | lambda (param : Param) (body : Derivation .line) : Derivation .term
  | binding (param : Param) (op : String) (value body : Derivation .line) : Derivation .term
  | number (sign : List Char) (digits : String) : Derivation .term
  | string (body : List Char) : Derivation .term
  | name (x : String) : Derivation .term
  | line (lead : Option String) (first : Derivation .term) (further : Derivation .operands) :
      Derivation .line
  | done : Derivation .operands
  | operand (op : Option String) (term : Derivation .term) (more : Derivation .operands) :
      Derivation .operands

/-- `t` derives `s` up to `s'`, if a line may end in front of the texts that `stops` names. -/
inductive Derives (stops : List Char → Prop) :
    {k : Nonterminal} → Derivation k → List Char → List Char → Prop where
  | operator {op : String} {s s' : List Char} (h : Bracketed op s s') :
      Derives stops (.operator op) s s'
  | group {inner : Derivation .line} {s s₁ s₂ s' : List Char} (hopen : s = '(' :: s₁)
      (hinner : Derives stops inner s₁ s₂) (hclose : dropSpaces s₂ = ')' :: s') :
      Derives stops (.group inner) s s'
  | builtin {x : String} {s s₁ s' : List Char} (hat : s = '@' :: s₁)
      (hname : Longest isNameChar x s₁ s') : Derives stops (.builtin x) s s'
  | lambda {param : Param} {body : Derivation .line} {s s₁ s₂ s₃ s' : List Char}
      (hslash : s = '\\' :: s₁) (hparam : param.At (dropSpaces s₁) s₂)
      (hdot : dropSpaces s₂ = '.' :: s₃) (hbody : Derives stops body s₃ s') :
      Derives stops (.lambda param body) s s'
  | binding {param : Param} {op : String} {value body : Derivation .line}
      {s s₁ s₂ s₃ s₄ s₅ s' : List Char} (hslash : s = '\\' :: s₁)
      (hparam : param.At (dropSpaces s₁) s₂) (hop : Longest isOperatorChar op (dropSpaces s₂) s₃)
      (hvalue : Derives stops value s₃ s₄) (hsemi : dropSpaces s₄ = ';' :: s₅)
      (hbody : Derives stops body s₅ s') : Derives stops (.binding param op value body) s s'
  | number {sign : List Char} {digits : String} {s s₁ s' : List Char} (hs : s = sign ++ s₁)
      (hsign : IsSign sign) (hdigits : Longest Char.isDigit digits s₁ s')
      (hfits : fitsWord (numeralValue (sign ++ digits.toList)) = true) :
      Derives stops (.number sign digits) s s'
  | string {body : List Char} {s s' : List Char} (hs : s = '"' :: (body ++ '"' :: s'))
      (hbody : StringText body) : Derives stops (.string body) s s'
  | name {x : String} {s s' : List Char} (hname : Longest isNameChar x s s')
      (hdigit : ∀ ch ∈ s.head?, ch.isDigit = false) : Derives stops (.name x) s s'
  | line {lead : Option String} {first : Derivation .term} {further : Derivation .operands}
      {s s₁ s₂ s' : List Char} (hlead : LeadAt lead (dropSpaces s) s₁)
      (hfirst : Derives stops first (dropSpaces s₁) s₂) (hfurther : Derives stops further s₂ s') :
      Derives stops (.line lead first further) s s'
  /-- The spaces behind a line are passed over. -/
  | done {s : List Char} (h : stops (dropSpaces s)) : Derives stops .done s (dropSpaces s)
  | operand {op : Option String} {term : Derivation .term} {more : Derivation .operands}
      {s s₁ s₂ s' : List Char} (hop : JointAt op (dropSpaces s) s₁)
      (hterm : Derives stops term (dropSpaces s₁) s₂) (hmore : Derives stops more s₂ s') :
      Derives stops (.operand op term more) s s'

/-- A token of a derivation. -/
inductive Token where
  | mark (ch : Char)
  | operator (op : String)
  | word (x : String)
  | builtin (x : String)
  | numeral (text : List Char)
  | string (body : List Char)

/-- The tokens of a parameter. -/
def Param.tokens : Param → List Token
  | .absent => []
  | .word x => [.word x]
  | .operator op => [.mark '(', .operator op, .mark ')']

/-- The tokens that a derivation is made of, in their order. -/
def Derivation.tokens : {k : Nonterminal} → Derivation k → List Token
  | _, .operator op => [.mark '(', .operator op, .mark ')']
  | _, .group inner => .mark '(' :: (inner.tokens ++ [.mark ')'])
  | _, .builtin x => [.builtin x]
  | _, .lambda param body => .mark '\\' :: (param.tokens ++ .mark '.' :: body.tokens)
  | _, .binding param op value body =>
    .mark '\\' :: (param.tokens ++ .operator op :: (value.tokens ++ .mark ';' :: body.tokens))
  | _, .number sign digits => [.numeral (sign ++ digits.toList)]
  | _, .string body => [.string body]
  | _, .name x => [.word x]
  | _, .line lead first further =>
    lead.toList.map .operator ++ (first.tokens ++ further.tokens)
  | _, .done => []
  | _, .operand op term more => op.toList.map .operator ++ (term.tokens ++ more.tokens)

/-- How deep the lines of a derivation stand inside each other. -/
def Derivation.depth : {k : Nonterminal} → Derivation k → Nat
  | _, .group inner => inner.depth
  | _, .lambda _ body => body.depth
  | _, .binding _ _ value body => max value.depth body.depth
  | _, .line _ first further => max first.depth further.depth + 1
  | _, .operand _ term more => max term.depth more.depth
  | _, .operator _ | _, .builtin _ | _, .number _ _ | _, .string _ | _, .name _ | _, .done => 0

/-- The name that a parameter binds. -/
def Param.name : Param → String
  | .absent => "_"
  | .word x => x
  | .operator op => op

/-- What stands in front of an operand, at no place in particular. -/
def bareJoint : Option String → Joint
  | none => .sideBySide
  | some op => .operator default op

/-- What is read for a nonterminal. -/
def Nonterminal.Result : Nonterminal → Type
  | .term | .line => Expr
  | .operands => List (Joint × Expr)

/-- The tree that a derivation stands for, at no place in particular. -/
def Derivation.tree : {k : Nonterminal} → Derivation k → k.Result
  | _, .operator op => Expr.name default op
  | _, .group inner => inner.tree
  | _, .builtin x => Expr.builtin default x
  | _, .lambda param body => Expr.lambda default param.name body.tree
  | _, .binding param op value body =>
    Expr.apply default (.apply default (.name default (Operator.flipped op)) value.tree)
      (.lambda default param.name body.tree)
  | _, .number sign digits =>
    Expr.number default (Int64.ofInt (numeralValue (sign ++ digits.toList)))
  | _, .string body => Expr.string default (unescape (String.ofList body))
  | _, .name x => Expr.name default x
  | _, .line none first further => Line.treeFrom [] first.tree further.tree
  | _, .line (some op) first further =>
    Line.treeFrom [⟨none, bareJoint (some op)⟩] first.tree further.tree
  | _, .done => ([] : List (Joint × Expr))
  | _, .operand op term more => ((bareJoint op, term.tree) :: more.tree : List (Joint × Expr))

/-- Where lines stop is all that a grammar of lines can differ in. -/
theorem Derives.imp {P Q : List Char → Prop} (hPQ : ∀ s, P s → Q s) {k : Nonterminal}
    {t : Derivation k} {s s' : List Char} (h : Derives P t s s') : Derives Q t s s' := by
  induction h with
  | operator h => exact .operator h
  | group hopen _ hclose ih => exact .group hopen ih hclose
  | builtin hat hname => exact .builtin hat hname
  | lambda hslash hparam hdot _ ih => exact .lambda hslash hparam hdot ih
  | binding hslash hparam hop _ hsemi _ ihv ihb => exact .binding hslash hparam hop ihv hsemi ihb
  | number hs hsign hdigits hfits => exact .number hs hsign hdigits hfits
  | string hs hbody => exact .string hs hbody
  | name hname hdigit => exact .name hname hdigit
  | line hlead _ _ ihf iho => exact .line hlead ihf iho
  | done h => exact .done (hPQ _ h)
  | operand hop _ _ iht ihm => exact .operand hop iht ihm

/-! ## 3. Tokens are read in one way -/

theorem dropSpaces_head (s : List Char) : ∀ ch ∈ (dropSpaces s).head?, ch ≠ ' ' :=
  (⟨s, 0⟩ : Cursor).skipSpaces_head

@[simp] theorem dropSpaces_dropSpaces (s : List Char) :
    dropSpaces (dropSpaces s) = dropSpaces s :=
  congrArg Cursor.rest (⟨s, 0⟩ : Cursor).skipSpaces_skipSpaces

theorem dropSpaces_cons {ch : Char} (h : ch ≠ ' ') (s : List Char) :
    dropSpaces (ch :: s) = ch :: s :=
  congrArg Cursor.rest (Cursor.skipSpaces_cons h 0)

theorem Longest.unique {p : Char → Bool} {x y : String} {s s₁ s₂ : List Char}
    (h : Longest p x s s₁) (h' : Longest p y s s₂) : x = y ∧ s₁ = s₂ :=
  ⟨String.toList_inj.mp (h.run.symm.trans h'.run), h.rest.symm.trans h'.rest⟩

/-- A run begins with a character of its alphabet. -/
theorem Longest.head {p : Char → Bool} {x : String} {s s' : List Char} (h : Longest p x s s') :
    ∃ ch rest, s = ch :: rest ∧ p ch = true := by
  cases s with
  | nil => exact absurd h.run.symm h.some
  | cons ch rest =>
    cases hp : p ch with
    | true => exact ⟨ch, rest, rfl, hp⟩
    | false =>
      have hrun := h.run
      rw [List.takeWhile_cons, hp] at hrun
      exact absurd hrun.symm h.some

theorem Bracketed.unique {op op' : String} {s s₁ s₂ : List Char} (h : Bracketed op s s₁)
    (h' : Bracketed op' s s₂) : op = op' ∧ s₁ = s₂ := by
  obtain ⟨t, u, rfl, hop, hclose⟩ := h
  obtain ⟨t', u', hopen, hop', hclose'⟩ := h'
  cases hopen
  obtain ⟨rfl, rfl⟩ := hop.unique hop'
  rw [hclose] at hclose'
  cases hclose'
  exact ⟨rfl, rfl⟩

/-- What follows a parameter: a dot or an operator, behind any spaces. -/
def BehindParam (s : List Char) : Prop :=
  ∃ ch rest, dropSpaces s = ch :: rest ∧ (ch = '.' ∨ isOperatorChar ch = true)

/-- A character that follows a parameter begins none. -/
theorem behindParam_head {ch : Char} {s : List Char} (hs : ch ≠ ' ')
    (h : BehindParam (ch :: s)) : isNameChar ch = false ∧ ch ≠ '(' := by
  obtain ⟨d, rest, hd, hafter⟩ := h
  rw [dropSpaces_cons hs] at hd
  cases hd
  rcases hafter with rfl | hop
  · decide
  · exact ⟨(isOperatorChar_spec hop).1, (isOperatorChar_spec hop).2.2.2.1⟩

theorem Param.At.unique {p p' : Param} {s s₁ s₂ : List Char} (h : p.At s s₁) (h' : p'.At s s₂)
    (hb : BehindParam s₁) (hb' : BehindParam s₂) : p = p' ∧ s₁ = s₂ := by
  have hword {x : String} {s' : List Char} (hw : Longest isNameChar x s s') : ¬ BehindParam s := by
    intro hbehind
    obtain ⟨ch, rest, rfl, hname⟩ := hw.head
    rw [(behindParam_head (isNameChar_ne hname (by decide)) hbehind).1] at hname
    cases hname
  have hparen {op : String} {s' : List Char} (hp : Bracketed op s s') : ¬ BehindParam s := by
    intro hbehind
    obtain ⟨t, u, rfl, _⟩ := hp
    exact (behindParam_head (by decide) hbehind).2 rfl
  have hneither {x op : String} {s' s'' : List Char} (hw : Longest isNameChar x s s')
      (hp : Bracketed op s s'') : False := by
    obtain ⟨ch, rest, rfl, hname⟩ := hw.head
    obtain ⟨t, u, ht, _⟩ := hp
    cases ht
    cases hname
  cases h with
  | absent =>
    cases h' with
    | absent => exact ⟨rfl, rfl⟩
    | word hw => exact absurd hb (hword hw)
    | operator hp => exact absurd hb (hparen hp)
  | word hw =>
    cases h' with
    | absent => exact absurd hb' (hword hw)
    | word hw' =>
      obtain ⟨rfl, rfl⟩ := hw.unique hw'
      exact ⟨rfl, rfl⟩
    | operator hp => exact (hneither hw hp).elim
  | operator hp =>
    cases h' with
    | absent => exact absurd hb' (hparen hp)
    | word hw => exact (hneither hw hp).elim
    | operator hp' =>
      obtain ⟨rfl, rfl⟩ := hp.unique hp'
      exact ⟨rfl, rfl⟩

theorem behindParam_dot {s s' : List Char} (h : dropSpaces s = '.' :: s') : BehindParam s :=
  ⟨'.', s', h, .inl rfl⟩

theorem behindParam_operator {op : String} {s s' : List Char}
    (h : Longest isOperatorChar op (dropSpaces s) s') : BehindParam s := by
  obtain ⟨ch, rest, hs, hop⟩ := h.head
  exact ⟨ch, rest, hs, .inr hop⟩

/-- A dot behind a parameter is no operator. -/
theorem Param.At.dot_or_operator {p p' : Param} {op : String} {s s₁ s₂ u v : List Char}
    (h : p.At s s₁) (h' : p'.At s s₂) (hdot : dropSpaces s₁ = '.' :: u)
    (hop : Longest isOperatorChar op (dropSpaces s₂) v) : False := by
  obtain ⟨rfl, rfl⟩ := h.unique h' (behindParam_dot hdot) (behindParam_operator hop)
  obtain ⟨ch, rest, hs, hch⟩ := hop.head
  rw [hdot] at hs
  cases hs
  cases hch

/-- A string ends at the first quote that no backslash takes along. -/
theorem StringText.unique {body body' s s' : List Char} (h : StringText body)
    (h' : StringText body') (heq : body ++ '"' :: s = body' ++ '"' :: s') :
    body = body' ∧ s = s' := by
  have hread := Cursor.stringBody_of_text h 0 s
  rw [heq, Cursor.stringBody_of_text h' 0 s'] at hread
  cases hread
  exact ⟨rfl, rfl⟩

/-- A sign in front of digits is read as it stands. -/
theorem Cursor.sign_of_rest {c : Cursor} {sign s s' : List Char} {digits : String}
    (hsign : IsSign sign) (hd : Longest Char.isDigit digits s s') (hs : c.rest = sign ++ s) :
    c.sign.1 = sign ∧ c.sign.2.rest = s := by
  obtain ⟨ch, rest, rfl, hch⟩ := hd.head
  obtain ⟨cs, o⟩ := c
  simp only at hs
  subst hs
  rcases hsign with rfl | rfl | rfl
  · have hplus : ch ≠ '+' := by rintro rfl; cases hch
    have hminus : ch ≠ '-' := by rintro rfl; cases hch
    simp [Cursor.sign, hplus, hminus]
  · exact ⟨rfl, rfl⟩
  · exact ⟨rfl, rfl⟩

theorem IsSign.unique {sign sign' s s' t t' : List Char} {digits digits' : String}
    (h : IsSign sign) (h' : IsSign sign') (hd : Longest Char.isDigit digits s t)
    (hd' : Longest Char.isDigit digits' s' t') (heq : sign ++ s = sign' ++ s') :
    sign = sign' ∧ s = s' := by
  obtain ⟨hs, hrest⟩ := Cursor.sign_of_rest (c := ⟨sign ++ s, 0⟩) h hd rfl
  obtain ⟨hs', hrest'⟩ := Cursor.sign_of_rest (c := ⟨sign ++ s, 0⟩) h' hd' heq
  exact ⟨hs.symm.trans hs', hrest.symm.trans hrest'⟩

/-! ## 4. How a term begins -/

/-- What a term begins with. -/
inductive Form where
  | paren
  | at
  | backslash
  | quote
  | number
  | name

/-- The form of the term that begins here, if one does. -/
def formOf : List Char → Option Form
  | [] => none
  | ch :: rest =>
    if ch = '(' then some .paren
    else if ch = '@' then some .at
    else if ch = '\\' then some .backslash
    else if ch = '"' then some .quote
    else if ch.isDigit || signed (ch :: rest) then some .number
    else if isNameChar ch then some .name
    else none

/-- The form of a term. -/
def Derivation.form : Derivation .term → Form
  | .operator _ | .group _ => .paren
  | .builtin _ => .at
  | .lambda _ _ | .binding _ _ _ _ => .backslash
  | .number _ _ => .number
  | .string _ => .quote
  | .name _ => .name

theorem formOf_digit {ch : Char} {s : List Char} (h : ch.isDigit = true) :
    formOf (ch :: s) = some .number := by
  have hname := isNameChar_of_isDigit h
  have hne {d : Char} (hd : isNameChar d = false) : ch ≠ d := isNameChar_ne hname hd
  simp [formOf, h, hne (d := '(') (by decide), hne (d := '@') (by decide),
    hne (d := '\\') (by decide), hne (d := '"') (by decide)]

theorem formOf_signed {ch : Char} {s : List Char} (h : signed (ch :: s) = true) :
    formOf (ch :: s) = some .number := by
  have hsign : ch = '+' ∨ ch = '-' := by
    cases s with
    | nil => cases h
    | cons d s =>
      simp only [signed, Bool.and_eq_true, Bool.or_eq_true, beq_iff_eq] at h
      exact h.1
  rcases hsign with rfl | rfl <;> simp [formOf, h]

/-- Where no term begins there is no sign in front of a digit. -/
theorem signed_of_formOf {s : List Char} (h : formOf s = none) : signed s = false := by
  cases s with
  | nil => rfl
  | cons ch s =>
    cases hsigned : signed (ch :: s) with
    | false => rfl
    | true =>
      rw [formOf_signed hsigned] at h
      cases h

theorem formOf_name {ch : Char} {s : List Char} (h : isNameChar ch = true)
    (hd : ch.isDigit = false) : formOf (ch :: s) = some .name := by
  have hne {d : Char} (hd : isNameChar d = false) : ch ≠ d := isNameChar_ne h hd
  have hsigned : signed (ch :: s) = false := by
    cases s with
    | nil => rfl
    | cons d s => simp [signed, hne (d := '+') (by decide), hne (d := '-') (by decide)]
  simp [formOf, h, hd, hsigned, hne (d := '(') (by decide), hne (d := '@') (by decide),
    hne (d := '\\') (by decide), hne (d := '"') (by decide)]

/-- Where an operator begins no term does, unless it is the sign of a number. -/
theorem formOf_operator {op : String} {s s' : List Char} (h : Longest isOperatorChar op s s')
    (hs : signed s = false) : formOf s = none := by
  obtain ⟨ch, rest, rfl, hch⟩ := h.head
  obtain ⟨hname, hdigit, _, hopen, _, hquote, _⟩ := isOperatorChar_spec hch
  have hother : ch ≠ '@' ∧ ch ≠ '\\' := by
    constructor <;>
    · intro he
      subst he
      cases hch
  simp [formOf, hs, hname, hdigit, hopen, hquote, hother]

/-- An operator is no sign if no digit follows it. -/
theorem signed_of_operator {op : String} {s s' : List Char} (h : Longest isOperatorChar op s s')
    (hs : ∀ ch ∈ s'.head?, ch.isDigit = false) : signed s = false := by
  obtain ⟨ch, rest, rfl, hch⟩ := h.head
  cases rest with
  | nil => rfl
  | cons d rest =>
    have hd : d.isDigit = false := by
      cases hop : isOperatorChar d with
      | true => exact (isOperatorChar_spec hop).2.1
      | false =>
        have hrest := h.rest
        simp only [List.dropWhile_cons, hch, hop, if_true] at hrest
        subst hrest
        exact hs d rfl
    simp [signed, hd]

/-- **How a term begins settles its form.** -/
theorem Derives.form {stops : List Char → Prop} {t : Derivation .term} {s s' : List Char}
    (h : Derives stops t s s') : formOf s = some t.form := by
  cases h with
  | operator h =>
    obtain ⟨s₁, s₂, rfl, _⟩ := h
    rfl
  | group hopen =>
    subst hopen
    rfl
  | builtin hat =>
    subst hat
    rfl
  | lambda hslash =>
    subst hslash
    rfl
  | binding hslash =>
    subst hslash
    rfl
  | string hs =>
    subst hs
    rfl
  | name hname hdigit =>
    obtain ⟨ch, rest, rfl, hch⟩ := hname.head
    exact formOf_name hch (hdigit ch rfl)
  | number hs hsign hdigits =>
    subst hs
    obtain ⟨ch, rest, rfl, hch⟩ := hdigits.head
    rcases hsign with rfl | rfl | rfl
    · exact formOf_digit hch
    · exact formOf_signed (by simp [signed, hch])
    · exact formOf_signed (by simp [signed, hch])

/-- No operand begins here: neither an operator nor a term. -/
def NoOperand (s : List Char) : Prop :=
  formOf s = none ∧ ∀ ch ∈ s.head?, isOperatorChar ch = false

theorem noOperand_nil : NoOperand [] := ⟨rfl, by simp⟩

theorem noOperand_close (s : List Char) : NoOperand (')' :: s) := by
  refine ⟨?_, by simp; decide⟩
  cases s <;> rfl

theorem noOperand_semicolon (s : List Char) : NoOperand (';' :: s) := by
  refine ⟨?_, by simp; decide⟩
  cases s <;> rfl

/-! ## 5. Lines that go on as long as they can -/

/-- An operator with nothing but a closing parenthesis behind it begins no line. -/
theorem Derives.not_bracketed {stops : List Char → Prop} {l : Derivation .line} {op : String}
    {s s₁ s₂ s' : List Char} (h : Derives stops l s s')
    (hop : Longest isOperatorChar op (dropSpaces s) s₁) (hclose : dropSpaces s₁ = ')' :: s₂) :
    False := by
  cases h with
  | line hlead hfirst hfurther =>
    have hform := hfirst.form
    cases hlead with
    | operator hop' hs =>
      obtain ⟨rfl, rfl⟩ := hop.unique hop'
      rw [hclose, (noOperand_close s₂).1] at hform
      cases hform
    | none =>
      have hdigit : ∀ ch ∈ s₁.head?, ch.isDigit = false := by
        cases s₁ with
        | nil => simp
        | cons d s₁ =>
          by_cases hd : d = ' '
          · subst hd
            simp
          · rw [dropSpaces_cons hd] at hclose
            cases hclose
            simp
      rw [dropSpaces_dropSpaces, formOf_operator hop (signed_of_operator hop hdigit)] at hform
      cases hform

/-- An operator in parentheses is no line in parentheses. -/
theorem Bracketed.not_group {stops : List Char → Prop} {l : Derivation .line} {op : String}
    {s s₁ s₂ s' : List Char} (h : Bracketed op s s') (hopen : s = '(' :: s₁)
    (hl : Derives stops l s₁ s₂) : False := by
  obtain ⟨t, u, hopen', hop, hclose⟩ := h
  rw [hopen] at hopen'
  cases hopen'
  exact hl.not_bracketed hop hclose

/-- A line begins in one way: a sign with its number is no operator. -/
theorem LeadAt.unique {stops : List Char → Prop} {lead lead' : Option String}
    {t t' : Derivation .term} {s s₁ s₂ u u' : List Char} (h : LeadAt lead (dropSpaces s) s₁)
    (h' : LeadAt lead' (dropSpaces s) s₂) (ht : Derives stops t (dropSpaces s₁) u)
    (ht' : Derives stops t' (dropSpaces s₂) u') : lead = lead' ∧ s₁ = s₂ := by
  -- a term cannot begin where an operator does
  have hnone {op : String} {s' v : List Char} {w : Derivation .term}
      (hop : Longest isOperatorChar op (dropSpaces s) s') (hs : signed (dropSpaces s) = false)
      (hw : Derives stops w (dropSpaces (dropSpaces s)) v) : False := by
    have hform := hw.form
    rw [dropSpaces_dropSpaces, formOf_operator hop hs] at hform
    cases hform
  cases h with
  | none =>
    cases h' with
    | none => exact ⟨rfl, rfl⟩
    | operator hop hs => exact (hnone hop hs ht).elim
  | operator hop hs =>
    cases h' with
    | none => exact (hnone hop hs ht').elim
    | operator hop' =>
      obtain ⟨rfl, rfl⟩ := hop.unique hop'
      exact ⟨rfl, rfl⟩

theorem JointAt.unique {op op' : Option String} {s s₁ s₂ : List Char} (h : JointAt op s s₁)
    (h' : JointAt op' s s₂) : op = op' ∧ s₁ = s₂ := by
  have hnone {x : String} {s' : List Char} (hs : ∀ ch ∈ s.head?, isOperatorChar ch = false)
      (hop : Longest isOperatorChar x s s') : False := by
    obtain ⟨ch, rest, rfl, hchar⟩ := hop.head
    rw [hs ch rfl] at hchar
    cases hchar
  cases h with
  | none hs =>
    cases h' with
    | none => exact ⟨rfl, rfl⟩
    | operator hop => exact (hnone hs hop).elim
  | operator hop =>
    cases h' with
    | none hs => exact (hnone hs hop).elim
    | operator hop' =>
      obtain ⟨rfl, rfl⟩ := hop.unique hop'
      exact ⟨rfl, rfl⟩

theorem JointAt.of_none {s s' : List Char} (h : JointAt Option.none s s') :
    s' = s ∧ ∀ ch ∈ s.head?, isOperatorChar ch = false := by
  cases h with
  | none h => exact ⟨rfl, h⟩

/-- Where no operand begins there is none. -/
theorem NoOperand.not_operand {stops : List Char → Prop} {op : Option String}
    {t : Derivation .term} {s s₁ s₂ : List Char} (h : NoOperand (dropSpaces s))
    (hop : JointAt op (dropSpaces s) s₁) (ht : Derives stops t (dropSpaces s₁) s₂) : False := by
  cases hop with
  | none =>
    have hform := ht.form
    rw [dropSpaces_dropSpaces, h.1] at hform
    cases hform
  | operator hop =>
    obtain ⟨ch, rest, hs, hchar⟩ := hop.head
    have hnone := h.2 ch (by rw [hs]; rfl)
    rw [hchar] at hnone
    cases hnone

/-- Where no term begins, no operand follows without an operator. -/
theorem Derives.not_sideBySide {stops : List Char → Prop} {t : Derivation .term}
    {more : Derivation .operands} {s s' : List Char}
    (h : Derives stops (.operand none t more) (dropSpaces s) s')
    (hform : formOf (dropSpaces s) = none) : False := by
  cases h with
  | operand hop hterm hmore =>
    have hterm := hterm.form
    rw [hop.of_none.1, dropSpaces_dropSpaces, dropSpaces_dropSpaces, hform] at hterm
    cases hterm

/-- Operands where no term begins are a line that begins with an operator. -/
theorem Derives.line_of_operand {stops : List Char → Prop} {op : Option String}
    {t : Derivation .term} {more : Derivation .operands} {s s' : List Char}
    (h : Derives stops (.operand op t more) (dropSpaces s) s')
    (hform : formOf (dropSpaces s) = none) : Derives stops (.line op t more) s s' := by
  cases h with
  | operand hop hterm hmore =>
    have hop' := hop
    rw [dropSpaces_dropSpaces] at hop
    refine .line ?_ hterm hmore
    cases hop with
    | none => exact (Derives.not_sideBySide (.operand hop' hterm hmore) hform).elim
    | operator hop => exact .operator hop (signed_of_formOf hform)

theorem Derives.form_eq {stops : List Char → Prop} {t u : Derivation .term} {s s₁ s₂ : List Char}
    (h : Derives stops t s s₁) (h' : Derives stops u s s₂) : t.form = u.form :=
  Option.some.inj (h.form.symm.trans h'.form)

/-- **Lines that go on as long as they can are derived in one way.** -/
theorem Derives.unique {k : Nonterminal} {t u : Derivation k} {s s₁ s₂ : List Char}
    (h : Derives NoOperand t s s₁) (h' : Derives NoOperand u s s₂) : t = u ∧ s₁ = s₂ := by
  -- the forms of a term that begin alike are told apart by what follows
  induction h generalizing s₂ with
  | operator hop =>
    have hform := Derives.form_eq (.operator hop) h'
    cases h' with
    | operator hop' =>
      obtain ⟨rfl, rfl⟩ := hop.unique hop'
      exact ⟨rfl, rfl⟩
    | group hopen hinner hclose => exact (hop.not_group hopen hinner).elim
    | _ => cases hform
  | group hopen hinner hclose ih =>
    have hform := Derives.form_eq (.group hopen hinner hclose) h'
    subst hopen
    cases h' with
    | operator hop' => exact (hop'.not_group rfl hinner).elim
    | group hopen' hinner' hclose' =>
      cases hopen'
      obtain ⟨rfl, rfl⟩ := ih hinner'
      rw [hclose] at hclose'
      cases hclose'
      exact ⟨rfl, rfl⟩
    | _ => cases hform
  | builtin hat hname =>
    have hform := Derives.form_eq (.builtin hat hname) h'
    subst hat
    cases h' with
    | builtin hat' hname' =>
      cases hat'
      obtain ⟨rfl, rfl⟩ := hname.unique hname'
      exact ⟨rfl, rfl⟩
    | _ => cases hform
  | lambda hslash hparam hdot hbody ih =>
    have hform := Derives.form_eq (.lambda hslash hparam hdot hbody) h'
    subst hslash
    cases h' with
    | lambda hslash' hparam' hdot' hbody' =>
      cases hslash'
      obtain ⟨rfl, rfl⟩ :=
        hparam.unique hparam' (behindParam_dot hdot) (behindParam_dot hdot')
      rw [hdot] at hdot'
      cases hdot'
      obtain ⟨rfl, rfl⟩ := ih hbody'
      exact ⟨rfl, rfl⟩
    | binding hslash' hparam' hop' hvalue' hsemi' hbody' =>
      cases hslash'
      exact (hparam.dot_or_operator hparam' hdot hop').elim
    | _ => cases hform
  | binding hslash hparam hop hvalue hsemi hbody ihv ihb =>
    have hform := Derives.form_eq (.binding hslash hparam hop hvalue hsemi hbody) h'
    subst hslash
    cases h' with
    | lambda hslash' hparam' hdot' hbody' =>
      cases hslash'
      exact (hparam'.dot_or_operator hparam hdot' hop).elim
    | binding hslash' hparam' hop' hvalue' hsemi' hbody' =>
      cases hslash'
      obtain ⟨rfl, rfl⟩ :=
        hparam.unique hparam' (behindParam_operator hop) (behindParam_operator hop')
      obtain ⟨rfl, rfl⟩ := hop.unique hop'
      obtain ⟨rfl, rfl⟩ := ihv hvalue'
      rw [hsemi] at hsemi'
      cases hsemi'
      obtain ⟨rfl, rfl⟩ := ihb hbody'
      exact ⟨rfl, rfl⟩
    | _ => cases hform
  | number hs hsign hdigits hfits =>
    have hform := Derives.form_eq (.number hs hsign hdigits hfits) h'
    subst hs
    cases h' with
    | number hs' hsign' hdigits' hfits' =>
      obtain ⟨rfl, rfl⟩ := hsign.unique hsign' hdigits hdigits' hs'
      obtain ⟨rfl, rfl⟩ := hdigits.unique hdigits'
      exact ⟨rfl, rfl⟩
    | _ => cases hform
  | string hs hbody =>
    have hform := Derives.form_eq (.string hs hbody) h'
    subst hs
    cases h' with
    | string hs' hbody' =>
      obtain ⟨rfl, rfl⟩ := hbody.unique hbody' (List.cons.inj hs').2
      exact ⟨rfl, rfl⟩
    | _ => cases hform
  | name hname hdigit =>
    have hform := Derives.form_eq (.name hname hdigit) h'
    cases h' with
    | name hname' hdigit' =>
      obtain ⟨rfl, rfl⟩ := hname.unique hname'
      exact ⟨rfl, rfl⟩
    | _ => cases hform
  | line hlead hfirst hfurther ihf iho =>
    cases h' with
    | line hlead' hfirst' hfurther' =>
      obtain ⟨rfl, rfl⟩ := hlead.unique hlead' hfirst hfirst'
      obtain ⟨rfl, rfl⟩ := ihf hfirst'
      obtain ⟨rfl, rfl⟩ := iho hfurther'
      exact ⟨rfl, rfl⟩
  | done h =>
    cases h' with
    | done => exact ⟨rfl, rfl⟩
    | operand hop' hterm' hmore' => exact (h.not_operand hop' hterm').elim
  | operand hop hterm hmore iht ihm =>
    cases h' with
    | done h' => exact (h'.not_operand hop hterm).elim
    | operand hop' hterm' hmore' =>
      obtain ⟨rfl, rfl⟩ := hop.unique hop'
      obtain ⟨rfl, rfl⟩ := iht hterm'
      obtain ⟨rfl, rfl⟩ := ihm hmore'
      exact ⟨rfl, rfl⟩

/-! ## 6. Every derivation can be made one whose lines go on -/

/-- Spaces in front of further operands make no difference. -/
theorem Derives.after_spaces {stops : List Char → Prop} {r : Derivation .operands}
    {s s' : List Char} (h : Derives stops r (dropSpaces s) s') : Derives stops r s s' := by
  cases h with
  | done h =>
    rw [dropSpaces_dropSpaces] at h ⊢
    exact .done h
  | operand hop hterm hmore =>
    rw [dropSpaces_dropSpaces] at hop
    exact .operand hop hterm hmore

/-- A line that goes on as long as it can ends where no operand begins. -/
theorem Derives.noOperand {k : Nonterminal} {t : Derivation k} {s s' : List Char}
    (h : Derives NoOperand t s s') (hk : k ≠ .term) : NoOperand s' ∧ dropSpaces s' = s' := by
  induction h with
  | line _ _ _ _ ih => exact ih (by simp)
  | operand _ _ _ _ ih => exact ih (by simp)
  | done h => exact ⟨h, dropSpaces_dropSpaces _⟩
  | _ => exact absurd rfl hk

/-- Nothing follows where no operand begins. -/
theorem Derives.nothing {s : List Char} (h : NoOperand s) (hs : dropSpaces s = s) :
    Derives NoOperand .done s s := by
  have hdone : Derives NoOperand .done s (dropSpaces s) := .done (by rwa [hs])
  rwa [hs] at hdone

/-- These tokens, from `s` up to `s'`, are derived with lines that go on as long as they can. A term
    may leave operands behind it. -/
def Extended : Nonterminal → List Token → List Char → List Char → Prop
  | .term, tokens, s, s' => ∃ (t : Derivation .term) (r : Derivation .operands) (s₁ : List Char),
      Derives NoOperand t s s₁ ∧ Derives NoOperand r s₁ s' ∧ t.tokens ++ r.tokens = tokens
  | .line, tokens, s, s' => ∃ l : Derivation .line, Derives NoOperand l s s' ∧ l.tokens = tokens
  | .operands, tokens, s, s' =>
    ∃ r : Derivation .operands, Derives NoOperand r s s' ∧ r.tokens = tokens

/-- **Every derivation can be made one whose lines go on as long as they can**: the operands behind
    a lambda become the last ones of its body. The tokens stay the same. -/
theorem Derives.extended {stops : List Char → Prop} {k : Nonterminal} {t : Derivation k}
    {s s' : List Char} (h : Derives stops t s s') {r : Derivation .operands} {s₂ : List Char}
    (hr : Derives NoOperand r s' s₂) : Extended k (t.tokens ++ r.tokens) s s₂ := by
  induction h generalizing r s₂ with
  | operator hop => exact ⟨_, r, _, .operator hop, hr, rfl⟩
  | builtin hat hname => exact ⟨_, r, _, .builtin hat hname, hr, rfl⟩
  | number hs hsign hdigits hfits => exact ⟨_, r, _, .number hs hsign hdigits hfits, hr, rfl⟩
  | string hs hbody => exact ⟨_, r, _, .string hs hbody, hr, rfl⟩
  | name hname hdigit => exact ⟨_, r, _, .name hname hdigit, hr, rfl⟩
  | @group inner s s₁ u s' hopen _ hclose ih =>
    have hdone : Derives NoOperand .done u (dropSpaces u) :=
      .done (by rw [hclose]; exact noOperand_close s')
    obtain ⟨inner', hinner', htokens⟩ := ih hdone
    refine ⟨.group inner', r, s', .group hopen hinner' (by simpa using hclose), hr, ?_⟩
    simp [Derivation.tokens, htokens]
  | @lambda param body s s₁ u v s' hslash hparam hdot _ ih =>
    obtain ⟨body', hbody', htokens⟩ := ih hr
    obtain ⟨hno, hs⟩ := hbody'.noOperand (by simp)
    refine ⟨.lambda param body', .done, s₂, .lambda hslash hparam hdot hbody', .nothing hno hs, ?_⟩
    simp [Derivation.tokens, htokens]
  | @binding param op value body s s₁ u v w x s' hslash hparam hop _ hsemi _ ihv ihb =>
    have hdone : Derives NoOperand .done w (dropSpaces w) :=
      .done (by rw [hsemi]; exact noOperand_semicolon x)
    obtain ⟨value', hvalue', hvtokens⟩ := ihv hdone
    obtain ⟨body', hbody', hbtokens⟩ := ihb hr
    obtain ⟨hno, hs⟩ := hbody'.noOperand (by simp)
    refine ⟨.binding param op value' body', .done, s₂,
      .binding hslash hparam hop hvalue' (by simpa using hsemi) hbody', .nothing hno hs, ?_⟩
    simp [Derivation.tokens, hvtokens, hbtokens]
  | @line lead first further s s₁ u s' hlead _ _ ihf iho =>
    obtain ⟨further', hfurther', hotokens⟩ := iho hr
    obtain ⟨first', rest, v, hfirst', hrest, hftokens⟩ := ihf hfurther'
    refine ⟨.line lead first' rest, .line hlead hfirst' hrest, ?_⟩
    simp [Derivation.tokens, hftokens, hotokens]
  | done => exact ⟨r, hr.after_spaces, rfl⟩
  | @operand op term more s s₁ u s' hop _ _ iht ihm =>
    obtain ⟨more', hmore', hmtokens⟩ := ihm hr
    obtain ⟨term', rest, v, hterm', hrest, httokens⟩ := iht hmore'
    refine ⟨.operand op term' rest, .operand hop hterm' hrest, ?_⟩
    simp [Derivation.tokens, httokens, hmtokens]

/-! ## 7. No text is deeper than it is long -/

theorem dropSpaces_length (s : List Char) : (dropSpaces s).length ≤ s.length :=
  (List.dropWhile_suffix _).length_le

theorem Longest.length_lt {p : Char → Bool} {x : String} {s s' : List Char}
    (h : Longest p x s s') : s'.length < s.length := by
  obtain ⟨ch, rest, rfl, hch⟩ := h.head
  have hrest := h.rest
  rw [List.dropWhile_cons_of_pos hch] at hrest
  have hle := (List.dropWhile_suffix (l := rest) p).length_le
  rw [hrest] at hle
  exact Nat.lt_succ_of_le hle

theorem Bracketed.length_lt {op : String} {s s' : List Char} (h : Bracketed op s s') :
    s'.length < s.length := by
  obtain ⟨s₁, s₂, rfl, hop, hclose⟩ := h
  have hlt := hop.length_lt
  have hle := dropSpaces_length s₁
  have hle' := dropSpaces_length s₂
  simp only [hclose, List.length_cons] at hle' ⊢
  omega

theorem Param.At.length_le {p : Param} {s s' : List Char} (h : p.At s s') :
    s'.length ≤ s.length := by
  cases h with
  | absent => exact Nat.le_refl _
  | word h => exact Nat.le_of_lt h.length_lt
  | operator h => exact Nat.le_of_lt h.length_lt

theorem LeadAt.length_le {op : Option String} {s s' : List Char} (h : LeadAt op s s') :
    s'.length ≤ s.length := by
  cases h with
  | none => exact Nat.le_refl _
  | operator h => exact Nat.le_of_lt h.length_lt

theorem JointAt.length_le {op : Option String} {s s' : List Char} (h : JointAt op s s') :
    s'.length ≤ s.length := by
  cases h with
  | none => exact Nat.le_refl _
  | operator h => exact Nat.le_of_lt h.length_lt

/-- A derivation takes a character for each of its levels, and a term takes one more. -/
theorem Derives.depth_le {stops : List Char → Prop} {k : Nonterminal} {t : Derivation k}
    {s s' : List Char} (h : Derives stops t s s') :
    t.depth + s'.length ≤ s.length ∧ (k = .term → t.depth + s'.length < s.length) := by
  induction h with
  | operator hop =>
    have hlt := hop.length_lt
    simp only [Derivation.depth]
    omega
  | @group _ s s₁ s₂ s' hopen _ hclose ih =>
    have hle := dropSpaces_length s₂
    simp only [hopen, hclose, List.length_cons, Derivation.depth] at hle ⊢
    omega
  | builtin hat hname =>
    have hlt := hname.length_lt
    simp only [hat, List.length_cons, Derivation.depth]
    omega
  | @lambda _ _ s s₁ s₂ s₃ s' hslash hparam hdot _ ih =>
    have hle := dropSpaces_length s₁
    have hle' := dropSpaces_length s₂
    have hlt := hparam.length_le
    simp only [hslash, hdot, List.length_cons, Derivation.depth] at hle' ⊢
    omega
  | @binding _ _ _ _ s s₁ s₂ s₃ s₄ s₅ s' hslash hparam hop _ hsemi _ ihv ihb =>
    have hspaces₁ := dropSpaces_length s₁
    have hspaces₂ := dropSpaces_length s₂
    have hspaces₄ := dropSpaces_length s₄
    have hle := hparam.length_le
    have hlt := hop.length_lt
    simp only [hslash, hsemi, List.length_cons, Derivation.depth] at hspaces₄ ⊢
    omega
  | number hs _ hdigits _ =>
    have hlt := hdigits.length_lt
    simp only [hs, List.length_append, Derivation.depth]
    omega
  | string hs _ =>
    simp only [hs, List.length_append, List.length_cons, Derivation.depth]
    omega
  | name hname _ =>
    have hlt := hname.length_lt
    simp only [Derivation.depth]
    omega
  | @line _ _ _ s s₁ s₂ s' hlead _ _ ihf iho =>
    have hspaces := dropSpaces_length s
    have hspaces₁ := dropSpaces_length s₁
    have hle := hlead.length_le
    have hlt := ihf.2 rfl
    refine ⟨?_, fun hk => by cases hk⟩
    simp only [Derivation.depth]
    omega
  | @done s _ =>
    have hspaces := dropSpaces_length s
    refine ⟨?_, fun hk => by cases hk⟩
    simp only [Derivation.depth]
    omega
  | @operand _ _ _ s s₁ s₂ s' hop _ _ iht ihm =>
    have hspaces := dropSpaces_length s
    have hspaces₁ := dropSpaces_length s₁
    have hle := hop.length_le
    refine ⟨?_, fun hk => by cases hk⟩
    simp only [Derivation.depth]
    omega

end CallByNeed
