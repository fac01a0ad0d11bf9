/-
  File:      CallByNeed/Proofs/Parser/Token.lean
  Subject:   What the tokens at the head of a text read, and what they see of the text behind them.

  * `Spelled` -- texts over an alphabet; the alphabets of words and operators have nothing in common;
  * `TermName`, `ParamName`, `StringText` -- what stands as a name in a term, behind a backslash, and
    between two quotes;
  * `Cursor.Past` -- a cursor behind the text it has read, and each token as such a step;
  * `Cursor.placed` -- a cursor in a larger text: every token reads there what it reads in its own
    text, as long as a closing parenthesis is what follows.
-/
import CallByNeed.Parser.Grammar
import Mathlib.Data.List.TakeWhile

namespace CallByNeed

/-! ## 1. Alphabets -/

/-- A text of at least one character, all of them from an alphabet. -/
def Spelled (p : Char → Bool) (x : String) : Prop :=
  x.toList ≠ [] ∧ ∀ c ∈ x.toList, p c = true

instance (p : Char → Bool) (x : String) : Decidable (Spelled p x) :=
  decidable_of_iff (x.toList ≠ [] ∧ x.toList.all p = true) (and_congr Iff.rfl List.all_eq_true)

/-- What can stand alone as a name: an operator, or a word that is no numeral at its beginning. -/
def TermName (x : String) : Prop :=
  Spelled isOperatorChar x ∨
    (Spelled isNameChar x ∧ ∀ c ∈ x.toList.head?, c.isDigit = false)

/-- What a lambda can bind: an operator or a word. -/
def ParamName (x : String) : Prop := Spelled isOperatorChar x ∨ Spelled isNameChar x

instance (x : String) : Decidable (ParamName x) := inferInstanceAs (Decidable (_ ∨ _))

/-- An operator read from the other side is an operator. -/
theorem Spelled.flipped {op : String} (h : Spelled isOperatorChar op) :
    Spelled isOperatorChar (Operator.flipped op) := by
  have hflip : (operatorAlphabet.all fun d => isOperatorChar (Operator.flipChar d)) = true := by decide
  rw [Operator.flipped, Spelled, String.toList_ofList]
  refine ⟨by simpa using h.1, fun c hc => ?_⟩
  obtain ⟨d, hd, rfl⟩ := List.mem_map.mp hc
  exact List.all_eq_true.mp hflip d (List.contains_iff_mem.mp (h.2 d (List.mem_reverse.mp hd)))

/-- What an operator is spelled with is neither a blank nor a bracket nor part of a word. -/
theorem isOperatorChar_spec {c : Char} (h : isOperatorChar c = true) :
    isNameChar c = false ∧ c.isDigit = false ∧ c ≠ ' ' ∧ c ≠ '(' ∧ c ≠ ')' ∧ c ≠ '"' ∧ c ≠ '.' ∧
      c ≠ '#' ∧ isLayoutChar c = false := by
  have all : (operatorAlphabet.all fun d => !isNameChar d && !d.isDigit && d != ' ' && d != '(' &&
      d != ')' && d != '"' && d != '.' && d != '#' && !isLayoutChar d) = true := by decide
  have hc := List.all_eq_true.mp all c (List.contains_iff_mem.mp h)
  simpa only [Bool.and_eq_true, Bool.not_eq_true', bne_iff_ne, and_assoc] using hc

/-- What a word is spelled with is none of the characters that are something else. -/
theorem isNameChar_ne {c d : Char} (h : isNameChar c = true) (hd : isNameChar d = false) :
    c ≠ d := by
  rintro rfl
  rw [h] at hd
  cases hd

theorem isOperatorChar_of_isNameChar {c : Char} (h : isNameChar c = true) :
    isOperatorChar c = false := by
  cases ho : isOperatorChar c with
  | false => rfl
  | true => rw [(isOperatorChar_spec ho).1] at h; cases h

theorem isNameChar_of_isDigit {c : Char} (h : c.isDigit = true) : isNameChar c = true := by
  simp [isNameChar, Char.isAlphanum, h]

/-- What can stand between two quotes: a backslash takes the next character along. -/
inductive StringText : List Char → Prop where
  | nil : StringText []
  | escape (d : Char) {cs : List Char} (h : StringText cs) : StringText ('\\' :: d :: cs)
  | plain {c : Char} {cs : List Char} (hq : c ≠ '"') (hb : c ≠ '\\') (h : StringText cs) :
      StringText (c :: cs)

/-! ## 2. Reading on -/

namespace Cursor

/-- `c'` stands where `c` stands once `read` has been read. -/
def Past (c : Cursor) (read : List Char) (c' : Cursor) : Prop :=
  c.rest = read ++ c'.rest ∧ c'.offset = c.offset + byteCount read

theorem Past.refl (c : Cursor) : c.Past [] c := ⟨rfl, by simp⟩

theorem Past.trans {c₁ c₂ c₃ : Cursor} {read₁ read₂ : List Char} (h₁ : c₁.Past read₁ c₂)
    (h₂ : c₂.Past read₂ c₃) : c₁.Past (read₁ ++ read₂) c₃ := by
  refine ⟨by rw [h₁.1, h₂.1, List.append_assoc], ?_⟩
  rw [h₂.2, h₁.2, byteCount_append]
  omega

/-- The end of the text stays where it is. -/
theorem Past.stop {c c' : Cursor} {read : List Char} (h : c.Past read c') :
    c'.offset + byteCount c'.rest = c.offset + byteCount c.rest := by
  rw [h.1, h.2, byteCount_append]
  omega

theorem Past.offset_le {c c' : Cursor} {read : List Char} (h : c.Past read c') :
    c.offset ≤ c'.offset := by
  rw [h.2]
  omega

theorem Past.length_lt {c c' : Cursor} {read : List Char} (h : c.Past read c') (hne : read ≠ []) :
    c'.rest.length < c.rest.length := by
  have hpos := List.length_pos_iff.mpr hne
  rw [h.1, List.length_append]
  omega

theorem span_past (c : Cursor) (p : Char → Bool) : c.Past (c.span p).1 (c.span p).2 :=
  ⟨(c.span_append p).symm, rfl⟩

theorem skipSpaces_past (c : Cursor) : ∃ read, c.Past read c.skipSpaces :=
  ⟨_, c.span_past _⟩

section Head

variable {p : Char → Bool} {rest : List Char}

theorem takeWhile_of_head (h : ∀ ch ∈ rest.head?, p ch = false) : rest.takeWhile p = [] := by
  cases rest with
  | nil => rfl
  | cons ch rest => simp [h ch (by simp)]

theorem dropWhile_of_head (h : ∀ ch ∈ rest.head?, p ch = false) : rest.dropWhile p = rest := by
  cases rest with
  | nil => rfl
  | cons ch rest => simp [h ch (by simp)]

theorem skipSpaces_of_head {c : Cursor} (h : ∀ ch ∈ c.rest.head?, ch ≠ ' ') : c.skipSpaces = c := by
  have hhead : ∀ ch ∈ c.rest.head?, (ch == ' ') = false := fun ch hch => by simpa using h ch hch
  simp [skipSpaces, span, takeWhile_of_head hhead, dropWhile_of_head hhead]

/-- Behind the spaces there is no further one. -/
theorem skipSpaces_head (c : Cursor) : ∀ ch ∈ c.skipSpaces.rest.head?, ch ≠ ' ' := by
  intro ch hch
  have h := List.head?_dropWhile_not (· == ' ') c.rest
  have hrest : c.skipSpaces.rest = c.rest.dropWhile (· == ' ') := rfl
  rw [hrest] at hch
  rw [Option.mem_def.mp hch] at h
  simpa using h

theorem skipSpaces_skipSpaces (c : Cursor) : c.skipSpaces.skipSpaces = c.skipSpaces :=
  skipSpaces_of_head c.skipSpaces_head

end Head

theorem eat?_eq_some {c c' : Cursor} {ch : Char} :
    c.eat? ch = some c' ↔ c.Past [ch] c' := by
  obtain ⟨rest, o⟩ := c
  obtain ⟨rest', o'⟩ := c'
  cases rest with
  | nil => simp [eat?, Past]
  | cons d rest =>
    by_cases h : d = ch
    · subst h
      simp only [eat?, if_true, Option.some.injEq, mk.injEq, Past, List.singleton_append,
        List.cons.injEq, true_and, byteCount_cons, byteCount_nil, Nat.add_zero]
      exact ⟨fun ⟨e₁, e₂⟩ => ⟨e₁, e₂.symm⟩, fun ⟨e₁, e₂⟩ => ⟨e₁, e₂.symm⟩⟩
    · simp [eat?, Past, h]

theorem run?_eq (c : Cursor) (p : Char → Bool) :
    c.run? p =
      if (c.span p).1 = [] then none else some (String.ofList (c.span p).1, (c.span p).2) := by
  rw [run?]
  split
  · rename_i h
    rw [h, if_pos rfl]
  · rename_i run c' hne h
    rw [h, if_neg hne]

/-- A run of characters of a class is read as far as it goes. -/
theorem run?_eq_some {c c' : Cursor} {p : Char → Bool} {x : String}
    (h : c.run? p = some (x, c')) : c.Past x.toList c' ∧ Spelled p x := by
  rw [run?_eq] at h
  split at h
  · cases h
  · rename_i hne
    cases h
    rw [Spelled, String.toList_ofList]
    exact ⟨c.span_past p, hne, fun d hd => List.mem_takeWhile_imp hd⟩

theorem run?_eq_none {c : Cursor} {p : Char → Bool} :
    c.run? p = none ↔ c.rest.takeWhile p = [] := by
  rw [run?_eq]
  split
  · simp_all [span]
  · simp_all [span]

theorem bracketedOperator?_eq_some {c c' : Cursor} {op : String}
    (h : c.bracketedOperator? = some (op, c')) :
    ∃ read, read ≠ [] ∧ c.Past read c' ∧ Spelled isOperatorChar op := by
  simp only [bracketedOperator?, Option.bind_eq_bind, Option.bind_eq_some_iff] at h
  obtain ⟨inner, hopen, ⟨x, behind⟩, hop, after, hclose, hr⟩ := h
  cases hr
  obtain ⟨blanks, hblanks⟩ := inner.skipSpaces_past
  obtain ⟨blanks', hblanks'⟩ := behind.skipSpaces_past
  obtain ⟨hrun, hspelled⟩ := run?_eq_some hop
  have hpast := (eat?_eq_some.mp hopen).trans (hblanks.trans (hrun.trans
    (hblanks'.trans (eat?_eq_some.mp hclose))))
  exact ⟨_, by simp, hpast, hspelled⟩

theorem sign_past (c : Cursor) : c.Past c.sign.1 c.sign.2 := by
  obtain ⟨rest, o⟩ := c
  unfold sign
  split
  · rename_i rest h
    exact ⟨h, rfl⟩
  · rename_i rest h
    exact ⟨h, rfl⟩
  · exact Past.refl _

theorem numeral?_eq (c : Cursor) :
    c.numeral? =
      if (c.sign.2.span Char.isDigit).1 = [] then none
      else some (c.sign.1 ++ (c.sign.2.span Char.isDigit).1, (c.sign.2.span Char.isDigit).2) := by
  rw [numeral?]
  rcases c.sign with ⟨sign, c₁⟩
  dsimp only
  split
  · rename_i h
    rw [h, if_pos rfl]
  · rename_i digits c' hne h
    rw [h, if_neg hne]

theorem numeral?_eq_some {c c' : Cursor} {numeral : List Char}
    (h : c.numeral? = some (numeral, c')) : c.Past numeral c' ∧ numeral ≠ [] := by
  rw [numeral?_eq] at h
  split at h
  · cases h
  · rename_i hne
    cases h
    exact ⟨c.sign_past.trans (c.sign.2.span_past Char.isDigit),
      fun he => hne (List.append_eq_nil_iff.mp he).2⟩

/-- A word where no numeral begins can stand as a name. -/
theorem word?_termName {c c' : Cursor} {x : String} (hn : c.numeral? = none)
    (hw : c.word? = some (x, c')) : TermName x := by
  obtain ⟨⟨hrest, -⟩, hspelled⟩ := run?_eq_some hw
  refine .inr ⟨hspelled, fun d hd => ?_⟩
  obtain ⟨tail, htail⟩ : ∃ tail, x.toList = d :: tail := by
    cases h : x.toList with
    | nil => simp [h] at hd
    | cons a tail => exact ⟨tail, by simp_all⟩
  -- a digit at the beginning would have been a numeral
  cases hdigit : d.isDigit with
  | false => rfl
  | true =>
    have hplus : d ≠ '+' := by rintro rfl; revert hdigit; decide
    have hminus : d ≠ '-' := by rintro rfl; revert hdigit; decide
    have hsign : c.sign = ([], c) := by simp [sign, hrest, htail, hplus, hminus]
    rw [numeral?_eq, hsign] at hn
    simp [span, hrest, htail, hdigit] at hn

/-! ## 3. Strings -/

theorem stringBodyFrom_of_text {body : List Char} (h : StringText body) (done : List Char) (o : Int)
    (rest : List Char) :
    stringBodyFrom done o (body ++ '"' :: rest) =
      .ok (done.reverse ++ body, ⟨rest, o + byteCount body + 1⟩) := by
  induction h generalizing done o with
  | nil => cases rest <;> simp [stringBodyFrom]
  | escape d h ih =>
    have one : Char.utf8Size '\\' = 1 := by decide
    simp only [List.cons_append, stringBodyFrom, if_true, ih]
    simp only [Char.reduceEq, if_false, List.reverse_cons, List.append_assoc, List.cons_append,
      List.nil_append, byteCount_cons, one, Except.ok.injEq, Prod.mk.injEq, mk.injEq, true_and]
    omega
  | @plain c cs hq hb h ih =>
    have hcons : ∃ d tail, cs ++ '"' :: rest = d :: tail := by
      cases cs with
      | nil => exact ⟨_, _, rfl⟩
      | cons d cs => exact ⟨_, _, rfl⟩
    obtain ⟨d, tail, htail⟩ := hcons
    rw [List.cons_append, htail, stringBodyFrom, if_neg hq, if_neg hb, ← htail, ih]
    simp only [List.reverse_cons, List.append_assoc, List.singleton_append, byteCount_cons,
      Except.ok.injEq, Prod.mk.injEq, mk.injEq, true_and]
    omega

/-- A string is read up to behind its closing quote. -/
theorem stringBodyFrom_eq_ok {done : List Char} {o : Int} {cs body : List Char} {c' : Cursor}
    (h : stringBodyFrom done o cs = .ok (body, c')) :
    ∃ text, body = done.reverse ++ text ∧ StringText text ∧ cs = text ++ '"' :: c'.rest := by
  fun_induction stringBodyFrom done o cs with
  | case1 => cases h
  | case2 done o =>
    cases h
    exact ⟨[], by simp, .nil, rfl⟩
  | case3 => cases h
  | case4 done o d rest =>
    cases h
    exact ⟨[], by simp, .nil, rfl⟩
  | case5 done o d rest hq ih =>
    obtain ⟨text, hbody, htext, hcs⟩ := ih h
    exact ⟨'\\' :: d :: text, by simp [hbody], .escape d htext, by rw [hcs]; rfl⟩
  | case6 done o c d rest hq hb ih =>
    obtain ⟨text, hbody, htext, hcs⟩ := ih h
    exact ⟨c :: text, by simp [hbody], .plain hq hb htext, by rw [hcs]; rfl⟩

theorem stringBody_of_text {body : List Char} (h : StringText body) (o : Int) (rest : List Char) :
    (⟨body ++ '"' :: rest, o⟩ : Cursor).stringBody =
      .ok (body, ⟨rest, o + byteCount body + 1⟩) :=
  stringBodyFrom_of_text h [] o rest

/-- **A string ends at the first quote that no backslash takes along.** -/
theorem stringBody_eq_ok {c c' : Cursor} {body : List Char} (h : c.stringBody = .ok (body, c')) :
    StringText body ∧ c.Past (body ++ ['"']) c' := by
  obtain ⟨rest, o⟩ := c
  obtain ⟨text, hbody, htext, hrest⟩ := stringBodyFrom_eq_ok h
  obtain rfl : body = text := by simpa using hbody
  simp only at hrest
  subst hrest
  rw [stringBody_of_text htext] at h
  have hc : ⟨c'.rest, o + byteCount body + 1⟩ = c' := congrArg Prod.snd (Except.ok.inj h)
  have hoff : c'.offset = o + byteCount body + 1 := by rw [← hc]
  refine ⟨htext, by simp, ?_⟩
  have one : Char.utf8Size '"' = 1 := by decide
  rw [hoff]
  simp only [byteCount_append, byteCount_cons, byteCount_nil, one]
  omega

/-! ## 4. A cursor in a larger text -/

/-- The cursor in a text that goes on with `back`, where its own text begins `shift` bytes further
    on. -/
def placed (back : List Char) (shift : Int) (c : Cursor) : Cursor :=
  ⟨c.rest ++ back, c.offset + shift⟩

section Placed

variable {more : List Char} {shift : Int} {p : Char → Bool}

theorem takeWhile_placed (hp : p ')' = false) (cs : List Char) :
    (cs ++ ')' :: more).takeWhile p = cs.takeWhile p := by
  induction cs with
  | nil => simp [hp]
  | cons c cs ih => cases h : p c <;> simp [h, ih]

theorem dropWhile_placed (hp : p ')' = false) (cs : List Char) :
    (cs ++ ')' :: more).dropWhile p = cs.dropWhile p ++ ')' :: more := by
  induction cs with
  | nil => simp [hp]
  | cons c cs ih => cases h : p c <;> simp [h, ih]

theorem span_placed (hp : p ')' = false) (c : Cursor) :
    (c.placed (')' :: more) shift).span p =
      ((c.span p).1, (c.span p).2.placed (')' :: more) shift) := by
  simp only [span, placed, takeWhile_placed hp, dropWhile_placed hp, Prod.mk.injEq, mk.injEq,
    true_and]
  omega

theorem skipSpaces_placed (c : Cursor) :
    (c.placed (')' :: more) shift).skipSpaces = c.skipSpaces.placed (')' :: more) shift := by
  rw [skipSpaces, span_placed (by decide)]
  rfl

theorem run?_placed (hp : p ')' = false) (c : Cursor) :
    (c.placed (')' :: more) shift).run? p =
      (c.run? p).map fun t => (t.1, t.2.placed (')' :: more) shift) := by
  rw [run?_eq, run?_eq, span_placed hp]
  split <;> rfl

/-- Any character but a closing parenthesis is there if and only if it was there. -/
theorem eat?_placed {ch : Char} (c : Cursor) (h : ch ≠ ')' ∨ c.rest ≠ []) :
    (c.placed (')' :: more) shift).eat? ch =
      (c.eat? ch).map (·.placed (')' :: more) shift) := by
  obtain ⟨rest, o⟩ := c
  cases rest with
  | nil =>
    have hne : ')' ≠ ch := fun he => h.elim (fun h => h he.symm) (fun h => h rfl)
    simp [placed, eat?, hne]
  | cons d rest =>
    by_cases hd : d = ch
    · simp only [placed, eat?, List.cons_append, hd, if_true, Option.map_some, Option.some.injEq,
        mk.injEq, true_and]
      omega
    · simp [placed, eat?, hd]

theorem sign_placed (c : Cursor) :
    (c.placed (')' :: more) shift).sign = (c.sign.1, c.sign.2.placed (')' :: more) shift) := by
  obtain ⟨rest, o⟩ := c
  cases rest with
  | nil => rfl
  | cons d rest =>
    by_cases hplus : d = '+'
    · subst hplus
      simp only [placed, sign, List.cons_append, Prod.mk.injEq, mk.injEq, true_and]
      omega
    by_cases hminus : d = '-'
    · subst hminus
      simp only [placed, sign, List.cons_append, Prod.mk.injEq, mk.injEq, true_and]
      omega
    · simp [placed, sign, hplus, hminus]

theorem numeral?_placed (c : Cursor) :
    (c.placed (')' :: more) shift).numeral? =
      c.numeral?.map fun t => (t.1, t.2.placed (')' :: more) shift) := by
  rw [numeral?_eq, numeral?_eq, sign_placed, span_placed (by decide)]
  split <;> rfl

theorem stringBody_placed {back : List Char} {c c' : Cursor} {body : List Char}
    (h : c.stringBody = .ok (body, c')) :
    (c.placed back shift).stringBody = .ok (body, c'.placed back shift) := by
  obtain ⟨htext, hrest, hoff⟩ := stringBody_eq_ok h
  have one : Char.utf8Size '"' = 1 := by decide
  have hc : c.placed back shift = ⟨body ++ '"' :: (c'.rest ++ back), c.offset + shift⟩ := by
    simp [placed, hrest]
  rw [hc, stringBody_of_text htext]
  simp only [byteCount_append, byteCount_cons, byteCount_nil, one] at hoff
  simp only [placed, hoff, Except.ok.injEq, Prod.mk.injEq, mk.injEq, true_and]
  omega

end Placed

end Cursor

end CallByNeed
