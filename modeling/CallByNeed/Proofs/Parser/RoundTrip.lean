/-
  File:      CallByNeed/Proofs/Parser/RoundTrip.lean
  Subject:   The text of a tree reads back as the tree.

  Not every tree has a text: a name may hold anything, and blanking takes a vertical tab out of a
  string. Trees that were read are fine (`Expr.Readable`), and the text of a tree is made so that
  each of its parts ends where the reader lets it end: behind an argument there is a space or a
  parenthesis, behind a lambda a parenthesis.

  * `Expr.Readable`, `readable_of_parse` -- what reading can give;
  * `clean_toText` -- blanking leaves the text of a tree as it is;
  * `atom_reads`, `toText_reads` -- the text of a tree is read as far as it goes;
  * `parse_toText` -- the text of a tree that was read is read as the same tree.
-/
import CallByNeed.Proofs.Literal
import CallByNeed.Proofs.Parser.Invariant
import CallByNeed.Proofs.Parser.Written

namespace CallByNeed

/-! ## 1. Trees that were read -/

/-- Trees that can be read: names are spelled like names, and no string holds a vertical tab. -/
def Expr.Readable : Expr → Prop
  | .number _ _ => True
  | .string _ s => '\x0b' ∉ s.toList
  | .name _ x => TermName x
  | .builtin _ x => Spelled isNameChar x
  | .lambda _ x body => ParamName x ∧ body.Readable
  | .apply _ func arg => func.Readable ∧ arg.Readable

/-- Reading a text without vertical tabs gives trees that can be read again. -/
theorem keeps_readable : Keeps (fun _ c => '\x0b' ∉ c.rest) Expr.Readable := by
  have behind {c c' : Cursor} {read : List Char} (h : '\x0b' ∉ c.rest) (hpast : c.Past read c') :
      '\x0b' ∉ c'.rest := fun hmem => h (by rw [hpast.1]; exact List.mem_append_right _ hmem)
  exact {
    bare := fun h hpast _ => behind h hpast
    enter := behind
    leave := behind
    string := fun h _ hpast => behind h hpast
    text := fun {d c c' body p} h _ hpast => by
      rw [Expr.Readable, unescape, String.toList_ofList, String.toList_ofList]
      intro hmem
      have hbody : '\x0b' ∈ body := mem_unescapeChars (by decide) body hmem
      exact h (by rw [hpast.1]; simp [hbody])
    number := trivial
    name := id
    builtin := id
    lambda := And.intro
    apply := And.intro }

/-- **What reading gives can be read again.** -/
theorem readable_of_parse {source : Source} {defs : List Definition} {depth : Nat} {e : Expr}
    (h : parse source defs depth = .ok e) : e.Readable := by
  have hwhole : ∃ o, (⟨source, depth⟩ : Reading).whole ⟨(prepare source.chars defs).text, o⟩ =
      .ok e := by
    cases defs with
    | nil => exact ⟨_, h⟩
    | cons d ds =>
      obtain ⟨_, _, hwhole⟩ := Parsed.bind_eq_ok.mp (parse_cons source d ds depth ▸ h)
      exact ⟨_, hwhole⟩
  obtain ⟨o, hwhole⟩ := hwhole
  obtain ⟨c', hline, _⟩ := Reading.whole_eq_ok.mp hwhole
  have htab : '\x0b' ∉ (prepare source.chars defs).text := by
    have layout : isLayoutChar '\x0b' = true := by decide
    intro hmem
    rcases List.mem_append.mp hmem with hmem | hmem
    · rcases List.mem_append.mp hmem with hmem | hmem
      · exact absurd layout (by rw [isLayoutChar_of_mem_blankFrom hmem]; decide)
      · exact absurd layout (by rw [isLayoutChar_of_mem_blankFrom hmem]; decide)
    · exact absurd layout (by rw [isLayoutChar_of_mem_blankFrom hmem]; decide)
  exact (keeps_readable.line (d := 0) htab hline).2 e rfl

/-! ## 2. The text of a tree -/

theorem stringText_escape (s : String) : StringText (escape s).toList := by
  have chars : ∀ cs : List Char, StringText (cs.flatMap escapeChar) := by
    intro cs
    induction cs with
    | nil => exact .nil
    | cons c cs ih =>
      rw [List.flatMap_cons, escapeChar]
      repeat' split
      case isFalse.isFalse.isFalse.isFalse.isFalse.isFalse.isFalse =>
        exact .plain ‹_› ‹_› ih
      all_goals exact .escape _ ih
  rw [escape, String.toList_ofList]
  exact chars _

theorem isLayoutChar_of_mem_escape {s : String} (hs : '\x0b' ∉ s.toList) :
    ∀ ch ∈ (escape s).toList, isLayoutChar ch = false := by
  rw [escape, String.toList_ofList]
  intro ch hch
  obtain ⟨c, hc, hch⟩ := List.mem_flatMap.mp hch
  have htab : c ≠ '\x0b' := fun he => hs (he ▸ hc)
  unfold escapeChar at hch
  repeat' split at hch
  case isFalse.isFalse.isFalse.isFalse.isFalse.isFalse.isFalse =>
    obtain rfl := List.mem_singleton.mp hch
    simp_all [isLayoutChar]
  all_goals
    simp only [List.mem_cons, List.not_mem_nil, or_false] at hch
    rcases hch with rfl | rfl <;> decide

theorem clean_decimal (n : Int64) : Clean (decimal n).toList := by
  obtain ⟨d, ds, hall, htext, _⟩ := decimal_spec n
  have digits : ∀ ch ∈ d :: ds, isPlainChar ch = true := fun ch hch =>
    isPlainChar_of_name (isNameChar_of_isDigit (hall ch hch))
  rcases htext with ⟨_, htext⟩ | ⟨_, htext⟩
  · rw [htext]
    exact clean_of_chars digits
  · rw [htext]
    exact clean_of_chars (List.forall_mem_cons.mpr ⟨by decide, digits⟩)

theorem clean_wrapIf {text : String} (wraps : Bool) (h : Clean text.toList) :
    Clean (Expr.wrapIf wraps text).toList := by
  cases wraps with
  | false => exact h
  | true =>
    have paren : Clean ['('] ∧ Clean [')'] := ⟨clean_of_plain (by decide), clean_of_plain (by decide)⟩
    simpa [Expr.wrapIf] using (paren.1.append h).append paren.2

/-- **Blanking leaves the text of a tree as it is.** -/
theorem clean_toText {e : Expr} (he : e.Readable) : Clean e.toText.toList := by
  induction e with
  | number p n => exact clean_decimal n
  | string p s =>
    have h := clean_of_string (stringText_escape s) (isLayoutChar_of_mem_escape he)
    simpa [Expr.toText] using h
  | name p x => exact clean_nameText (he.imp id And.left)
  | builtin p x =>
    have h : Clean ('@' :: x.toList) := clean_of_chars
      (List.forall_mem_cons.mpr ⟨by decide, fun ch hch => isPlainChar_of_name (he.2 ch hch)⟩)
    simpa [Expr.toText] using h
  | lambda p x body ih =>
    have slash : Clean ['\\'] := clean_of_plain (by decide)
    have dot : Clean ['.', '('] := clean_of_plain (by decide)
    have close : Clean [')'] := clean_of_plain (by decide)
    have h := slash.append ((clean_nameText he.1).append (dot.append ((ih he.2).append close)))
    simpa [Expr.toText] using h
  | apply p func arg ihf iha =>
    have space : Clean [' '] := clean_of_plain (by decide)
    have h := (clean_wrapIf func.wrapsAsFunction (ihf he.1)).append
      (space.append (clean_wrapIf arg.wrapsAsArgument (iha he.2)))
    simpa [Expr.toText] using h

/-! ## 3. Reading the text of an atom -/

/-- Trees that are one token. -/
def Expr.isAtom : Expr → Bool
  | .lambda .. | .apply .. => false
  | _ => true

theorem numeral?_written {d : Char} {ds rest : List Char} (hall : ∀ ch ∈ d :: ds, ch.isDigit = true)
    (hrest : Breaks rest) (o : Int) :
    (⟨d :: ds ++ rest, o⟩ : Cursor).numeral? =
        some (d :: ds, ⟨rest, o + byteCount (d :: ds)⟩) ∧
      (⟨'-' :: d :: ds ++ rest, o⟩ : Cursor).numeral? =
        some ('-' :: d :: ds, ⟨rest, o + 1 + byteCount (d :: ds)⟩) := by
  have hspan (o : Int) := Cursor.span_written hall (hrest.head (by decide) (by decide)) o
  have hdigit := hall d List.mem_cons_self
  have hsign : (⟨d :: ds ++ rest, o⟩ : Cursor).sign = ([], ⟨d :: ds ++ rest, o⟩) := by
    have hplus : d ≠ '+' := by rintro rfl; revert hdigit; decide
    have hminus : d ≠ '-' := by rintro rfl; revert hdigit; decide
    simp [Cursor.sign, hplus, hminus]
  refine ⟨?_, ?_⟩
  · rw [Cursor.numeral?_eq, hsign, hspan]
    rfl
  · have hsign' : (⟨'-' :: d :: ds ++ rest, o⟩ : Cursor).sign = (['-'], ⟨d :: ds ++ rest, o + 1⟩) :=
      rfl
    rw [Cursor.numeral?_eq, hsign', hspan]
    rfl

section Atoms

variable (r : Reading) (line : LineReader) {rest : List Char} (hrest : Breaks rest) (o : Int)
include hrest

theorem number_reads (n : Int64) : ∃ o', r.term? line ⟨(decimal n).toList ++ rest, o⟩ =
    .ok (some (.number ⟨r.source, o⟩ n, ⟨rest, o'⟩)) := by
  obtain ⟨d, ds, hall, htext, hvalue⟩ := decimal_spec n
  obtain ⟨hpos, hneg⟩ := numeral?_written hall hrest o
  have hnumeral : ∃ o', (⟨(decimal n).toList ++ rest, o⟩ : Cursor).numeral? =
      some ((decimal n).toList, ⟨rest, o'⟩) := by
    rcases htext with ⟨_, htext⟩ | ⟨_, htext⟩
    · exact ⟨_, htext ▸ hpos⟩
    · exact ⟨_, htext ▸ hneg⟩
  have forms : (['(', '@', '\\', '"'].all fun ch => !isNameChar ch && ch != '-') = true := by decide
  have hhead : ∀ ch ∈ ((decimal n).toList ++ rest).head?, ch ∉ ['(', '@', '\\', '"'] := by
    intro ch hch hform
    have hother := List.all_eq_true.mp forms ch hform
    rcases htext with ⟨_, htext⟩ | ⟨_, htext⟩
    · obtain rfl : d = ch := by simpa [htext] using hch
      simp [isNameChar_of_isDigit (hall d List.mem_cons_self)] at hother
    · obtain rfl : '-' = ch := by simpa [htext] using hch
      simp at hother
  obtain ⟨o', hnumeral⟩ := hnumeral
  refine ⟨o', ?_⟩
  rw [Reading.term?_of_head hhead, Reading.plain, hnumeral]
  simp only [hvalue]
  rfl

omit hrest in
theorem string_reads (rest : List Char) (s : String) : ∃ o',
    r.term? line ⟨'"' :: ((escape s).toList ++ '"' :: rest), o⟩ =
      .ok (some (.string ⟨r.source, o⟩ s, ⟨rest, o'⟩)) := by
  have hbody := Cursor.stringBody_of_text (stringText_escape s) (o + 1) rest
  refine ⟨o + 1 + byteCount (escape s).toList + 1, ?_⟩
  rw [Reading.term?_quote (Cursor.eat?_cons (by decide) o), Reading.string, hbody]
  simp only [String.ofList_toList, unescape_escape]
  rfl

theorem name_reads {x : String} (hx : TermName x) : ∃ o',
    r.term? line ⟨(Expr.nameText x).toList ++ rest, o⟩ =
      .ok (some (.name ⟨r.source, o⟩ x, ⟨rest, o'⟩)) := by
  rcases hx with hx | ⟨hx, hdigit⟩
  · refine ⟨o + 1 + byteCount x.toList + 1, ?_⟩
    rw [nameText_operator hx, List.cons_append, List.append_assoc, List.singleton_append,
      Reading.term?_open (Cursor.eat?_cons (by decide) o), Cursor.bracketedOperator?_written hx]
    rfl
  · obtain ⟨d, ds, hd⟩ := List.exists_cons_of_ne_nil hx.1
    have hdname := hx.2 d (by simp [hd])
    have forms : ['(', '@', '\\', '"'].all (!isNameChar ·) = true := by decide
    have hhead : ∀ ch ∈ (x.toList ++ rest).head?, ch ∉ ['(', '@', '\\', '"'] :=
      fun ch hch hform =>
        hx.word_head (by simpa using List.all_eq_true.mp forms ch hform) ch hch rfl
    have hnumeral : (⟨x.toList ++ rest, o⟩ : Cursor).numeral? = none := by
      have hplus : d ≠ '+' := isNameChar_ne hdname (by decide)
      have hminus : d ≠ '-' := isNameChar_ne hdname (by decide)
      have hsign : (⟨x.toList ++ rest, o⟩ : Cursor).sign = ([], ⟨x.toList ++ rest, o⟩) := by
        simp [Cursor.sign, hd, hplus, hminus]
      rw [Cursor.numeral?_eq, hsign]
      simp [Cursor.span, hd, hdigit d (by simp [hd])]
    refine ⟨o + byteCount x.toList, ?_⟩
    rw [nameText_word hx, Reading.term?_of_head hhead, Reading.plain, hnumeral, Cursor.word?,
      Cursor.run?_written hx (hrest.head (by decide) (by decide))]
    rfl

theorem builtin_reads {x : String} (hx : Spelled isNameChar x) : ∃ o',
    r.term? line ⟨'@' :: (x.toList ++ rest), o⟩ =
      .ok (some (.builtin ⟨r.source, o⟩ x, ⟨rest, o'⟩)) := by
  refine ⟨o + 1 + byteCount x.toList, ?_⟩
  rw [Reading.term?_at (Cursor.eat?_cons (by decide) o), Reading.builtin, Cursor.word?,
    Cursor.run?_written hx (hrest.head (by decide) (by decide))]
  rfl

/-- **The text of an atom is read as far as it goes.** -/
theorem atom_reads {e : Expr} (he : e.Readable) (hatom : e.isAtom = true) :
    ∃ e' o', r.term? line ⟨e.toText.toList ++ rest, o⟩ = .ok (some (e', ⟨rest, o'⟩)) ∧
      e'.sameShape e = true := by
  cases e with
  | lambda p x body => cases hatom
  | apply p func arg => cases hatom
  | number p n =>
    obtain ⟨o', h⟩ := number_reads r line hrest o n
    exact ⟨_, o', h, by simp [Expr.sameShape]⟩
  | string p s =>
    obtain ⟨o', h⟩ := string_reads r line o rest s
    exact ⟨_, o', by simpa [Expr.toText] using h, by simp [Expr.sameShape]⟩
  | name p x =>
    obtain ⟨o', h⟩ := name_reads r line hrest o he
    exact ⟨_, o', h, by simp [Expr.sameShape]⟩
  | builtin p x =>
    obtain ⟨o', h⟩ := builtin_reads r line hrest o he
    exact ⟨_, o', by simpa [Expr.toText] using h, by simp [Expr.sameShape]⟩

end Atoms

/-! ## 4. Reading the text of a tree -/

theorem Expr.size_pos (e : Expr) : 0 < e.size := by
  cases e <;> simp only [Expr.size] <;> omega

/-- An argument does not begin with an operator, and it is a term by itself. -/
theorem argument_reads {r : Reading} {n : Nat} {a : Expr} (ha : a.Readable)
    (hline : ∀ rest o, ∃ a' o', r.line n ⟨a.toText.toList ++ ')' :: rest, o⟩ =
      .ok (some a', ⟨')' :: rest, o'⟩) ∧ a'.sameShape a = true)
    {rest : List Char} (hrest : Breaks rest) (o : Int) :
    let text := (Expr.wrapIf a.wrapsAsArgument a.toText).toList ++ rest
    (∀ ch ∈ text.head?, isOperatorChar ch = false) ∧
      ∃ a' o', r.term? (r.line n) ⟨text, o⟩ = .ok (some (a', ⟨rest, o'⟩)) ∧
        a'.sameShape a = true := by
  have head {ch : Char} {cs : List Char} (hch : isOperatorChar ch = false) :
      ∀ d ∈ (ch :: cs).head?, isOperatorChar d = false := by
    intro d hd
    obtain rfl : ch = d := by simpa using hd
    exact hch
  cases hw : a.wrapsAsArgument with
  | true =>
    have htext : (Expr.wrapIf true a.toText).toList ++ rest =
        '(' :: (a.toText.toList ++ ')' :: rest) := by simp [Expr.wrapIf]
    obtain ⟨a', o', hread, hshape⟩ := hline rest (o + 1)
    rw [htext]
    exact ⟨head (by decide), a', o' + 1, Reading.term?_group hread, hshape⟩
  | false =>
    have hatom : a.isAtom = true := by cases a <;> first | rfl | cases hw
    refine ⟨?_, atom_reads r (r.line n) hrest o ha hatom⟩
    show ∀ ch ∈ (a.toText.toList ++ rest).head?, isOperatorChar ch = false
    cases a with
    | lambda p x body => cases hatom
    | apply p f a => cases hatom
    | number p m =>
      obtain ⟨d, ds, hall, htext, _⟩ := decimal_spec m
      have hnonneg : ¬ m.toInt < 0 := by
        have hlt : ¬ m < 0 := by simpa [Expr.wrapsAsArgument] using hw
        simpa [Int64.lt_iff_toInt_lt] using hlt
      rcases htext with ⟨_, htext⟩ | ⟨hneg, _⟩
      · rw [Expr.toText, htext]
        exact head (isOperatorChar_of_isNameChar
          (isNameChar_of_isDigit (hall d List.mem_cons_self)))
      · exact absurd hneg hnonneg
    | string p s =>
      simp only [Expr.toText, String.toList_append]
      exact head (by decide)
    | name p x =>
      rcases ha with hx | ⟨hx, _⟩
      · rw [Expr.toText, nameText_operator hx]
        exact head (by decide)
      · rw [Expr.toText, nameText_word hx]
        obtain ⟨d, ds, hd⟩ := List.exists_cons_of_ne_nil hx.1
        rw [hd]
        exact head (isOperatorChar_of_isNameChar (hx.2 d (by simp [hd])))
    | builtin p x =>
      simp only [Expr.toText, String.toList_append]
      exact head (by decide)

/-- **The text of a tree is read as far as it goes**, as terms side by side. Only a lambda needs the
    line to be over behind it. Every node takes at most two levels of lines. -/
theorem toText_reads (r : Reading) {e : Expr} (he : e.Readable) {n : Nat} (hn : 2 * e.size ≤ n + 1)
    {rest : List Char} (hrest : Breaks rest) (hstop : e.wrapsAsFunction = true → Stops rest)
    (o : Int) :
    ∃ e' o', SideBySide (r.term? (r.line n)) ⟨e.toText.toList ++ rest, o⟩ e' ⟨rest, o'⟩ ∧
      e'.sameShape e = true := by
  induction e generalizing n rest o with
  | number _ _ | string _ _ | name _ _ | builtin _ _ =>
    obtain ⟨e', o', h, hshape⟩ := atom_reads r (r.line n) hrest o he rfl
    exact ⟨e', o', .term h, hshape⟩
  | lambda p x body ih =>
    -- one level for the line behind the dot, one for the line in the parentheses
    have hpos := body.size_pos
    simp only [Expr.size] at hn
    obtain ⟨k, rfl⟩ : ∃ k, n = k + 2 := ⟨n - 2, by omega⟩
    obtain ⟨body', o₁, hbody, hshape⟩ := @ih he.2 k (by omega) (')' :: rest)
      (Stops.close rest).breaks (fun _ => Stops.close rest)
      (o + 1 + byteCount (Expr.nameText x).toList + 1 + 1)
    have hgroup := Reading.term?_group (hbody.line (Stops.close rest))
    have hlambda := Reading.term?_lambda (r := r) he.1 ((SideBySide.term hgroup).line (hstop rfl))
    refine ⟨.lambda ⟨r.source, o⟩ x body', o₁ + 1, .term ?_, by simp [Expr.sameShape, hshape]⟩
    simpa [Expr.toText] using hlambda
  | apply p func arg ihf iha =>
    have hfpos := func.size_pos
    have hapos := arg.size_pos
    simp only [Expr.size] at hn
    obtain ⟨k, rfl⟩ : ∃ k, n = k + 1 := ⟨n - 1, by omega⟩
    have hline {e : Expr} (ih : ∀ rest o, ∃ e' o', SideBySide (r.term? (r.line k))
        ⟨e.toText.toList ++ ')' :: rest, o⟩ e' ⟨')' :: rest, o'⟩ ∧ e'.sameShape e = true)
        (rest : List Char) (o : Int) : ∃ e' o', r.line (k + 1) ⟨e.toText.toList ++ ')' :: rest, o⟩ =
          .ok (some e', ⟨')' :: rest, o'⟩) ∧ e'.sameShape e = true := by
      obtain ⟨e', o', h, hshape⟩ := ih rest o
      exact ⟨e', o', h.line (Stops.close rest), hshape⟩
    have harg (o : Int) := argument_reads he.2 (hline fun rest o => @iha he.2 k (by omega)
      (')' :: rest) (Stops.close rest).breaks (fun _ => Stops.close rest) o) hrest o
    set text := (Expr.wrapIf arg.wrapsAsArgument arg.toText).toList ++ rest with htext
    have hfunc : ∃ f' o', SideBySide (r.term? (r.line (k + 1)))
        ⟨(Expr.wrapIf func.wrapsAsFunction func.toText).toList ++ ' ' :: text, o⟩ f'
        ⟨' ' :: text, o'⟩ ∧ f'.sameShape func = true := by
      cases hw : func.wrapsAsFunction with
      | false =>
        exact @ihf he.1 (k + 1) (by omega) (' ' :: text) (Breaks.space text)
          (fun h => by rw [hw] at h; cases h) o
      | true =>
        obtain ⟨f', o', hread, hshape⟩ := hline (fun rest o => @ihf he.1 k (by omega)
          (')' :: rest) (Stops.close rest).breaks (fun _ => Stops.close rest) o) (' ' :: text) (o + 1)
        refine ⟨f', o' + 1, .term ?_, hshape⟩
        simpa [Expr.wrapIf] using Reading.term?_group hread
    obtain ⟨f', o₁, hf, hfshape⟩ := hfunc
    obtain ⟨hhead, a', o₂, ha, hashape⟩ := harg (o₁ + 1)
    have hspace : (⟨' ' :: text, o₁⟩ : Cursor).skipSpaces = ⟨text, o₁ + 1⟩ := by
      rw [Cursor.skipSpaces_space, Reading.term?_skipSpaces ha]
    refine ⟨f'.applied a', o₂, ?_, by simp [Expr.applied, Expr.sameShape, hfshape, hashape]⟩
    have happly := hf.apply (by rw [hspace]; exact Cursor.run?_of_head hhead) (hspace ▸ ha)
    simpa [Expr.toText, htext] using happly

/-! ## 5. Whole programs -/

/-- **The text of a tree reads back as the tree.** Whatever was read, under whatever definitions, has
    a text that reads as a tree of the same shape, without definitions and with any limit that
    allows two levels of lines for every node. -/
theorem parse_toText {source : Source} {defs : List Definition} {maxDepth : Nat} {e : Expr}
    (h : parse source defs maxDepth = .ok e) (name : String) (depth : Nat)
    (hdepth : 2 * e.size + 1 ≤ depth) :
    ∃ e', parse ⟨name, e.toText⟩ [] depth = .ok e' ∧ e'.sameShape e = true := by
  have he := readable_of_parse h
  obtain ⟨n, rfl⟩ : ∃ n, depth = n + 1 := ⟨depth - 1, by omega⟩
  obtain ⟨e', o', hread, hshape⟩ := toText_reads ⟨⟨name, e.toText⟩, n + 1⟩ he (n := n) (by omega)
    Stops.nil.breaks (fun _ => Stops.nil) 0
  rw [List.append_nil] at hread
  refine ⟨e', ?_, hshape⟩
  rw [parse_nil, Reading.whole_eq_ok]
  refine ⟨⟨[], o'⟩, ?_, rfl⟩
  have hclean : blankText (⟨name, e.toText⟩ : Source).chars = e.toText.toList := (clean_toText he).1
  rw [hclean]
  exact hread.line Stops.nil

/-- A definition under a prelude, with a mirrored operator, an operator as a parameter, the least
    integer and an escape. -/
theorem parse_toText_definition :
    ∃ e, parse ⟨"main", "\\x := -9223372036854775808 ; (+) (-5) \\(*).x - \"a\\n\" # end"⟩
        [⟨"(=:)", "\\x.\\f.f x"⟩] 40 = .ok e ∧
      e.toText = "(\\(=:).((=:) (-9223372036854775808) (\\x.((+) (-5) (\\(*).((-) x \"a\\n\")))))) " ++
        "(\\x.(\\f.(f x)))" ∧
      ∃ e', parse ⟨"text", e.toText⟩ [] 45 = .ok e' ∧ e'.sameShape e = true := by
  have hread : (match parse ⟨"main",
        "\\x := -9223372036854775808 ; (+) (-5) \\(*).x - \"a\\n\" # end"⟩
        [⟨"(=:)", "\\x.\\f.f x"⟩] 40 with
      | .ok e => decide (e.size = 22) && e.toText ==
        "(\\(=:).((=:) (-9223372036854775808) (\\x.((+) (-5) (\\(*).((-) x \"a\\n\")))))) " ++
        "(\\x.(\\f.(f x)))"
      | .error _ => false) = true := by decide +kernel
  split at hread
  · rename_i e h
    simp only [Bool.and_eq_true, decide_eq_true_eq, beq_iff_eq] at hread
    exact ⟨e, h, hread.2, parse_toText h "text" 45 (by omega)⟩
  · cases hread

end CallByNeed
