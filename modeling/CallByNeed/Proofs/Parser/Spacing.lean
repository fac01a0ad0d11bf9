/-
  File:      CallByNeed/Proofs/Parser/Spacing.lean
  Subject:   Layout and comments carry no meaning.

  A reading passes over spaces wherever it looks for the next piece, and stops at the first of them
  wherever a piece must not be broken. So it can tell whether there are spaces, and not how many.
  Inside a string every one of them counts.

  * `squeeze` -- blanked text with one space for each run of spaces outside strings, and none at
    the ends;
  * `squeezeFrom_takeWhile`, `squeezeFrom_string`, ... -- what a squeezed text begins with;
  * `Respaced`, `Link.respaced`, `respaced_inStep` -- two cursors with the same squeezed text
    before them, in step;
  * `parse_of_squeeze_eq` -- texts that squeeze to the same text are read alike.
-/
import CallByNeed.Proofs.Parser.Language

namespace CallByNeed

/-! ## 1. Squeezed text -/

/-- Blanked text with one space for each run of spaces outside strings, and none at the end. `gap`
    says that spaces have just been passed over. -/
def squeezeFrom : Nesting → (gap : Bool) → List Char → List Char
  | _, _, [] => []
  | n, gap, ch :: cs =>
    if n = .code ∧ ch = ' ' then squeezeFrom .code true cs
    else (if gap then [' '] else []) ++ ch :: squeezeFrom (n.step ch) false cs

/-- Blanked text with one space for each run of spaces outside strings, and none at either end. -/
def squeeze (cs : List Char) : List Char := squeezeFrom .code false (dropSpaces cs)

section Squeeze

variable {ch : Char} {cs : List Char} {gap : Bool} {p : Char → Bool}

theorem squeezeFrom_space : squeezeFrom .code gap (' ' :: cs) = squeezeFrom .code true cs := by
  simp [squeezeFrom]

theorem squeezeFrom_cons (h : ch ≠ ' ') :
    squeezeFrom .code false (ch :: cs) = ch :: squeezeFrom (Nesting.step .code ch) false cs := by
  simp [squeezeFrom, h]

theorem squeezeFrom_plain (hspace : ch ≠ ' ') (hquote : ch ≠ '"') :
    squeezeFrom .code false (ch :: cs) = ch :: squeezeFrom .code false cs := by
  rw [squeezeFrom_cons hspace, Nesting.step, if_neg hquote]

/-- Spaces passed over leave a space, if anything follows. -/
theorem squeezeFrom_gap_head (cs : List Char) :
    ∀ ch ∈ (squeezeFrom .code true cs).head?, ch = ' ' := by
  induction cs with
  | nil => exact nofun
  | cons d cs ih =>
    by_cases hd : d = ' '
    · rw [hd, squeezeFrom_space]
      exact ih
    · intro ch hch
      simpa [squeezeFrom, hd] using hch.symm

/-- Behind its spaces, a squeezed text is the text behind the spaces, squeezed. -/
theorem dropSpaces_squeezeFrom (gap : Bool) (cs : List Char) :
    dropSpaces (squeezeFrom .code gap cs) = squeezeFrom .code false (dropSpaces cs) := by
  induction cs generalizing gap with
  | nil => rfl
  | cons ch cs ih =>
    by_cases hch : ch = ' '
    · subst hch
      rw [squeezeFrom_space, ih]
      rfl
    · rw [dropSpaces_cons hch, squeezeFrom_cons hch]
      cases gap with
      | false => simp [squeezeFrom, hch, dropSpaces]
      | true => simp [squeezeFrom, hch, dropSpaces]

/-- **A run of an alphabet is the same in the squeezed text**, and so is what follows it. -/
theorem squeezeFrom_takeWhile (hspace : p ' ' = false) (hquote : p '"' = false) (cs : List Char) :
    (squeezeFrom .code false cs).takeWhile p = cs.takeWhile p ∧
      (squeezeFrom .code false cs).dropWhile p = squeezeFrom .code false (cs.dropWhile p) := by
  induction cs with
  | nil => exact ⟨rfl, rfl⟩
  | cons ch cs ih =>
    cases hp : p ch with
    | true =>
      have hs : ch ≠ ' ' := by
        rintro rfl
        rw [hspace] at hp
        cases hp
      have hq : ch ≠ '"' := by
        rintro rfl
        rw [hquote] at hp
        cases hp
      rw [squeezeFrom_plain hs hq]
      simpa [hp] using ih
    | false =>
      -- the run is over, whether the text goes on with a space or with something else
      have hhead : ∀ d ∈ (squeezeFrom .code false (ch :: cs)).head?, p d = false := by
        intro d hd
        by_cases hs : ch = ' '
        · rw [hs, squeezeFrom_space] at hd
          rw [squeezeFrom_gap_head cs d hd]
          exact hspace
        · rw [squeezeFrom_cons hs] at hd
          obtain rfl : ch = d := by simpa using hd
          exact hp
      rw [Cursor.takeWhile_of_head hhead, Cursor.dropWhile_of_head hhead]
      simp [hp]

/-- What a squeezed text begins with, the text begins with. -/
theorem of_squeezeFrom_cons {t : List Char} (hch : ch ≠ ' ')
    (h : squeezeFrom .code false cs = ch :: t) :
    ∃ rest, cs = ch :: rest ∧ squeezeFrom (Nesting.step .code ch) false rest = t := by
  cases cs with
  | nil => cases h
  | cons d cs =>
    by_cases hd : d = ' '
    · rw [hd, squeezeFrom_space] at h
      exact absurd (squeezeFrom_gap_head cs ch (by rw [h]; rfl)) hch
    · rw [squeezeFrom_cons hd] at h
      obtain ⟨rfl, rfl⟩ := List.cons.inj h
      exact ⟨cs, rfl, rfl⟩

theorem squeezeFrom_inside {n : Nesting} (hn : n ≠ .code) (ch : Char) (cs : List Char) :
    squeezeFrom n false (ch :: cs) = ch :: squeezeFrom (n.step ch) false cs := by
  simp [squeezeFrom, hn]

/-- A string stays as it is. -/
theorem squeezeFrom_string {body : List Char} (h : StringText body) (rest : List Char) :
    squeezeFrom .string false (body ++ '"' :: rest) =
      body ++ '"' :: squeezeFrom .code false rest := by
  induction h with
  | nil => exact squeezeFrom_inside (by decide) _ _
  | escape d _ ih =>
    rw [List.cons_append, List.cons_append, squeezeFrom_inside (by decide),
      squeezeFrom_inside (by decide)]
    exact congrArg (fun t => '\\' :: d :: t) ih
  | @plain c cs hq hb _ ih =>
    have hstep : Nesting.step .string c = .string := by simp [Nesting.step, hq, hb]
    rw [List.cons_append, squeezeFrom_inside (by decide), hstep, ih]
    rfl

/-- So a squeezed text with a string in it comes from a text with that string. -/
theorem of_squeezeFrom_string {body t : List Char} (h : StringText body) {cs : List Char}
    (hcs : squeezeFrom .string false cs = body ++ '"' :: t) :
    ∃ rest, cs = body ++ '"' :: rest ∧ squeezeFrom .code false rest = t := by
  have first {n : Nesting} (hn : n ≠ .code) {cs : List Char} {ch : Char} {t : List Char}
      (h : squeezeFrom n false cs = ch :: t) :
      ∃ rest, cs = ch :: rest ∧ squeezeFrom (n.step ch) false rest = t := by
    cases cs with
    | nil => cases h
    | cons d cs =>
      rw [squeezeFrom_inside hn] at h
      obtain ⟨rfl, rfl⟩ := List.cons.inj h
      exact ⟨cs, rfl, rfl⟩
  induction h generalizing cs with
  | nil => exact first (by decide) hcs
  | escape d _ ih =>
    obtain ⟨cs₁, rfl, hcs₁⟩ := first (by decide) hcs
    obtain ⟨cs₂, rfl, hcs₂⟩ := first (by decide) hcs₁
    obtain ⟨rest, rfl, hrest⟩ := ih hcs₂
    exact ⟨rest, rfl, hrest⟩
  | @plain c _ hq hb _ ih =>
    obtain ⟨cs₁, rfl, hcs₁⟩ := first (by decide) hcs
    have hstep : Nesting.step .string c = .string := by simp [Nesting.step, hq, hb]
    obtain ⟨rest, rfl, hrest⟩ := ih (hstep ▸ hcs₁)
    exact ⟨rest, rfl, hrest⟩

end Squeeze

/-! ## 2. Cursors in front of the same text -/

/-- Two cursors, in texts of `size` and `size'` bytes, in front of texts that squeeze to the same
    text. -/
structure Respaced (size size' : Nat) (c c' : Cursor) : Prop where
  text : squeezeFrom .code false c.rest = squeezeFrom .code false c'.rest
  stop : c.offset + byteCount c.rest = size
  stop' : c'.offset + byteCount c'.rest = size'

namespace Respaced

variable {size size' : Nat} {c c' b b' : Cursor}

theorem symm (h : Respaced size size' c c') : Respaced size' size c' c := ⟨h.text.symm, h.stop', h.stop⟩

/-- Where the reading goes on behind something it has read. -/
theorem behind (h : Respaced size size' c c') {read read' : List Char} (hb : c.Past read b)
    (hb' : c'.Past read' b')
    (htext : squeezeFrom .code false b.rest = squeezeFrom .code false b'.rest) :
    Respaced size size' b b' :=
  ⟨htext, hb.stop.trans h.stop, hb'.stop.trans h.stop'⟩

theorem spaces (h : Respaced size size' c c') : Respaced size size' c.skipSpaces c'.skipSpaces := by
  refine h.behind (c.span_past _) (c'.span_past _) ?_
  show squeezeFrom .code false (dropSpaces c.rest) = squeezeFrom .code false (dropSpaces c'.rest)
  rw [← dropSpaces_squeezeFrom false, ← dropSpaces_squeezeFrom false, h.text]

theorem span (h : Respaced size size' c c') {p : Char → Bool} (hspace : p ' ' = false)
    (hquote : p '"' = false) :
    (c.span p).1 = (c'.span p).1 ∧ Respaced size size' (c.span p).2 (c'.span p).2 := by
  obtain ⟨hrun, hrest⟩ := squeezeFrom_takeWhile hspace hquote c.rest
  obtain ⟨hrun', hrest'⟩ := squeezeFrom_takeWhile hspace hquote c'.rest
  refine ⟨?_, h.behind (c.span_past p) (c'.span_past p) ?_⟩
  · exact hrun.symm.trans ((congrArg _ h.text).trans hrun')
  · exact hrest.symm.trans ((congrArg _ h.text).trans hrest')

theorem run? (h : Respaced size size' c c') {p : Char → Bool} (hspace : p ' ' = false)
    (hquote : p '"' = false) :
    Option.Rel (fun t t' => t.1 = t'.1 ∧ Respaced size size' t.2 t'.2) (c.run? p) (c'.run? p) := by
  obtain ⟨hrun, hrest⟩ := h.span hspace hquote
  rw [Cursor.run?_eq, Cursor.run?_eq, ← hrun]
  split
  · exact .none
  · exact .some ⟨rfl, hrest⟩

/-- Where one text goes on with a character, so does the other. -/
theorem eat? (h : Respaced size size' c c') {ch : Char} (hch : ch ≠ ' ') (hb : c.eat? ch = some b) :
    ∃ b', c'.eat? ch = some b' ∧ squeezeFrom (Nesting.step .code ch) false b.rest =
      squeezeFrom (Nesting.step .code ch) false b'.rest := by
  have htext := h.text
  rw [(Cursor.eat?_eq_some.mp hb).1, List.singleton_append, squeezeFrom_cons hch] at htext
  obtain ⟨rest, hrest, htail⟩ := of_squeezeFrom_cons hch htext.symm
  obtain ⟨b', hb', rfl⟩ := Cursor.eat?_of_rest hrest
  exact ⟨b', hb', htail.symm⟩

theorem character (h : Respaced size size' c c') (ch : Char) (hspace : ch ≠ ' ') (hquote : ch ≠ '"') :
    Option.Rel (Respaced size size') (c.eat? ch) (c'.eat? ch) := by
  have hstep : Nesting.step .code ch = .code := if_neg hquote
  cases he : c.eat? ch with
  | some b =>
    obtain ⟨b', he', htext⟩ := h.eat? hspace he
    rw [hstep] at htext
    rw [he']
    exact .some (h.behind (Cursor.eat?_eq_some.mp he) (Cursor.eat?_eq_some.mp he') htext)
  | none =>
    cases he' : c'.eat? ch with
    | none => exact .none
    | some b' =>
      obtain ⟨b, hb, _⟩ := h.symm.eat? hspace he'
      cases he.symm.trans hb

theorem sign (h : Respaced size size' c c') :
    c.sign.1 = c'.sign.1 ∧ Respaced size size' c.sign.2 c'.sign.2 := by
  have sign_eq (c : Cursor) : c.sign =
      match c.eat? '+', c.eat? '-' with
      | some b, _ => (['+'], b)
      | none, some b => (['-'], b)
      | none, none => ([], c) := by
    obtain ⟨rest, o⟩ := c
    cases rest with
    | nil => rfl
    | cons d rest =>
      by_cases hplus : d = '+'
      · subst hplus
        rfl
      by_cases hminus : d = '-'
      · subst hminus
        rfl
      · simp [Cursor.sign, Cursor.eat?, hplus, hminus]
  rw [sign_eq c, sign_eq c']
  rcases rel_cases (h.character '+' (by decide) (by decide)) with
    ⟨e, e'⟩ | ⟨b, b', e, e', hb⟩
  · rcases rel_cases (h.character '-' (by decide) (by decide)) with
      ⟨f, f'⟩ | ⟨b, b', f, f', hb⟩
    · rw [e, e', f, f']
      exact ⟨rfl, h⟩
    · rw [e, e', f, f']
      exact ⟨rfl, hb⟩
  · rw [e, e']
    exact ⟨rfl, hb⟩

theorem numeral? (h : Respaced size size' c c') :
    Option.Rel (fun t t' => t.1 = t'.1 ∧ Respaced size size' t.2 t'.2) c.numeral? c'.numeral? := by
  obtain ⟨hsign, hbehind⟩ := h.sign
  obtain ⟨hrun, hrest⟩ := hbehind.span (p := Char.isDigit) (by decide) (by decide)
  rw [Cursor.numeral?_eq, Cursor.numeral?_eq, ← hrun, ← hsign]
  split
  · exact .none
  · exact .some ⟨rfl, hrest⟩

/-- A string that is closed in one text is closed in the other. -/
theorem stringBody (h : Respaced size size' c c') (hb : c.eat? '"' = some b) (hb' : c'.eat? '"' = some b')
    {body : List Char} {e : Cursor} (hbody : b.stringBody = .ok (body, e)) :
    ∃ e', b'.stringBody = .ok (body, e') ∧ Respaced size size' e e' := by
  obtain ⟨b'', hb'', htext⟩ := h.eat? (by decide) hb
  obtain rfl : b' = b'' := Option.some.inj (hb'.symm.trans hb'')
  obtain ⟨hstring, hpast⟩ := Cursor.stringBody_eq_ok hbody
  have hinside : Nesting.step .code '"' = .string := by decide
  rw [hinside, hpast.1, List.append_assoc, List.singleton_append,
    squeezeFrom_string hstring] at htext
  obtain ⟨rest, hrest, htail⟩ := of_squeezeFrom_string hstring htext.symm
  have hbody' : b'.stringBody = .ok (body, ⟨rest, b'.offset + byteCount body + 1⟩) := by
    rw [← Cursor.stringBody_of_text hstring, ← hrest]
  exact ⟨_, hbody', h.behind ((Cursor.eat?_eq_some.mp hb).trans hpast)
    ((Cursor.eat?_eq_some.mp hb').trans (Cursor.stringBody_eq_ok hbody').2) htail.symm⟩

/-- Behind the spaces, both texts go on with the same character. -/
theorem head (h : Respaced size size' c c') (hs : c.skipSpaces = c) (hs' : c'.skipSpaces = c') :
    c.rest.head? = c'.rest.head? := by
  have squeezed {c : Cursor} (hs : c.skipSpaces = c) :
      (squeezeFrom .code false c.rest).head? = c.rest.head? := by
    have hhead := c.skipSpaces_head
    rw [hs] at hhead
    cases hrest : c.rest with
    | nil => rfl
    | cons ch rest => rw [squeezeFrom_cons (hhead ch (by simp [hrest]))]; rfl
  rw [← squeezed hs, ← squeezed hs', h.text]

end Respaced

/-- In a text that ends with the author's, the author sees the next character. -/
theorem Reading.seen_eq {r : Reading} {c : Cursor} (h : c.offset + byteCount c.rest = r.source.size) :
    r.seen c = c.rest.head?.elim .endOfText .char := by
  unfold Reading.seen
  cases hrest : c.rest with
  | nil =>
    simp only [hrest, byteCount_nil, Int.natCast_zero, Int.add_zero] at h
    rw [if_pos h]
    rfl
  | cons ch rest =>
    have hpos := Char.utf8Size_pos ch
    rw [hrest, byteCount_cons] at h
    rw [if_neg (by omega)]
    rfl

theorem Respaced.seen {r r' : Reading} {c c' : Cursor} (h : Respaced r.source.size r'.source.size c c')
    (hs : c.skipSpaces = c) (hs' : c'.skipSpaces = c') : r.seen c = r'.seen c' := by
  rw [Reading.seen_eq h.stop, Reading.seen_eq h.stop', h.head hs hs']

/-! ## 3. Lines -/

/-- Two readings of texts that squeeze to the same text: their trees have the same shape, and their
    faults are the same, wherever they are. -/
def Link.respaced (size size' : Nat) : Link where
  cursor _ := Respaced size size'
  place _ _ := True
  tree e e' := e.sameShape e' = true
  fault e e' := e.fault = e'.fault
  waived _ := False

/-- **Such texts are read in step.** -/
theorem respaced_inStep {r r' : Reading} (hlimit : r.limit = r'.limit) :
    InStep (.respaced r.source.size r'.source.size) r r' 0 where
  spaces h := h.spaces
  operator h := h.run? (by decide) (by decide)
  word h := h.run? (by decide) (by decide)
  numeral h := h.numeral?
  symbol := by
    intro d c c' ch h hch
    have hne : ch ≠ ' ' ∧ ch ≠ '"' := by
      refine ⟨?_, ?_⟩ <;>
        · rintro rfl
          revert hch
          decide
    exact h.character ch hne.1 hne.2
  enter h := h.character '(' (by decide) (by decide)
  leave h := h.character ')' (by decide) (by decide)
  string := by
    intro d c c' h
    cases hb : c.eat? '"' with
    | none =>
      cases hb' : c'.eat? '"' with
      | none => exact .none
      | some b' =>
        obtain ⟨b, hsome, _⟩ := h.symm.eat? (by decide) hb'
        cases hb.symm.trans hsome
    | some b =>
      obtain ⟨b', hb', _⟩ := h.eat? (by decide) hb
      rw [hb']
      refine .some ?_
      unfold Reading.string
      cases hbody : b.stringBody with
      | ok t =>
        obtain ⟨e', hbody', hrespaced⟩ := h.stringBody hb hb' hbody
        rw [hbody']
        exact .ok (.some ⟨by simp [Link.respaced, Expr.sameShape], hrespaced⟩)
      | error stop =>
        cases hbody' : b'.stringBody with
        | error stop' => exact .error rfl
        | ok t' =>
          obtain ⟨e, hclosed, _⟩ := h.symm.stringBody hb' hb hbody'
          cases hbody.symm.trans hclosed
  pos _ := trivial
  start _ := trivial
  number _ := by simp [Link.respaced, Expr.sameShape]
  name _ _ := by simp [Link.respaced, Expr.sameShape]
  builtin _ _ := by simp [Link.respaced, Expr.sameShape]
  lambda _ _ hb := by simpa [Link.respaced, Expr.sameShape] using hb
  apply _ hf ha := by simpa [Link.respaced, Expr.sameShape] using ⟨hf, ha⟩
  missing h hs hs' _ := congrArg (ParseFault.unexpected · _) (h.seen hs hs')
  badToken _ _ := rfl
  deep _ := .error (congrArg ParseFault.tooDeep hlimit)

/-! ## 4. Programs -/

/-- A line begins behind its spaces. -/
theorem Reading.line_of_skipSpaces (r : Reading) (n : Nat) (c : Cursor) :
    r.line (n + 1) c.skipSpaces = r.line (n + 1) c := by
  simp only [line, flatLine, Cursor.skipSpaces_skipSpaces]

/-- Whole texts that squeeze to the same text without leaving out the spaces in front. -/
theorem Respaced.whole {source source' : Source} {c c' : Cursor}
    (h : Respaced source.size source'.size c c') (depth : Nat) :
    (Link.respaced source.size source'.size).Outcome (fun e e' => e.sameShape e' = true)
      ((⟨source, depth⟩ : Reading).whole c) ((⟨source', depth⟩ : Reading).whole c') := by
  set r : Reading := ⟨source, depth⟩
  set r' : Reading := ⟨source', depth⟩
  have hout := (@respaced_inStep r r' rfl).line depth 0 c c' h
  rw [Nat.add_zero] at hout
  revert hout
  generalize hline : r.line depth c = x
  generalize hline' : r'.line depth c' = y
  intro hout
  cases hout with
  | error he =>
    rw [Reading.whole, Reading.whole, show r.line r.limit c = _ from hline,
      show r'.line r'.limit c' = _ from hline']
    exact .error he
  | waived hw => exact hw.elim
  | @ok t t' hl =>
    obtain ⟨x, b⟩ := t
    obtain ⟨x', b'⟩ := t'
    obtain ⟨hx, hb⟩ := hl
    have hs := Reading.line_skipSpaces hline
    have hs' := Reading.line_skipSpaces hline'
    have hseen : r.seen b = r'.seen b' := Respaced.seen hb hs hs'
    have hend : b.rest = [] ↔ b'.rest = [] := by
      rw [← List.head?_eq_none_iff, ← List.head?_eq_none_iff, hb.head hs hs']
    rw [Reading.whole_of_line hline, Reading.whole_of_line hline']
    by_cases hrest : b.rest = []
    · rw [if_neg (not_not.mpr hrest), if_neg (not_not.mpr (hend.mp hrest))]
      cases hx with
      | none => exact .error (congrArg (ParseFault.unexpected · _) hseen)
      | some ht => exact .ok ht
    · rw [if_pos hrest, if_pos (mt hend.mpr hrest)]
      exact .error (congrArg ParseFault.trailing hseen)

/-- A whole text is read from behind the spaces in front of it, if there are levels at all. -/
theorem Reading.whole_of_skipSpaces {r : Reading} (hlimit : 0 < r.limit) (c : Cursor) :
    r.whole c.skipSpaces = r.whole c := by
  obtain ⟨n, hn⟩ : ∃ n, r.limit = n + 1 := ⟨r.limit - 1, by omega⟩
  rw [whole, whole, hn, line_of_skipSpaces]

/-- **Layout and comments carry no meaning.** Two texts that blank to the same text, up to the number
    of spaces in each run outside strings and to spaces at the ends, are both read, as trees of one
    shape, or both refused for the same reason. -/
theorem parse_of_squeeze_eq (source source' : Source)
    (h : squeeze (blankText source.chars) = squeeze (blankText source'.chars)) (depth : Nat) :
    (∃ e e', parse source [] depth = .ok e ∧ parse source' [] depth = .ok e' ∧
        e.sameShape e' = true) ∨
      ∃ e e', parse source [] depth = .error e ∧ parse source' [] depth = .error e' ∧
        e.fault = e'.fault := by
  have hstop (source : Source) :
      (⟨blankText source.chars, 0⟩ : Cursor).skipSpaces.offset +
        byteCount (⟨blankText source.chars, 0⟩ : Cursor).skipSpaces.rest = source.size := by
    obtain ⟨_, hpast⟩ := (⟨blankText source.chars, 0⟩ : Cursor).skipSpaces_past
    rw [hpast.stop, Int.zero_add, blankText, byteCount_blankFrom]
    rfl
  rw [parse_nil, parse_nil]
  cases depth with
  | zero => exact .inr ⟨_, _, rfl, rfl, rfl⟩
  | succ n =>
    have hrespaced : Respaced source.size source'.size
        (⟨blankText source.chars, 0⟩ : Cursor).skipSpaces
        (⟨blankText source'.chars, 0⟩ : Cursor).skipSpaces :=
      ⟨h, hstop source, hstop source'⟩
    have hout := hrespaced.whole (n + 1)
    rw [Reading.whole_of_skipSpaces (Nat.succ_pos n),
      Reading.whole_of_skipSpaces (Nat.succ_pos n)] at hout
    revert hout
    generalize (⟨source, n + 1⟩ : Reading).whole ⟨blankText source.chars, 0⟩ = x
    generalize (⟨source', n + 1⟩ : Reading).whole ⟨blankText source'.chars, 0⟩ = y
    intro hout
    cases hout with
    | ok ht => exact .inl ⟨_, _, rfl, rfl, ht⟩
    | error he => exact .inr ⟨_, _, rfl, rfl, he⟩
    | waived hw => exact hw.elim

/-- A sum on one line, and the same sum over several lines with comments. The spaces in the string
    are the same. -/
theorem parse_of_squeeze_eq_lines :
    ∃ e e', parse ⟨"main", "f \"a  # b\" + 1"⟩ [] 3 = .ok e ∧
      parse ⟨"main", " f # first\n\t\"a  # b\"  +\n# then\n1 # \" done"⟩ [] 3 = .ok e' ∧
      e.sameShape e' = true := by
  have hread : (parse ⟨"main", "f \"a  # b\" + 1"⟩ [] 3).toBool = true := by decide +kernel
  rcases parse_of_squeeze_eq ⟨"main", "f \"a  # b\" + 1"⟩
      ⟨"main", " f # first\n\t\"a  # b\"  +\n# then\n1 # \" done"⟩ (by decide +kernel) 3 with
    hok | ⟨e, _, hfail, _⟩
  · exact hok
  · rw [hfail] at hread
    cases hread

end CallByNeed
