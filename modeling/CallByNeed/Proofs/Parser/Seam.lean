/-
  File:      CallByNeed/Proofs/Parser/Seam.lean
  Subject:   A text that stands in parentheses in a larger text.

  A balanced text never reaches for the parenthesis behind it, so it is read there as it is read
  alone. Only at its very end do the two readings part: one meets the end of the text, the other a
  closing parenthesis.

  * `Expr.Each`, `Expr.mapPos` -- the places of a tree, and the tree at other places;
  * `Within` -- a cursor in a balanced text of a known size;
  * `Link.placed`, `placed_inStep` -- a text alone and in parentheses, in step;
  * `line_in_parens`, `line_elsewhere` -- lines of the author's text, and of a text put elsewhere;
  * `LoneOperator`, `SeamFault`, `Reading.term?_inParens` -- a program in parentheses is a term
    exactly if it is a program, or an operator alone; the faults of the one and of the other.
-/
import CallByNeed.Proofs.Parser.Balance
import CallByNeed.Proofs.Parser.Written

namespace CallByNeed

/-! ## 1. Places of a tree -/

namespace Expr

/-- Every node of a tree stands at such a place. -/
def Each (q : Pos → Prop) : Expr → Prop
  | .number p _ | .string p _ | .name p _ | .builtin p _ => q p
  | .lambda p _ body => q p ∧ body.Each q
  | .apply p func arg => q p ∧ func.Each q ∧ arg.Each q

/-- The tree with its nodes at other places. -/
def mapPos (f : Pos → Pos) : Expr → Expr
  | .number p n => .number (f p) n
  | .string p s => .string (f p) s
  | .name p x => .name (f p) x
  | .builtin p x => .builtin (f p) x
  | .lambda p x body => .lambda (f p) x (body.mapPos f)
  | .apply p func arg => .apply (f p) (func.mapPos f) (arg.mapPos f)

theorem pos_mapPos (f : Pos → Pos) (e : Expr) : (e.mapPos f).pos = f e.pos := by
  cases e <;> rfl

theorem mapPos_id (e : Expr) : e.mapPos id = e := by
  induction e <;> simp_all [mapPos]

theorem sameShape_mapPos (f : Pos → Pos) (e : Expr) : (e.mapPos f).sameShape e = true := by
  induction e <;> simp_all [mapPos, sameShape]

theorem each_pos {q : Pos → Prop} {e : Expr} (h : e.Each q) : q e.pos := by
  cases e with
  | number | string | name | builtin => exact h
  | lambda | apply => exact h.1

theorem each_mapPos {q : Pos → Prop} {f : Pos → Pos} {e : Expr} (h : e.Each fun p => q (f p)) :
    (e.mapPos f).Each q := by
  induction e with
  | number | string | name | builtin => exact h
  | lambda p x body ih => exact ⟨h.1, ih h.2⟩
  | apply p func arg ihf iha => exact ⟨h.1, ihf h.2.1, iha h.2.2⟩

theorem each_imp {q q' : Pos → Prop} (himp : ∀ p, q p → q' p) {e : Expr} (h : e.Each q) :
    e.Each q' := by
  induction e with
  | number | string | name | builtin => exact himp _ h
  | lambda p x body ih => exact ⟨himp _ h.1, ih h.2⟩
  | apply p func arg ihf iha => exact ⟨himp _ h.1, ihf h.2.1, iha h.2.2⟩

end Expr

/-! ## 2. A text alone and in parentheses -/

/-- The cursor stands in a balanced text of `size` bytes, with `d` parentheses open. -/
structure Within (size : Nat) (d : Nat) (c : Cursor) : Prop where
  balanced : Balanced d c.rest
  start : 0 ≤ c.offset
  stop : c.offset + byteCount c.rest = size

/-- A place in a text of `size` bytes, or right behind it. -/
def InText (size : Nat) (p : Pos) : Prop := 0 ≤ p.offset ∧ p.offset ≤ size

theorem Within.pos {size d : Nat} {c : Cursor} (h : Within size d c) (r : Reading) :
    InText size (r.pos c) := by
  have hstart := h.start
  have hstop := h.stop
  refine ⟨hstart, ?_⟩
  show c.offset ≤ size
  omega

/-- Outside all parentheses there is none to close. -/
theorem Within.eat?_close {size : Nat} {c : Cursor} (h : Within size 0 c) : c.eat? ')' = none := by
  cases he : c.eat? ')' with
  | none => rfl
  | some c' =>
    have hb := h.balanced
    rw [(Cursor.eat?_eq_some.mp he).1] at hb
    exact absurd hb not_balanced_close

theorem kept_within (size : Nat) : Kept (Within size) := by
  have behind {c c' : Cursor} {read : List Char} {d d' : Nat} (h : Within size d c)
      (hpast : c.Past read c') (hbal : Balanced d (read ++ c'.rest) → Balanced d' c'.rest) :
      Within size d' c' := by
    obtain ⟨hrest, hoff⟩ := hpast
    obtain ⟨hb, hstart, hstop⟩ := h
    rw [hrest] at hb hstop
    rw [byteCount_append] at hstop
    exact ⟨hbal hb, by omega, by omega⟩
  exact {
    bare := fun h hpast hbare => behind h hpast (balanced_bare hbare).mp
    enter := fun h hpast => behind h hpast balanced_open.mp
    leave := fun h hpast => behind h hpast balanced_close.mp
    string := fun h htext hpast => behind h hpast fun hb => by
      rw [List.cons_append, List.append_assoc] at hb
      exact (balanced_string htext).mp hb }

/-- What a text of `size` bytes has in common with the same text in front of a parenthesis, where
    it stands `shift` bytes further on and its places are moved. -/
def Link.placed (size : Nat) (more : List Char) (shift : Int) (move : Pos → Pos)
    (fault : At ParseFault → At ParseFault → Prop) : Link where
  cursor d c c' := c' = c.placed (')' :: more) shift ∧ Within size d c
  place p p' := p' = move p ∧ InText size p
  tree e e' := e' = e.mapPos move ∧ e.Each (InText size)
  fault := fault
  waived _ := False

/-- **A balanced text is read in front of a parenthesis as it is read alone**, whatever is to be said
    about faults. -/
theorem placed_inStep {size : Nat} {more : List Char} {shift : Int} {move : Pos → Pos}
    {fault : At ParseFault → At ParseFault → Prop} {r r' : Reading}
    (hmove : ∀ c, r'.pos (c.placed (')' :: more) shift) = move (r.pos c))
    (hmissing : ∀ d c x, Within size d c → x ≠ .expression →
      fault ⟨.unexpected (r.seen c) x, r.pos c⟩
        ⟨.unexpected (r'.seen (c.placed (')' :: more) shift)) x,
          r'.pos (c.placed (')' :: more) shift)⟩)
    (hbad : ∀ d c f, Within size d c → (f = .missingBuiltinName ∨ ∃ t, f = .numberOutOfRange t) →
      fault ⟨f, r.pos c⟩ ⟨f, r'.pos (c.placed (')' :: more) shift)⟩)
    (hdeep : ∀ d c, Within size d c →
      fault ⟨.tooDeep r.limit, r.pos c⟩ ⟨.tooDeep r'.limit, r'.pos (c.placed (')' :: more) shift)⟩) :
    InStep (.placed size more shift move fault) r r' 0 where
  spaces := by
    rintro d c _ ⟨rfl, h⟩
    exact ⟨Cursor.skipSpaces_placed c, (kept_within size).spaces h⟩
  operator := by
    rintro d c _ ⟨rfl, h⟩
    rw [Cursor.operator?, Cursor.operator?, Cursor.run?_placed (by decide)]
    cases hop : c.run? isOperatorChar with
    | none => exact .none
    | some t => exact .some ⟨rfl, rfl, (kept_within size).operator h hop⟩
  word := by
    rintro d c _ ⟨rfl, h⟩
    rw [Cursor.word?, Cursor.word?, Cursor.run?_placed (by decide)]
    cases hop : c.run? isNameChar with
    | none => exact .none
    | some t => exact .some ⟨rfl, rfl, (kept_within size).word h hop⟩
  numeral := by
    rintro d c _ ⟨rfl, h⟩
    rw [Cursor.numeral?_placed]
    cases hn : c.numeral? with
    | none => exact .none
    | some t => exact .some ⟨rfl, rfl, (kept_within size).numeral h hn⟩
  symbol := by
    rintro d c _ ch ⟨rfl, h⟩ hch
    have hne : ch ≠ ')' := by
      rintro rfl
      revert hch
      decide
    rw [Cursor.eat?_placed c (.inl hne)]
    cases he : c.eat? ch with
    | none => exact .none
    | some c₁ => exact .some ⟨rfl, (kept_within size).symbol h hch he⟩
  enter := by
    rintro d c _ ⟨rfl, h⟩
    rw [Cursor.eat?_placed c (.inl (by decide))]
    cases he : c.eat? '(' with
    | none => exact .none
    | some c₁ => exact .some ⟨rfl, (kept_within size).enter h (Cursor.eat?_eq_some.mp he)⟩
  leave := by
    rintro d c _ ⟨rfl, h⟩
    -- an open parenthesis has its partner in the text itself
    have hne : c.rest ≠ [] := by
      intro hnil
      have hb := h.balanced
      rw [hnil, balanced_nil] at hb
      cases hb
    rw [Cursor.eat?_placed c (.inr hne)]
    cases he : c.eat? ')' with
    | none => exact .none
    | some c₁ => exact .some ⟨rfl, (kept_within size).leave h (Cursor.eat?_eq_some.mp he)⟩
  string := by
    rintro d c _ ⟨rfl, h⟩
    rw [Cursor.eat?_placed c (.inl (by decide))]
    cases he : c.eat? '"' with
    | none => exact .none
    | some b =>
      -- so has a quote
      have hrest := (Cursor.eat?_eq_some.mp he).1
      have hb := h.balanced
      rw [hrest, List.singleton_append] at hb
      obtain ⟨body, rest, htext, hclosed⟩ := exists_string_of_balanced hb
      have hbody : b.stringBody = .ok (body, ⟨rest, b.offset + byteCount body + 1⟩) := by
        rw [← Cursor.stringBody_of_text htext, ← hclosed]
      have hbody' : (b.placed (')' :: more) shift).stringBody = _ := Cursor.stringBody_placed hbody
      refine .some ?_
      simp only [Reading.string, hbody, hbody', hmove]
      exact .ok (.some ⟨⟨rfl, h.pos r⟩, rfl, ((kept_within size).quoted h he hbody).1⟩)
  pos := by
    rintro d c _ ⟨rfl, h⟩
    exact ⟨hmove c, h.pos r⟩
  start := by
    rintro e _ ⟨rfl, h⟩
    exact ⟨e.pos_mapPos move, e.each_pos h⟩
  number := by
    rintro p _ n ⟨rfl, h⟩
    exact ⟨rfl, h⟩
  name := by
    rintro p _ x ⟨rfl, h⟩ _
    exact ⟨rfl, h⟩
  builtin := by
    rintro p _ x ⟨rfl, h⟩ _
    exact ⟨rfl, h⟩
  lambda := by
    rintro p _ x b _ ⟨rfl, h⟩ _ ⟨rfl, hb⟩
    exact ⟨rfl, h, hb⟩
  apply := by
    rintro p _ f _ a _ ⟨rfl, h⟩ ⟨rfl, hf⟩ ⟨rfl, ha⟩
    exact ⟨rfl, h, hf, ha⟩
  missing := by
    rintro d c _ x ⟨rfl, h⟩ _ _ hx
    exact hmissing d c x h hx
  badToken := by
    rintro d c _ f ⟨rfl, h⟩ hf
    exact hbad d c f h hf
  deep := by
    rintro d c _ ⟨rfl, h⟩
    exact .error (hdeep d c h)

/-! ## 3. Lines -/

/-- Faults of lines. A whole program has two more: something behind it, and nothing at all. -/
def ParseFault.OfLine : ParseFault → Prop
  | .trailing _ | .unexpected _ .expression => False
  | _ => True

theorem pos_placed (r : Reading) (c : Cursor) (back : List Char) :
    r.pos (c.placed back 0) = r.pos c := by
  simp [Reading.pos, Cursor.placed]

/-- The author sees the same under both cursors. -/
theorem seen_placed {r : Reading} {d : Nat} {c : Cursor} (h : Within r.source.size d c)
    (back : List Char) : r.seen (c.placed back 0) = r.seen c := by
  obtain ⟨rest, o⟩ := c
  cases rest with
  | nil =>
    have hstop := h.stop
    simp only [byteCount_nil, Int.natCast_zero, Int.add_zero] at hstop
    simp [Reading.seen, Cursor.placed, hstop]
  | cons ch rest => simp [Reading.seen, Cursor.placed]

theorem line_before_paren {r : Reading} {d : Nat} {c : Cursor} (h : Within r.source.size d c) (n : Nat)
    (more : List Char) :
    (∃ x c', r.line n c = .ok (x, c') ∧
        r.line n (c.placed (')' :: more) 0) = .ok (x, c'.placed (')' :: more) 0) ∧
        Within r.source.size d c' ∧ ∀ e, x = some e → e.Each (InText r.source.size)) ∨
      ∃ e, r.line n c = .error e ∧ r.line n (c.placed (')' :: more) 0) = .error e ∧
        InText r.source.size e.pos ∧ e.fault.OfLine := by
  have hmove (c : Cursor) : r.pos (c.placed (')' :: more) 0) = id (r.pos c) := pos_placed r c _
  have hK : InStep (.placed r.source.size more 0 id fun e e' =>
      e' = e ∧ InText r.source.size e.pos ∧ e.fault.OfLine) r r 0 :=
    placed_inStep hmove
      (fun d c x h hx => ⟨by rw [seen_placed h, hmove]; rfl, h.pos r, by cases x <;> trivial⟩)
      (fun d c f h hf => ⟨by rw [hmove]; rfl, h.pos r, by rcases hf with rfl | ⟨t, rfl⟩ <;> trivial⟩)
      (fun d c h => ⟨by rw [hmove]; rfl, h.pos r, trivial⟩)
  have hout := hK.line n d c _ ⟨rfl, h⟩
  rw [Nat.add_zero] at hout
  revert hout
  generalize r.line n c = x
  generalize r.line n (c.placed (')' :: more) 0) = y
  intro hout
  cases hout with
  | error he =>
    obtain ⟨rfl, hpos, hfault⟩ := he
    exact .inr ⟨_, rfl, rfl, hpos, hfault⟩
  | waived he => exact he.elim
  | @ok a b hl =>
    left
    obtain ⟨x, c₁⟩ := a
    obtain ⟨y, c₂⟩ := b
    obtain ⟨hrel, hc, hwithin⟩ := hl
    simp only at hrel hc hwithin
    cases hrel with
    | none => exact ⟨none, c₁, rfl, by rw [hc], hwithin, nofun⟩
    | some ht =>
      refine ⟨_, c₁, rfl, by rw [hc, ht.1, Expr.mapPos_id], hwithin, ?_⟩
      rintro e ⟨⟩
      exact ht.2

/-- **A line of the author's text, alone and in front of a parenthesis.** -/
theorem line_in_parens {r : Reading} {d : Nat} {c : Cursor} (h : Within r.source.size d c) (n : Nat) :
    (∃ x c', r.line n c = .ok (x, c') ∧
        (∀ more, r.line n (c.placed (')' :: more) 0) = .ok (x, c'.placed (')' :: more) 0)) ∧
        Within r.source.size d c' ∧ ∀ e, x = some e → e.Each (InText r.source.size)) ∨
      ∃ e, r.line n c = .error e ∧ (∀ more, r.line n (c.placed (')' :: more) 0) = .error e) ∧
        InText r.source.size e.pos ∧ e.fault.OfLine := by
  rcases line_before_paren h n [] with ⟨x, c', hline, _, hkept⟩ | ⟨e, hline, _, hfault⟩
  · refine .inl ⟨x, c', hline, fun more => ?_, hkept⟩
    rcases line_before_paren h n more with ⟨_, _, hline', hmore, _⟩ | ⟨_, hline', _⟩
    · cases hline.symm.trans hline'
      exact hmore
    · cases hline.symm.trans hline'
  · refine .inr ⟨e, hline, fun more => ?_, hfault⟩
    rcases line_before_paren h n more with ⟨_, _, hline', _⟩ | ⟨_, hline', hmore, _⟩
    · cases hline.symm.trans hline'
    · cases hline.symm.trans hline'
      exact hmore

/-- **A line that is read alone is read wherever it is put in front of a parenthesis**, as a tree of
    the same shape. -/
theorem line_elsewhere {r : Reading} {size d n : Nat} {c c' : Cursor} {e : Expr}
    (h : Within size d c) (hline : r.line n c = .ok (some e, c')) (r' : Reading) (more : List Char)
    (shift : Int) :
    ∃ e', r'.line n (c.placed (')' :: more) shift) = .ok (some e', c'.placed (')' :: more) shift) ∧
      e'.sameShape e = true ∧ e'.Each fun p => p.source = r'.source ∧ shift ≤ p.offset := by
  have hK : InStep (.placed size more shift (fun p => ⟨r'.source, p.offset + shift⟩)
      fun _ _ => True) r r' 0 :=
    placed_inStep (fun _ => rfl) (fun _ _ _ _ _ => trivial) (fun _ _ _ _ _ => trivial)
      fun _ _ _ => trivial
  have hout := hK.line n d c _ ⟨rfl, h⟩
  rw [Nat.add_zero, hline] at hout
  revert hout
  generalize r'.line n (c.placed (')' :: more) shift) = y
  intro hout
  cases hout with
  | @ok _ b hl =>
    obtain ⟨y, c₂⟩ := b
    obtain ⟨hrel, hc, _⟩ := hl
    simp only at hrel hc
    cases hrel with
    | some ht =>
      refine ⟨_, by rw [hc, ht.1], e.sameShape_mapPos _, Expr.each_mapPos ?_⟩
      refine Expr.each_imp (fun p hp => ⟨rfl, ?_⟩) ht.2
      have hpos := hp.1
      show shift ≤ p.offset + shift
      omega

/-! ## 4. The seam -/

/-- An operator alone in a text, but for spaces. -/
def LoneOperator (c : Cursor) (op : String) : Prop :=
  ∃ c', c.skipSpaces.operator? = some (op, c') ∧ c'.skipSpaces.rest = []

theorem LoneOperator.text {c : Cursor} {op : String} (h : LoneOperator c op) :
    Spelled isOperatorChar op ∧
      ∃ i j, c.rest = List.replicate i ' ' ++ op.toList ++ List.replicate j ' ' := by
  obtain ⟨c', hop, hend⟩ := h
  have spaces (c : Cursor) : ∃ i, c.rest = List.replicate i ' ' ++ c.skipSpaces.rest := by
    have hrun : (c.span (· == ' ')).1 = List.replicate (c.span (· == ' ')).1.length ' ' :=
      List.eq_replicate_of_mem fun ch hch => by simpa using List.mem_takeWhile_imp hch
    exact ⟨_, by rw [← hrun]; exact (c.span_append (· == ' ')).symm⟩
  obtain ⟨i, hi⟩ := spaces c
  obtain ⟨j, hj⟩ := spaces c'
  obtain ⟨⟨hrest, -⟩, hspelled⟩ := Cursor.run?_eq_some hop
  refine ⟨hspelled, i, j, ?_⟩
  rw [hi, hrest, hj, hend, List.append_nil, List.append_assoc]

/-- What becomes of a fault when the end of the text is a closing parenthesis. -/
inductive SeamFault : ParseFault → ParseFault → Prop where
  | same {f : ParseFault} (h : f.OfLine) : SeamFault f f
  /-- Something behind a program stands where the parenthesis is due. -/
  | behind (seen : Seen) : SeamFault (.trailing seen) (.unexpected seen .closingParen)
  /-- Something stands in the place of a program. -/
  | instead (seen : Seen) : SeamFault (.trailing seen) (.unexpected seen .parenBody)
  /-- There is nothing in the parentheses. -/
  | nothing (seen : Seen) : SeamFault (.unexpected seen .expression) (.unexpected seen .parenBody)

/-- The text in parentheses, in front of more text. -/
def Cursor.inParens (c : Cursor) (more : List Char) : Cursor :=
  ⟨'(' :: (c.rest ++ ')' :: more), c.offset - 1⟩

theorem Cursor.eat?_inParens (c : Cursor) (more : List Char) :
    (c.inParens more).eat? '(' = some (c.placed (')' :: more) 0) := by
  rw [inParens, eat?_cons (by decide)]
  simp [placed]

namespace Reading

variable {r : Reading} {c c' : Cursor} {n : Nat}

/-- A whole program that is a line has something behind it, or is empty. -/
theorem whole_of_line {x : Option Expr} (h : r.line r.limit c = .ok (x, c')) :
    r.whole c =
      if c'.rest ≠ [] then r.fail c' (.trailing (r.seen c'))
      else match x with
        | none => r.missing c' .expression
        | some e => .ok e := by
  simp only [whole, h, bind, Except.bind, line_skipSpaces h]
  cases c'.rest with
  | cons ch rest => rfl
  | nil => cases x <;> rfl

/-- Parentheses around the author's text are the name of an operator exactly if the text is that
    operator alone. -/
theorem bracketedOperator?_inParens (h : Within r.source.size 0 c) :
    (∃ op, LoneOperator c op ∧ ∀ more,
        (c.inParens more).bracketedOperator? = some (op, ⟨more, r.source.size + 1⟩)) ∨
      ∀ more, (c.inParens more).bracketedOperator? = none := by
  have hkept := kept_within r.source.size
  have hread (more : List Char) : (c.inParens more).bracketedOperator? =
      c.skipSpaces.operator?.bind fun t =>
        ((t.2.skipSpaces.placed (')' :: more) 0).eat? ')').map (t.1, ·) := by
    simp only [Cursor.bracketedOperator?, Cursor.eat?_inParens, Option.bind_eq_bind,
      Option.bind_some, Cursor.skipSpaces_placed, Cursor.operator?,
      Cursor.run?_placed (p := isOperatorChar) (by decide), Option.bind_map]
    cases c.skipSpaces.run? isOperatorChar with
    | none => rfl
    | some t =>
      simp only [Option.bind_some, Function.comp, Cursor.skipSpaces_placed]
      cases (t.2.skipSpaces.placed (')' :: more) 0).eat? ')' <;> rfl
  cases hop : c.skipSpaces.operator? with
  | none => exact .inr fun more => by rw [hread, hop]; rfl
  | some t =>
    obtain ⟨op, c₁⟩ := t
    have hwithin := hkept.spaces (hkept.operator (hkept.spaces h) hop)
    by_cases hend : c₁.skipSpaces.rest = []
    · refine .inl ⟨op, ⟨c₁, hop, hend⟩, fun more => ?_⟩
      have hstop := hwithin.stop
      simp only [hend, byteCount_nil, Int.natCast_zero, Int.add_zero] at hstop
      rw [hread, hop, Option.bind_some, Cursor.placed, hend, List.nil_append,
        Cursor.eat?_cons (by decide), hstop]
      simp
    · refine .inr fun more => ?_
      rw [hread, hop, Option.bind_some, Cursor.eat?_placed _ (.inr hend), hwithin.eat?_close]
      rfl

section Group

variable {more : List Char} {x : Option Expr}

/-- The parentheses are empty, or hold something that is no line. -/
theorem group_nothing (hw : Within r.source.size 0 c')
    (h : r.line n (c.placed (')' :: more) 0) = .ok (none, c'.placed (')' :: more) 0)) :
    r.group (r.line n) (c.placed (')' :: more) 0) =
      .error ⟨.unexpected (r.seen c') .parenBody, r.pos c'⟩ := by
  rw [group, lineOr, h, ← pos_placed r c' (')' :: more), ← seen_placed hw (')' :: more)]
  rfl

/-- The line in the parentheses goes up to the closing one. -/
theorem group_all {u : Expr} (hw : Within r.source.size 0 c') (hend : c'.rest = [])
    (h : r.line n (c.placed (')' :: more) 0) = .ok (some u, c'.placed (')' :: more) 0)) :
    r.group (r.line n) (c.placed (')' :: more) 0) = .ok (some (u, ⟨more, r.source.size + 1⟩)) := by
  have hstop := hw.stop
  simp only [hend, byteCount_nil, Int.natCast_zero, Int.add_zero] at hstop
  have hclose : r.punctuation (c'.placed (')' :: more) 0) ')' .closingParen =
      .ok ⟨more, r.source.size + 1⟩ := by
    rw [punctuation_eq_ok, Cursor.placed, hend, List.nil_append, hstop, Int.add_zero,
      Cursor.skipSpaces_cons (by decide), Cursor.eat?_cons (by decide)]
  exact Parsed.bind_eq_ok.mpr ⟨_, lineOr_eq_ok.mpr h, Parsed.bind_eq_ok.mpr ⟨_, hclose, rfl⟩⟩

/-- The line in the parentheses ends before. -/
theorem group_more {u : Expr} (hw : Within r.source.size 0 c') (hspaces : c'.skipSpaces = c')
    (hend : c'.rest ≠ [])
    (h : r.line n (c.placed (')' :: more) 0) = .ok (some u, c'.placed (')' :: more) 0)) :
    r.group (r.line n) (c.placed (')' :: more) 0) =
      .error ⟨.unexpected (r.seen c') .closingParen, r.pos c'⟩ := by
  have hclose : r.punctuation (c'.placed (')' :: more) 0) ')' .closingParen =
      .error ⟨.unexpected (r.seen c') .closingParen, r.pos c'⟩ := by
    rw [punctuation, Cursor.skipSpaces_placed, hspaces, Cursor.eat?_placed _ (.inr hend),
      hw.eat?_close, ← pos_placed r c' (')' :: more), ← seen_placed hw (')' :: more)]
    rfl
  rw [group, lineOr_eq_ok.mpr h]
  simp only [bind, Except.bind, hclose]

end Group

/-- **A program in parentheses.** It is a term if it is a program, or an operator alone; it gives the
    same tree. If it is no program, it is no term, for the same reason at the same place, except
    where the parenthesis stands for the end of the text. -/
theorem term?_inParens (h : Within r.source.size 0 c) :
    (∃ op, LoneOperator c op ∧ ∀ more, r.term? (r.line r.limit) (c.inParens more) =
        .ok (some (.name ⟨r.source, c.offset - 1⟩ op, ⟨more, r.source.size + 1⟩))) ∨
      (∃ u, r.whole c = .ok u ∧ u.Each (InText r.source.size) ∧
        ∀ more, r.term? (r.line r.limit) (c.inParens more) =
          .ok (some (u, ⟨more, r.source.size + 1⟩))) ∨
      ∃ e f, r.whole c = .error e ∧ SeamFault e.fault f ∧ InText r.source.size e.pos ∧
        ∀ more, r.term? (r.line r.limit) (c.inParens more) = .error ⟨f, e.pos⟩ := by
  rcases bracketedOperator?_inParens h with ⟨op, hlone, hop⟩ | hnone
  · refine .inl ⟨op, hlone, fun more => ?_⟩
    rw [term?_open (c.eat?_inParens more), hop]
    rfl
  right
  have hgroup (more : List Char) : r.term? (r.line r.limit) (c.inParens more) =
      r.group (r.line r.limit) (c.placed (')' :: more) 0) := by
    rw [term?_open (c.eat?_inParens more), hnone]
  rcases line_in_parens h r.limit with ⟨x, c', hline, hplaced, hwithin, htree⟩ |
    ⟨e, hline, hplaced, hpos, hfault⟩
  · have hwhole := whole_of_line hline
    by_cases hend : c'.rest = []
    · rw [if_neg (not_not.mpr hend)] at hwhole
      cases x with
      | none =>
        exact .inr ⟨_, _, hwhole, .nothing _, hwithin.pos r, fun more =>
          (hgroup more).trans (group_nothing hwithin (hplaced more))⟩
      | some u =>
        exact .inl ⟨u, hwhole, htree u rfl, fun more =>
          (hgroup more).trans (group_all hwithin hend (hplaced more))⟩
    · rw [if_pos hend] at hwhole
      cases x with
      | none =>
        exact .inr ⟨_, _, hwhole, .instead _, hwithin.pos r, fun more =>
          (hgroup more).trans (group_nothing hwithin (hplaced more))⟩
      | some u =>
        exact .inr ⟨_, _, hwhole, .behind _, hwithin.pos r, fun more =>
          (hgroup more).trans (group_more hwithin (line_skipSpaces hline) hend (hplaced more))⟩
  · refine .inr ⟨e, e.fault, ?_, .same hfault, hpos, fun more => ?_⟩
    · rw [whole, hline]
      rfl
    · rw [hgroup, group, lineOr, hplaced]
      rfl

/-- An operator alone is no program: its operand is missing at the end of the text. -/
theorem whole_of_loneOperator {op : String} (hop : LoneOperator c op) (h : Within r.source.size 0 c)
    (hlimit : 0 < r.limit) :
    r.whole c = .error ⟨.unexpected .endOfText .operand, r.source, r.source.size⟩ := by
  obtain ⟨c₁, hrun, hend⟩ := hop
  obtain ⟨n, hn⟩ : ∃ n, r.limit = n + 1 := ⟨r.limit - 1, by omega⟩
  have hkept := kept_within r.source.size
  have hstop := (hkept.spaces (hkept.operator (hkept.spaces h) hrun)).stop
  simp only [hend, byteCount_nil, Int.natCast_zero, Int.add_zero] at hstop
  rw [whole, hn, line_operator hrun (by rw [hend]; exact Stops.nil), missing, seen, if_pos hstop, fail,
    pos, hstop]
  rfl

end Reading

end CallByNeed
