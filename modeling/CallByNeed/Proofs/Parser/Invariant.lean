/-
  File:      CallByNeed/Proofs/Parser/Invariant.lean
  Subject:   What holds of a cursor throughout a reading, and of every tree it gives.

  Everything but parentheses and quotes is read as it comes, so an invariant of cursors has four
  cases to keep: such text, an opening parenthesis, a closing one, and a string as a whole.

  * `Bare` -- characters that are neither parentheses nor quotes, and the tokens made of them;
  * `Kept`, `Keeps` -- invariants of cursors, and of trees with them;
  * `Keeps.line` -- the invariants hold behind every line;
  * `Reading.line_limits`, `Reading.line_deeper` -- a line that stays within its levels does not see
    how many there are.
-/
import CallByNeed.Proofs.Parser.InStep

namespace CallByNeed

/-! ## 1. Tokens without parentheses and quotes -/

/-- A character that is neither a parenthesis nor a quote. -/
def Bare (ch : Char) : Prop := ch ≠ '(' ∧ ch ≠ ')' ∧ ch ≠ '"'

theorem bare_of_operator {ch : Char} (h : isOperatorChar ch = true) : Bare ch := by
  obtain ⟨_, _, _, hopen, hclose, hquote, _⟩ := isOperatorChar_spec h
  exact ⟨hopen, hclose, hquote⟩

theorem bare_of_name {ch : Char} (h : isNameChar ch = true) : Bare ch :=
  ⟨isNameChar_ne h (by decide), isNameChar_ne h (by decide), isNameChar_ne h (by decide)⟩

namespace Cursor

variable {c c' : Cursor}

theorem skipSpaces_bare (c : Cursor) : ∃ read, c.Past read c.skipSpaces ∧ ∀ ch ∈ read, Bare ch := by
  refine ⟨_, c.span_past _, fun ch hch => ?_⟩
  have hspace : ch = ' ' := by simpa using List.mem_takeWhile_imp hch
  subst hspace
  exact ⟨by decide, by decide, by decide⟩

theorem sign_bare (c : Cursor) : ∀ ch ∈ c.sign.1, Bare ch := by
  intro ch hch
  unfold sign at hch
  split at hch
  · obtain rfl := List.mem_singleton.mp hch
    exact ⟨by decide, by decide, by decide⟩
  · obtain rfl := List.mem_singleton.mp hch
    exact ⟨by decide, by decide, by decide⟩
  · cases hch

theorem numeral?_bare {numeral : List Char} (h : c.numeral? = some (numeral, c')) :
    ∀ ch ∈ numeral, Bare ch := by
  rw [numeral?_eq] at h
  split at h <;> cases h
  intro ch hch
  rcases List.mem_append.mp hch with hch | hch
  · exact c.sign_bare ch hch
  · exact bare_of_name (isNameChar_of_isDigit (List.mem_takeWhile_imp hch))

end Cursor

/-! ## 2. Invariants -/

/-- What every token keeps of a cursor with `d` parentheses open. -/
structure Kept (I : Nat → Cursor → Prop) : Prop where
  bare {d c c' read} : I d c → c.Past read c' → (∀ ch ∈ read, Bare ch) → I d c'
  enter {d c c'} : I d c → c.Past ['('] c' → I (d + 1) c'
  leave {d c c'} : I (d + 1) c → c.Past [')'] c' → I d c'
  string {d c c' body} : I d c → StringText body → c.Past ('"' :: (body ++ ['"'])) c' → I d c'

/-- What every token keeps of a cursor, and what every node keeps of a tree. -/
structure Keeps (I : Nat → Cursor → Prop) (T : Expr → Prop) : Prop extends Kept I where
  text {d c c' body p} : I d c → StringText body → c.Past ('"' :: (body ++ ['"'])) c' →
    T (.string p (unescape (String.ofList body)))
  number {p n} : T (.number p n)
  name {p x} : TermName x → T (.name p x)
  builtin {p x} : Spelled isNameChar x → T (.builtin p x)
  lambda {p x b} : ParamName x → T b → T (.lambda p x b)
  apply {p f a} : T f → T a → T (.apply p f a)

namespace Kept

variable {I : Nat → Cursor → Prop} (hI : Kept I) {d : Nat} {c c' : Cursor}
include hI

theorem spaces (h : I d c) : I d c.skipSpaces := by
  obtain ⟨read, hread, hbare⟩ := c.skipSpaces_bare
  exact hI.bare h hread hbare

theorem operator {x : String} (h : I d c) (hx : c.operator? = some (x, c')) : I d c' := by
  obtain ⟨hpast, _, hall⟩ := Cursor.run?_eq_some hx
  exact hI.bare h hpast fun ch hch => bare_of_operator (hall ch hch)

theorem word {x : String} (h : I d c) (hx : c.word? = some (x, c')) : I d c' := by
  obtain ⟨hpast, _, hall⟩ := Cursor.run?_eq_some hx
  exact hI.bare h hpast fun ch hch => bare_of_name (hall ch hch)

theorem numeral {n : List Char} (h : I d c) (hn : c.numeral? = some (n, c')) : I d c' :=
  hI.bare h (Cursor.numeral?_eq_some hn).1 (Cursor.numeral?_bare hn)

theorem symbol {ch : Char} (h : I d c) (hch : ch ∈ ['@', '\\', '.', ';'])
    (he : c.eat? ch = some c') : I d c' := by
  have hbare : (['@', '\\', '.', ';'].all fun ch => ch != '(' && ch != ')' && ch != '"') = true := by
    decide
  refine hI.bare h (Cursor.eat?_eq_some.mp he) fun ch' hch' => ?_
  obtain rfl := List.mem_singleton.mp hch'
  simpa only [Bare, Bool.and_eq_true, bne_iff_ne, and_assoc] using List.all_eq_true.mp hbare _ hch

/-- A string from its first quote on. -/
theorem quoted {b : Cursor} {body : List Char} (h : I d c) (hq : c.eat? '"' = some b)
    (hs : b.stringBody = .ok (body, c')) :
    I d c' ∧ StringText body ∧ c.Past ('"' :: (body ++ ['"'])) c' := by
  obtain ⟨htext, hpast⟩ := Cursor.stringBody_eq_ok hs
  have hwhole := (Cursor.eat?_eq_some.mp hq).trans hpast
  exact ⟨hI.string h htext hwhole, htext, hwhole⟩

/-- An invariant of cursors alone. -/
theorem keeps : Keeps I fun _ => True := { hI with
  text := fun _ _ _ => trivial
  number := trivial
  name := fun _ => trivial
  builtin := fun _ => trivial
  lambda := fun _ _ => trivial
  apply := fun _ _ => trivial }

end Kept

/-! ## 3. A reading with itself -/

/-- One text read twice, with an invariant of its cursors and one of its trees. Nothing is said once
    the first reading is out of levels. -/
def Link.along (I : Nat → Cursor → Prop) (T : Expr → Prop) : Link where
  cursor d c c' := c' = c ∧ I d c
  place p p' := p' = p
  tree e e' := e' = e ∧ T e
  fault e e' := e' = e
  waived e := ∃ limit, e.fault = .tooDeep limit

theorem rel_along {α : Type} {R : α → α → Prop} {o : Option α} (h : ∀ a, o = some a → R a a) :
    Option.Rel R o o := by
  cases o with
  | none => exact .none
  | some a => exact .some (h a rfl)

theorem Keeps.inStep {I : Nat → Cursor → Prop} {T : Expr → Prop} (hT : Keeps I T) (source : Source)
    (limit limit' ahead : Nat) : InStep (.along I T) ⟨source, limit⟩ ⟨source, limit'⟩ ahead where
  spaces := by
    rintro d c _ ⟨rfl, h⟩
    exact ⟨rfl, hT.spaces h⟩
  operator := by
    rintro d c _ ⟨rfl, h⟩
    exact rel_along fun t ht => ⟨rfl, rfl, hT.operator h ht⟩
  word := by
    rintro d c _ ⟨rfl, h⟩
    exact rel_along fun t ht => ⟨rfl, rfl, hT.word h ht⟩
  numeral := by
    rintro d c _ ⟨rfl, h⟩
    exact rel_along fun t ht => ⟨rfl, rfl, hT.numeral h ht⟩
  symbol := by
    rintro d c _ ch ⟨rfl, h⟩ hch
    exact rel_along fun c₁ he => ⟨rfl, hT.symbol h hch he⟩
  enter := by
    rintro d c _ ⟨rfl, h⟩
    exact rel_along fun c₁ he => ⟨rfl, hT.enter h (Cursor.eat?_eq_some.mp he)⟩
  leave := by
    rintro d c _ ⟨rfl, h⟩
    exact rel_along fun c₁ he => ⟨rfl, hT.leave h (Cursor.eat?_eq_some.mp he)⟩
  string := by
    rintro d c _ ⟨rfl, h⟩
    refine rel_along fun b hb => ?_
    simp only [Reading.string]
    cases hs : b.stringBody with
    | error stop => exact .error rfl
    | ok t =>
      obtain ⟨hI, htext, hpast⟩ := hT.quoted h hb hs
      exact .ok (.some ⟨⟨rfl, hT.text h htext hpast⟩, rfl, hI⟩)
  pos := by
    rintro d c _ ⟨rfl, h⟩
    rfl
  start := by
    rintro e _ ⟨rfl, h⟩
    rfl
  number := by
    rintro p _ n rfl
    exact ⟨rfl, hT.number⟩
  name := by
    rintro p _ x rfl hx
    exact ⟨rfl, hT.name hx⟩
  builtin := by
    rintro p _ x rfl hx
    exact ⟨rfl, hT.builtin hx⟩
  lambda := by
    rintro p _ x b _ rfl hx ⟨rfl, hb⟩
    exact ⟨rfl, hT.lambda hx hb⟩
  apply := by
    rintro p _ f _ a _ rfl ⟨rfl, hf⟩ ⟨rfl, ha⟩
    exact ⟨rfl, hT.apply hf ha⟩
  missing := by
    rintro d c _ x ⟨rfl, h⟩ _ _ _
    rfl
  badToken := by
    rintro d c _ f ⟨rfl, h⟩ _
    rfl
  deep _ := .waived ⟨_, rfl⟩

/-! ## 4. Lines -/

/-- **Invariants hold behind every line, and in every tree.** -/
theorem Keeps.line {I : Nat → Cursor → Prop} {T : Expr → Prop} (hT : Keeps I T) {r : Reading}
    {n d : Nat} {c c' : Cursor} {x : Option Expr} (h : I d c)
    (hline : r.line n c = .ok (x, c')) : I d c' ∧ ∀ e, x = some e → T e := by
  have hout := (hT.inStep r.source r.limit r.limit 0).line n d c c ⟨rfl, h⟩
  rw [Nat.add_zero, hline] at hout
  generalize hx : x = y at hout
  cases hout with
  | ok hl =>
    obtain ⟨hrel, _, hI⟩ := hl
    refine ⟨hI, fun e he => ?_⟩
    subst hx
    simp only at hrel
    rw [he] at hrel
    cases hrel with
    | some ht => exact ht.2

/-- The reading is out of levels. -/
def Parsed.TooDeep {α : Type} (x : Parsed α) : Prop := ∃ limit p, x = .error ⟨.tooDeep limit, p⟩

/-- **A line that stays within its levels does not see how many there are**, nor what their limit
    is. -/
theorem Reading.line_limits (source : Source) (limit limit' n k : Nat) (c : Cursor) :
    (⟨source, limit'⟩ : Reading).line (n + k) c = (⟨source, limit⟩ : Reading).line n c ∨
      ((⟨source, limit⟩ : Reading).line n c).TooDeep := by
  have hI : Kept fun _ _ => True := by constructor <;> intros <;> trivial
  have hout := (hI.keeps.inStep source limit limit' k).line n 0 c c ⟨rfl, trivial⟩
  revert hout
  generalize (⟨source, limit⟩ : Reading).line n c = x
  generalize (⟨source, limit'⟩ : Reading).line (n + k) c = y
  intro hout
  cases hout with
  | error he =>
    left
    rw [show _ = _ from he]
  | waived hw =>
    right
    rename_i e
    obtain ⟨limit, hlimit⟩ := hw
    exact ⟨limit, e.pos, by rw [← hlimit]⟩
  | @ok a b hl =>
    left
    obtain ⟨x, c₁⟩ := a
    obtain ⟨y, c₂⟩ := b
    obtain ⟨hrel, hc, _⟩ := hl
    simp only at hrel hc
    cases hrel with
    | none => rw [hc]
    | some ht => rw [hc, ht.1]

theorem Reading.line_deeper (r : Reading) (n k : Nat) (c : Cursor) :
    r.line (n + k) c = r.line n c ∨ (r.line n c).TooDeep :=
  line_limits r.source r.limit r.limit n k c

/-- A line that is read is read with any levels that are enough. -/
theorem Reading.line_levels {r : Reading} {n : Nat} {c : Cursor} {t : Option Expr × Cursor}
    (h : r.line n c = .ok t) (k : Nat) : r.line k c = .ok t ∨ (r.line k c).TooDeep := by
  rcases Nat.le_total n k with hle | hle
  · obtain ⟨j, rfl⟩ := Nat.le.dest hle
    rcases r.line_deeper n j c with heq | ⟨limit, p, hdeep⟩
    · exact .inl (heq.trans h)
    · rw [h] at hdeep
      cases hdeep
  · obtain ⟨j, rfl⟩ := Nat.le.dest hle
    exact (r.line_deeper k j c).imp (fun heq => heq.symm.trans h) id

end CallByNeed
