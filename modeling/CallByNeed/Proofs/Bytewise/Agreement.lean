/-
  File:      CallByNeed/Proofs/Bytewise/Agreement.lean
  Subject:   Reading byte by byte is reading character by character.

  A scan for bytes begins between two characters and looks for ASCII, so it ends between two
  characters. The reading byte by byte therefore never stands inside a character, and no cut fails.

  * `ByteReading.Stands`, `Agrees` -- a cursor and a place at one point, and results that agree;
  * `Reading.term?_eq_firstOf` -- the form that the first character settles is the first form that
    fits;
  * `ByteReading.term?_agrees`, `ByteReading.line_agrees` -- terms and lines;
  * `parseBytes_eq` -- whole programs: the same tree or the same fault, and no cut inside a
    character.
-/
import CallByNeed.Proofs.Bytewise.Reader
import CallByNeed.Proofs.Layout
import CallByNeed.Proofs.Parser.Balance

namespace CallByNeed

/-! ## 1. One point of the text -/

/-- Results of the two readings: both read the same, or both end with the same fault. -/
inductive Agrees {α β : Type} (same : α → β → Prop) : Parsed α → Sliced β → Prop where
  | ok {a : α} {a' : β} (h : same a a') : Agrees same (.ok a) (.ok a')
  | fault (e : At ParseFault) : Agrees same (.error e) (.error (.fault e))

theorem Agrees.bind {α β γ δ : Type} {same : α → β → Prop} {same' : γ → δ → Prop} {x : Parsed α}
    {y : Sliced β} {f : α → Parsed γ} {g : β → Sliced δ} (h : Agrees same x y)
    (hf : ∀ a a', same a a' → Agrees same' (f a) (g a')) : Agrees same' (x >>= f) (y >>= g) := by
  cases h with
  | ok h => exact hf _ _ h
  | fault e => exact .fault e

theorem Sliced.ok_bind {α β : Type} (a : α) (f : α → Sliced β) : Except.ok a >>= f = f a := rfl

namespace ByteReading

/-- The same reading, character by character. -/
def reading (b : ByteReading) : Reading := ⟨b.source, b.limit⟩

/-- A cursor and a place at the same point of the text. -/
structure Stands (b : ByteReading) (c : Cursor) (i : Nat) : Prop where
  split : ∃ read, b.text = read ++ c.rest ∧ byteCount read = i
  offset : c.offset = i - b.front

/-- The same thing, and the point behind it. -/
def Behind (b : ByteReading) {α : Type} (t : α × Cursor) (t' : α × Nat) : Prop :=
  t.1 = t'.1 ∧ b.Stands t.2 t'.2

namespace Stands

variable {b : ByteReading} {c c' : Cursor} {i : Nat} {p : Char → Bool}

theorem past {read : List Char} (h : b.Stands c i) (hpast : c.Past read c') :
    b.Stands c' (i + byteCount read) := by
  obtain ⟨⟨front, htext, hfront⟩, hoffset⟩ := h
  obtain ⟨hrest, hoff⟩ := hpast
  refine ⟨⟨front ++ read, by rw [htext, hrest, List.append_assoc], ?_⟩, ?_⟩
  · rw [byteCount_append, hfront]
  · rw [hoff, hoffset]
    omega

theorem bytes (h : b.Stands c i) : b.bytesAt i = utf8 c.rest := by
  obtain ⟨⟨front, htext, rfl⟩, _⟩ := h
  rw [bytesAt, htext, utf8_append, ← length_utf8, List.drop_left]

/-- What is read between two cursors can be cut out of the text. -/
theorem cut {read : List Char} (h : b.Stands c i) (hpast : c.Past read c') :
    b.cut i (i + byteCount read) = .ok read := by
  obtain ⟨⟨front, htext, rfl⟩, _⟩ := h
  rw [ByteReading.cut, htext, hpast.1, slice?_append]

theorem pos (h : b.Stands c i) : b.pos i = b.reading.pos c := by
  rw [ByteReading.pos, Reading.pos, h.offset]
  rfl

theorem seen (h : b.Stands c i) : b.seen i = b.reading.seen c := by
  obtain ⟨⟨front, htext, hfront⟩, hoffset⟩ := h
  have hend : i = b.authorEnd ↔ c.offset = b.reading.source.size := by
    show i = b.front + b.source.size ↔ c.offset = b.source.size
    rw [hoffset]
    omega
  rw [ByteReading.seen, Reading.seen, if_congr hend rfl rfl, htext, ← hfront, splitBytes?_append]
  cases hrest : c.rest with
  | cons ch rest => rfl
  | nil =>
    have hnil : b.bytesAt (byteCount front) = [] := by
      rw [bytesAt, htext, hrest, List.append_nil, ← length_utf8, List.drop_length]
    rw [hnil]

theorem missing {α β : Type} {same : α → β → Prop} (h : b.Stands c i) (x : Expectation) :
    Agrees same (b.reading.missing c x) (b.missing i x) := by
  rw [ByteReading.missing, fail, h.seen, h.pos]
  exact .fault _

theorem fails {α β : Type} {same : α → β → Prop} (h : b.Stands c i) (fault : ParseFault) :
    Agrees same (b.reading.fail c fault) (b.fail i fault) := by
  rw [fail, h.pos]
  exact .fault _

/-! ## 2. Tokens -/

theorem eat? (h : b.Stands c i) (ch : Char) (hch : ch.utf8Size = 1) :
    Option.Rel b.Stands (c.eat? ch) (b.eat? ch i) := by
  have hhead : (b.bytesAt i).head? = some (byteOf ch) ↔ c.rest.head? = some ch := by
    rw [h.bytes, head?_utf8 hch]
  rw [ByteReading.eat?, if_congr hhead rfl rfl]
  cases he : c.eat? ch with
  | some c' =>
    have hpast := Cursor.eat?_eq_some.mp he
    rw [if_pos (by rw [hpast.1]; rfl)]
    have hstands := h.past hpast
    rw [byteCount_cons, hch] at hstands
    exact .some hstands
  | none =>
    rw [if_neg]
    · exact .none
    · intro hrest
      obtain ⟨rest, hrest⟩ : ∃ rest, c.rest = ch :: rest := by
        cases hc : c.rest with
        | nil => simp [hc] at hrest
        | cons d rest => exact ⟨rest, by simp_all⟩
      simp [Cursor.eat?, hrest] at he

theorem runEnd (h : b.Stands c i) (hp : AsciiOnly p) :
    b.runEnd p i = i + byteCount (c.span p).1 := by
  rw [ByteReading.runEnd, h.bytes, takeWhile_utf8 hp, length_utf8]
  rfl

theorem skipSpaces (h : b.Stands c i) : b.Stands c.skipSpaces (b.skipSpaces i) := by
  rw [ByteReading.skipSpaces, h.runEnd asciiOnly_space]
  exact h.past (c.span_past _)

theorem span (h : b.Stands c i) (hp : AsciiOnly p) :
    b.span p i = .ok ((c.span p).1, i + byteCount (c.span p).1) := by
  rw [ByteReading.span, h.runEnd hp, h.cut (c.span_past p)]
  rfl

theorem run? (h : b.Stands c i) (hp : AsciiOnly p) :
    ∃ o, b.run? p i = .ok o ∧ Option.Rel b.Behind (c.run? p) o := by
  rw [ByteReading.run?, h.span hp, Cursor.run?_eq]
  cases hspan : (c.span p).1 with
  | nil => exact ⟨none, rfl, .none⟩
  | cons ch run =>
    have hstands := h.past (c.span_past p)
    rw [hspan] at hstands
    exact ⟨_, rfl, .some ⟨rfl, hstands⟩⟩

theorem bracketedOperator? (h : b.Stands c i) :
    ∃ o, b.bracketedOperator? i = .ok o ∧ Option.Rel b.Behind c.bracketedOperator? o := by
  unfold ByteReading.bracketedOperator? Cursor.bracketedOperator?
  rcases rel_cases (h.eat? '(' rfl) with ⟨e, e'⟩ | ⟨c₁, i₁, e, e', h₁⟩
  · simp only [e, e']
    exact ⟨none, rfl, .none⟩
  obtain ⟨o, ho, hrel⟩ := h₁.skipSpaces.run? asciiOnly_operator
  simp only [e, e', ho, Cursor.operator?, Option.bind_eq_bind, Option.bind_some]
  rcases rel_cases hrel with ⟨e, rfl⟩ | ⟨⟨op, c₂⟩, ⟨op', i₂⟩, e, rfl, hop, h₂⟩
  · rw [e]
    exact ⟨none, rfl, .none⟩
  obtain rfl : op = op' := hop
  rw [e]
  refine ⟨_, rfl, ?_⟩
  rw [Option.bind_some]
  rcases rel_cases (h₂.skipSpaces.eat? ')' rfl) with ⟨e, e'⟩ | ⟨c₃, i₃, e, e', h₃⟩
  · rw [e, e']
    exact .none
  · rw [e, e']
    exact .some ⟨rfl, h₃⟩

theorem param (h : b.Stands c i) :
    ∃ t, b.param i = .ok t ∧ b.Behind (Reading.param c) t := by
  obtain ⟨o, ho, hrel⟩ := h.bracketedOperator?
  obtain ⟨w, hw, hword⟩ := h.run? asciiOnly_name
  unfold ByteReading.param Reading.param
  rw [ho, hw, Cursor.word?]
  rcases rel_cases hrel with ⟨e, rfl⟩ | ⟨t, t', e, rfl, ht⟩
  · rw [e]
    rcases rel_cases hword with ⟨e, rfl⟩ | ⟨t, t', e, rfl, ht⟩
    · rw [e]
      exact ⟨_, rfl, rfl, h⟩
    · rw [e]
      exact ⟨_, rfl, ht⟩
  · rw [e]
    exact ⟨_, rfl, ht⟩

theorem unique {j : Nat} (hi : b.Stands c i) (hj : b.Stands c j) : i = j := by
  have hoffset := hi.offset.symm.trans hj.offset
  omega

/-- The place behind the sign of a numeral, if it has one. -/
theorem sign (h : b.Stands c i) :
    b.Stands c.sign.2 (((b.eat? '+' i).or (b.eat? '-' i)).getD i) := by
  have hsign : c.sign.2 = ((c.eat? '+').or (c.eat? '-')).getD c := by
    obtain ⟨rest, o⟩ := c
    cases rest with
    | nil => rfl
    | cons d rest =>
      by_cases hplus : d = '+'
      · subst hplus
        rfl
      by_cases hminus : d = '-'
      · subst hminus
        rfl
      · simp [Cursor.sign, Cursor.eat?, hplus, hminus]
  rw [hsign]
  rcases rel_cases (h.eat? '+' rfl) with ⟨e, e'⟩ | ⟨c₁, i₁, e, e', h₁⟩
  · rw [e, e']
    rcases rel_cases (h.eat? '-' rfl) with ⟨e, e'⟩ | ⟨c₁, i₁, e, e', h₁⟩
    · rw [e, e']
      exact h
    · rw [e, e']
      exact h₁
  · rw [e, e']
    exact h₁

end Stands

end ByteReading

/-! ## 3. The forms of a term, in turn -/

section FirstOf

variable {κ ε α : Type} {reader : κ → Except ε (Option α)}
  {readers : List (κ → Except ε (Option α))}
  {c : κ}

theorem firstOf_of_none (h : reader c = .ok none) :
    firstOf (reader :: readers) c = firstOf readers c := by
  rw [firstOf, h]
  rfl

theorem firstOf_of_ne_none (h : reader c ≠ .ok none) :
    firstOf (reader :: readers) c = reader c := by
  rw [firstOf]
  cases hc : reader c with
  | error e => rfl
  | ok o =>
    cases o with
    | none => exact absurd hc h
    | some a => rfl

end FirstOf

namespace Reading

/-- A form that begins with a given character, and what follows that character. -/
def headedBy (r : Reading) (ch : Char) (reader : Pos → TermReader) : TermReader := fun c =>
  match c.eat? ch with
  | some c' => reader (r.pos c) c'
  | none => .ok none

/-- A token that stands as a name. -/
def named (r : Reading) (token : Cursor → Option (String × Cursor)) : TermReader := fun c =>
  .ok ((token c).map fun (x, c') => (.name (r.pos c) x, c'))

/-- A number. -/
def number (r : Reading) : TermReader := fun c =>
  match c.numeral? with
  | none => .ok none
  | some (numeral, c') =>
    match CallByNeed.word? (numeralValue numeral) with
    | some n => .ok (some (.number (r.pos c) n, c'))
    | none => r.fail c (.numberOutOfRange (String.ofList numeral))

/-- The forms of a term, in the order in which they can be tried. -/
def forms (r : Reading) (line : LineReader) : List TermReader := [
  r.named Cursor.bracketedOperator?,
  r.headedBy '(' fun _ => r.group line,
  r.headedBy '@' r.builtin,
  r.headedBy '\\' (r.lambda line),
  r.number,
  r.headedBy '"' r.string,
  r.named Cursor.word?]

section HeadedBy

variable {r : Reading} {ch : Char} {reader : Pos → TermReader} {c c' : Cursor}

theorem headedBy_none (h : c.eat? ch = none) : r.headedBy ch reader c = .ok none := by
  rw [headedBy, h]

theorem headedBy_some (h : c.eat? ch = some c') : r.headedBy ch reader c = reader (r.pos c) c' := by
  rw [headedBy, h]

/-- A form that its first character settles is tried, and no other one after it. -/
theorem firstOf_headedBy {readers : List TermReader} (h : c.eat? ch = some c')
    (hne : reader (r.pos c) c' ≠ .ok none) :
    firstOf (r.headedBy ch reader :: readers) c = reader (r.pos c) c' := by
  have hheaded : r.headedBy ch reader c = reader (r.pos c) c' := headedBy_some h
  rw [firstOf_of_ne_none (by rwa [hheaded]), hheaded]

end HeadedBy

theorem builtin_ne_none {r : Reading} {start : Pos} {c : Cursor} :
    r.builtin start c ≠ .ok none := by
  unfold builtin
  split
  · simp
  · simp [fail]

theorem string_ne_none {r : Reading} {start : Pos} {c : Cursor} : r.string start c ≠ .ok none := by
  unfold string
  split
  · simp
  · simp [fail]

/-- No number begins with a quote. -/
theorem number_quote {r : Reading} {c c' : Cursor} (h : c.eat? '"' = some c') :
    r.number c = .ok none := by
  obtain ⟨hrest, _⟩ := Cursor.eat?_eq_some.mp h
  have hsign : c.sign = ([], c) := by simp [Cursor.sign, hrest]
  have hdigits : (c.span Char.isDigit).1 = [] := by
    show c.rest.takeWhile Char.isDigit = []
    rw [hrest]
    rfl
  rw [number, Cursor.numeral?_eq, hsign, if_pos hdigits]

/-- **The form that the first character settles is the first form that fits.** -/
theorem term?_eq_firstOf (r : Reading) (line : LineReader) (c : Cursor) :
    r.term? line c = firstOf (r.forms line) c := by
  unfold forms
  cases hopen : c.eat? '(' with
  | some c₁ =>
    rw [term?_open hopen]
    cases hop : c.bracketedOperator? with
    | some t =>
      rw [firstOf_of_ne_none (by simp [named, hop]), named, hop]
      rfl
    | none => rw [firstOf_of_none (by simp [named, hop]), firstOf_headedBy hopen group_ne_none]
  | none =>
  have hop : c.bracketedOperator? = none := by simp [Cursor.bracketedOperator?, hopen]
  rw [firstOf_of_none (by simp [named, hop]), firstOf_of_none (headedBy_none hopen)]
  cases hat : c.eat? '@' with
  | some c₁ => rw [term?_at hat, firstOf_headedBy hat builtin_ne_none]
  | none =>
  rw [firstOf_of_none (headedBy_none hat)]
  cases hslash : c.eat? '\\' with
  | some c₁ => rw [term?_backslash hslash, firstOf_headedBy hslash lambda_ne_none]
  | none =>
  rw [firstOf_of_none (headedBy_none hslash)]
  cases hquote : c.eat? '"' with
  | some c₁ =>
    rw [term?_quote hquote, firstOf_of_none (number_quote hquote),
      firstOf_headedBy hquote string_ne_none]
  | none =>
  rw [term?_plain hopen hat hslash hquote]
  cases hnumeral : c.numeral? with
  | some t =>
    have hplain : r.plain c = r.number c := by
      cases hvalue : CallByNeed.word? (numeralValue t.1) <;>
        simp only [plain, number, hnumeral, hvalue]
    have hne : r.number c ≠ .ok none := by
      simp only [number, hnumeral]
      split
      · simp
      · simp [fail]
    rw [hplain, firstOf_of_ne_none hne]
  | none =>
    have hnumber : r.number c = .ok none := by simp only [number, hnumeral]
    rw [firstOf_of_none hnumber, firstOf_of_none (headedBy_none hquote)]
    simp only [plain, hnumeral]
    cases hword : c.word? with
    | none =>
      rw [firstOf_of_none (by simp [named, hword])]
      rfl
    | some t => rw [firstOf_of_ne_none (by simp [named, hword]), named, hword]

end Reading

namespace ByteReading

/-! ## 4. Terms and lines -/

/-- Readers of lines that agree. -/
def Lines (b : ByteReading) (line : LineReader) (line' : ByteLine) : Prop :=
  ∀ c i, b.Stands c i → Agrees b.Behind (line c) (line' i)

/-- Readers of terms that agree. -/
def Terms (b : ByteReading) (term : TermReader) (term' : ByteTerm) : Prop :=
  ∀ c i, b.Stands c i → Agrees (Option.Rel b.Behind) (term c) (term' i)

variable {b : ByteReading} {line : LineReader} {line' : ByteLine} {term : TermReader}
  {term' : ByteTerm} {c : Cursor} {i : Nat}

theorem firstOf_agrees {readers : List TermReader} {readers' : List ByteTerm}
    (h : List.Forall₂ b.Terms readers readers') : b.Terms (firstOf readers) (firstOf readers') := by
  intro c i hc
  induction h with
  | nil => exact .ok .none
  | cons hread _ ih =>
    refine (hread c i hc).bind fun o o' ho => ?_
    cases ho with
    | none => exact ih
    | some ht => exact .ok (.some ht)

theorem lineOr_agrees (hline : b.Lines line line') (h : b.Stands c i) (x : Expectation) :
    Agrees b.Behind (b.reading.lineOr line c x) (b.lineOr line' i x) := by
  refine (hline c i h).bind fun t t' ht => ?_
  obtain ⟨o, c₁⟩ := t
  obtain ⟨o', i₁⟩ := t'
  obtain ⟨rfl, h₁⟩ : o = o' ∧ b.Stands c₁ i₁ := ht
  cases o with
  | none => exact h₁.missing x
  | some e => exact .ok ⟨rfl, h₁⟩

theorem punctuation_agrees {ch : Char} (hch : ch.utf8Size = 1) (h : b.Stands c i)
    (x : Expectation) : Agrees b.Stands (b.reading.punctuation c ch x) (b.punctuation i ch x) := by
  unfold Reading.punctuation punctuation
  rcases rel_cases (h.skipSpaces.eat? ch hch) with ⟨e, e'⟩ | ⟨c₁, i₁, e, e', h₁⟩
  · rw [e, e']
    exact h.skipSpaces.missing x
  · rw [e, e']
    exact .ok h₁

theorem headedBy_agrees {ch : Char} (hch : ch.utf8Size = 1) {reader : Pos → TermReader}
    {reader' : Pos → ByteTerm} (hread : ∀ p, b.Terms (reader p) (reader' p)) :
    b.Terms (b.reading.headedBy ch reader) (b.headedBy ch reader') := by
  intro c i h
  unfold Reading.headedBy headedBy
  rw [h.pos]
  rcases rel_cases (h.eat? ch hch) with ⟨e, e'⟩ | ⟨c₁, i₁, e, e', h₁⟩
  · rw [e, e']
    exact .ok .none
  · rw [e, e']
    exact hread _ c₁ i₁ h₁

theorem group_agrees (hline : b.Lines line line') :
    b.Terms (b.reading.group line) (b.group line') := by
  intro c i h
  refine (lineOr_agrees hline h _).bind fun t t' ht => ?_
  refine (punctuation_agrees rfl ht.2 _).bind fun c₁ i₁ h₁ => ?_
  exact .ok (.some ⟨ht.1, h₁⟩)

theorem builtin_agrees (p : Pos) : b.Terms (b.reading.builtin p) (b.builtin p) := by
  intro c i h
  obtain ⟨o, ho, hrel⟩ := h.run? asciiOnly_name
  unfold Reading.builtin builtin
  rw [ho, Cursor.word?]
  rcases rel_cases hrel with ⟨e, rfl⟩ | ⟨⟨x, c₁⟩, ⟨x', i₁⟩, e, rfl, hx, h₁⟩
  · rw [e]
    exact h.fails _
  · obtain rfl : x = x' := hx
    rw [e]
    exact .ok (.some ⟨rfl, h₁⟩)

theorem lambda_agrees (hline : b.Lines line line') (p : Pos) :
    b.Terms (b.reading.lambda line p) (b.lambda line' p) := by
  intro c i h
  obtain ⟨⟨x', i₁⟩, hparam, hx, h₁⟩ := h.skipSpaces.param
  dsimp only at hx h₁
  have h₂ := h₁.skipSpaces
  obtain ⟨o, ho, hop⟩ := h₂.run? asciiOnly_operator
  unfold Reading.lambda lambda
  rw [hparam, Sliced.ok_bind]
  dsimp only
  rw [ho, ← hx, Cursor.operator?]
  rcases rel_cases (h₂.eat? '.' rfl) with ⟨e, e'⟩ | ⟨c₃, i₃, e, e', h₃⟩
  case inr =>
    rw [e, e']
    refine (lineOr_agrees hline h₃ _).bind fun t t' ht => ?_
    exact .ok (.some ⟨by rw [ht.1], ht.2⟩)
  rw [e, e']
  rcases rel_cases hop with ⟨e, rfl⟩ | ⟨⟨op, c₃⟩, ⟨op', i₃⟩, e, rfl, hop, h₃⟩
  · rw [e]
    exact h₂.missing _
  obtain rfl : op = op' := hop
  rw [e]
  refine (lineOr_agrees hline h₃ _).bind fun v v' hv => ?_
  refine (punctuation_agrees rfl hv.2 _).bind fun c₄ i₄ h₄ => ?_
  refine (lineOr_agrees hline h₄ _).bind fun t t' ht => ?_
  exact .ok (.some ⟨by rw [hv.1, ht.1], ht.2⟩)

theorem number_agrees : b.Terms b.reading.number b.number := by
  intro c i h
  have hsign := h.sign
  have hdigits := hsign.span asciiOnly_digit
  have hall := c.sign_past.trans (c.sign.2.span_past Char.isDigit)
  -- the place behind the digits, reached from the sign and from the beginning
  have hstop : (((b.eat? '+' i).or (b.eat? '-' i)).getD i) +
      byteCount (c.sign.2.span Char.isDigit).1 =
        i + byteCount (c.sign.1 ++ (c.sign.2.span Char.isDigit).1) :=
    (hsign.past (c.sign.2.span_past Char.isDigit)).unique (h.past hall)
  unfold Reading.number number
  dsimp only
  rw [hdigits, Sliced.ok_bind, hstop, Cursor.numeral?_eq]
  have hcut := h.cut hall
  have hbehind := h.past hall
  revert hcut hbehind
  generalize (c.sign.2.span Char.isDigit).1 = digits
  intro hcut hbehind
  cases digits with
  | nil => exact .ok .none
  | cons d ds =>
    dsimp only
    rw [if_neg (by simp), hcut, Sliced.ok_bind]
    dsimp only
    cases CallByNeed.word? (numeralValue (c.sign.1 ++ d :: ds)) with
    | none => exact h.fails _
    | some n => exact .ok (.some ⟨by rw [h.pos], hbehind⟩)

theorem string_agrees (p : Pos) : b.Terms (b.reading.string p) (b.string p) := by
  intro c i h
  unfold Reading.string string
  rw [h.bytes]
  cases hs : c.stringBody with
  | error stop =>
    obtain ⟨hend, rfl⟩ := quoteEnd_open hs
    have hrest : c.Past c.rest ⟨[], c.offset + byteCount c.rest⟩ := ⟨(List.append_nil _).symm, rfl⟩
    have hstop := h.past hrest
    dsimp only
    rw [hend]
    rcases rel_cases (hstop.eat? '"' rfl) with ⟨_, e'⟩ | ⟨_, _, e, _⟩
    · rw [e']
      exact hstop.fails _
    · cases e
  | ok t =>
    obtain ⟨body, c'⟩ := t
    obtain ⟨htext, hrest, hoff⟩ := Cursor.stringBody_eq_ok hs
    have hquote : c.Past body ⟨'"' :: c'.rest, c.offset + byteCount body⟩ :=
      ⟨by rw [hrest, List.append_assoc]; rfl, rfl⟩
    have hafter : (⟨'"' :: c'.rest, c.offset + byteCount body⟩ : Cursor).eat? '"' = some c' := by
      rw [Cursor.eat?_eq_some]
      refine ⟨rfl, ?_⟩
      show c'.offset = c.offset + byteCount body + byteCount ['"']
      rw [hoff, byteCount_append]
      omega
    have hend : quoteEnd (utf8 c.rest) = byteCount body := by
      rw [hquote.1, utf8_append, utf8_cons]
      exact quoteEnd_text htext _
    dsimp only
    rw [hend]
    rcases rel_cases ((h.past hquote).eat? '"' rfl) with ⟨e, _⟩ | ⟨c₂, i₂, e, e', h₂⟩
    · cases hafter.symm.trans e
    · obtain rfl : c' = c₂ := Option.some.inj (hafter.symm.trans e)
      rw [e', h.cut hquote]
      exact .ok (.some ⟨rfl, h₂⟩)

theorem named_agrees {token : Cursor → Option (String × Cursor)}
    {token' : Nat → Sliced (Option (String × Nat))}
    (htoken : ∀ c i, b.Stands c i → ∃ o, token' i = .ok o ∧ Option.Rel b.Behind (token c) o) :
    b.Terms (b.reading.named token) (b.named token') := by
  intro c i h
  obtain ⟨o, ho, hrel⟩ := htoken c i h
  unfold Reading.named named
  rw [ho, h.pos]
  rcases rel_cases hrel with ⟨e, rfl⟩ | ⟨t, t', e, rfl, ht⟩
  · rw [e]
    exact .ok .none
  · rw [e]
    exact .ok (.some ⟨congrArg (Expr.name (b.reading.pos c)) ht.1, ht.2⟩)

/-- **Terms agree.** -/
theorem term?_agrees (hline : b.Lines line line') :
    b.Terms (b.reading.term? line) (b.term? line') := by
  have hforms : List.Forall₂ b.Terms (b.reading.forms line) (b.forms line') :=
    .cons (named_agrees fun _ _ h => h.bracketedOperator?) <|
      .cons (headedBy_agrees rfl fun _ => group_agrees hline) <|
      .cons (headedBy_agrees rfl builtin_agrees) <|
      .cons (headedBy_agrees rfl (lambda_agrees hline)) <| .cons number_agrees <|
      .cons (headedBy_agrees rfl string_agrees) <|
      .cons (named_agrees fun _ _ h => h.run? asciiOnly_name) .nil
  intro c i h
  rw [Reading.term?_eq_firstOf]
  exact firstOf_agrees hforms c i h

theorem jointAt_agrees (h : b.Stands c i) :
    ∃ t, b.jointAt i = .ok t ∧ b.Behind (b.reading.jointAt c) t := by
  obtain ⟨o, ho, hrel⟩ := h.run? asciiOnly_operator
  unfold Reading.jointAt jointAt
  rw [ho, h.pos, Cursor.operator?]
  rcases rel_cases hrel with ⟨e, rfl⟩ | ⟨⟨x, c₁⟩, ⟨x', i₁⟩, e, rfl, hx, h₁⟩
  · rw [e]
    exact ⟨_, rfl, rfl, h⟩
  · obtain rfl : x = x' := hx
    rw [e]
    exact ⟨_, rfl, rfl, h₁⟩

/-- Operands agree. The induction is on the bytes that bound their number; there are never fewer
    bytes than characters left. -/
theorem operands_agrees (hterm : b.Terms term term') (hadv : TermReader.Advances term)
    (hidle : Reading.Idle term) : ∀ (bytes : List UInt8) {c : Cursor} {i : Nat}
    {done : List (Joint × Expr)}, b.Stands c i → c.rest.length ≤ bytes.length →
    Agrees b.Behind (b.reading.operands term c.rest done c) (b.operands term' bytes done i)
  | [], c, i, done, h, hle => by
      obtain ⟨rest, o⟩ := c
      obtain rfl : rest = [] := List.length_eq_zero_iff.mp (Nat.le_zero.mp hle)
      rw [Reading.operands_end hidle]
      exact .ok ⟨rfl, h⟩
  | _ :: bytes, c, i, done, h, hle => by
      obtain ⟨⟨op', i₁⟩, hjoint, hop, h₁⟩ := jointAt_agrees h.skipSpaces
      dsimp only at hop h₁
      have h₂ := h₁.skipSpaces
      obtain ⟨read, hread⟩ := b.reading.operand_past c
      rw [Reading.operands_eq hadv hidle (Nat.le_refl _), operands, hjoint, Sliced.ok_bind]
      dsimp only
      rw [← hop]
      have hout := hterm _ _ h₂
      revert hout
      generalize ht : term (b.reading.jointAt c.skipSpaces).2.skipSpaces = x
      generalize term' (b.skipSpaces i₁) = y
      intro hout
      cases hout with
      | fault e => exact .fault e
      | ok ho =>
        cases ho with
        | none =>
          rw [Sliced.ok_bind]
          dsimp only
          cases (b.reading.jointAt c.skipSpaces).1 with
          | sideBySide => exact .ok ⟨rfl, h₂⟩
          | operator p x => exact h₂.missing _
        | @some t t' htree =>
          obtain ⟨e, c₃⟩ := t
          obtain ⟨e', i₃⟩ := t'
          obtain ⟨rfl, h₃⟩ : e = e' ∧ b.Stands c₃ i₃ := htree
          obtain ⟨read₁, hne, hread₁⟩ := hadv _ _ _ ht
          have hlt := (hread.trans hread₁).length_lt (by simp [hne])
          rw [List.length_cons] at hle
          exact operands_agrees hterm hadv hidle bytes h₃ (by omega)

theorem flatLine_agrees (hterm : b.Terms term term') (hadv : TermReader.Advances term)
    (hidle : Reading.Idle term) (h : b.Stands c i) :
    Agrees b.Behind (b.reading.flatLine term c) (b.flatLine term' i) := by
  have further {first : Option Expr} {c : Cursor} {i : Nat} (h : b.Stands c i) :
      Agrees b.Behind
        (b.reading.operands term c.rest [] c >>= fun t => .ok (Line.mk first t.1, t.2))
        (b.operands term' (b.bytesAt i) [] i >>= fun t => .ok (Line.mk first t.1, t.2)) := by
    have hle : c.rest.length ≤ (b.bytesAt i).length := by
      rw [h.bytes, length_utf8]
      exact length_le_byteCount c.rest
    refine (operands_agrees hterm hadv hidle _ h hle).bind fun t t' ht => ?_
    exact .ok ⟨congrArg (Line.mk first) ht.1, ht.2⟩
  refine (hterm _ _ h.skipSpaces).bind fun o o' ho => ?_
  cases ho with
  | none => exact further h.skipSpaces
  | @some t t' ht =>
    obtain ⟨e, c₁⟩ := t
    obtain ⟨e', i₁⟩ := t'
    obtain ⟨rfl, h₁⟩ : e = e' ∧ b.Stands c₁ i₁ := ht
    exact further h₁

/-- **Lines agree.** -/
theorem line_agrees (b : ByteReading) : ∀ levels, b.Lines (b.reading.line levels) (b.line levels)
  | 0, _, _, h => h.fails _
  | levels + 1, c, i, h => by
      refine (flatLine_agrees (term?_agrees (b.line_agrees levels))
        (Reading.term?_advances (b.reading.line_advances levels)) Reading.term?_idle h).bind
        fun t t' ht => ?_
      exact .ok ⟨congrArg Line.tree? ht.1, ht.2⟩

/-! ## 5. Programs -/

theorem whole_agrees (h : b.Stands c 0) : Agrees (· = ·) (b.reading.whole c) b.whole := by
  refine (b.line_agrees b.limit c 0 h).bind fun t t' ht => ?_
  obtain ⟨program, c₁⟩ := t
  obtain ⟨program', i₁⟩ := t'
  obtain ⟨rfl, h₁⟩ : program = program' ∧ b.Stands c₁ i₁ := ht
  have h₂ := h₁.skipSpaces
  dsimp only
  rw [h₂.bytes]
  cases hrest : c₁.skipSpaces.rest with
  | nil =>
    cases program with
    | none => exact h₂.missing _
    | some e => exact .ok rfl
  | cons ch rest =>
    obtain ⟨byte, bytes, hbytes⟩ :=
      List.exists_cons_of_ne_nil (String.utf8EncodeChar_ne_nil (c := ch))
    rw [utf8_cons, hbytes, List.cons_append]
    dsimp only
    rw [h₂.seen]
    exact h₂.fails _

end ByteReading

section Imbalance

variable {n : Nesting} {d o : Nat} {bs : List UInt8}

/-- The characters that the scan for partners looks for. -/
def partnerChars : List Char := ['"', '(', ')', '\\']

/-- A byte that the scan does not look for. -/
def Unpaired (b : UInt8) : Prop := ∀ ch ∈ partnerChars, b ≠ byteOf ch

theorem partnerChars_ascii {ch : Char} (h : ch ∈ partnerChars) : ch.utf8Size = 1 := by
  have hall : (partnerChars.all fun ch => ch.utf8Size == 1) = true := by decide
  exact beq_iff_eq.mp (List.all_eq_true.mp hall ch h)

theorem unpaired_of_high {b : UInt8} (h : 128 ≤ b) : Unpaired b := fun _ hch =>
  byteOf_ne_of_high h (partnerChars_ascii hch)

theorem unpaired_of_mem_encode {c : Char} (hc : c ∉ partnerChars) :
    ∀ b ∈ String.utf8EncodeChar c, Unpaired b := by
  intro b hb
  rcases encode_cases c with ⟨hsize, henc, _⟩ | ⟨_, hhigh⟩
  · rw [henc, List.mem_singleton] at hb
    subst hb
    intro ch hch he
    rw [byteOf_inj hsize (partnerChars_ascii hch)] at he
    exact hc (he ▸ hch)
  · exact unpaired_of_high (hhigh b hb)

/-- Bytes that the scan does not look for are passed over. -/
theorem imbalanceBytes_unpaired {us : List UInt8} (hn : n ≠ .escape) (h : ∀ b ∈ us, Unpaired b) :
    imbalanceBytes n d o (us ++ bs) = imbalanceBytes n d (o + us.length) bs := by
  induction us generalizing o with
  | nil => rfl
  | cons b us ih =>
    have hb := h b (by simp)
    have hstep :
        imbalanceBytes n d o (b :: (us ++ bs)) = imbalanceBytes n d (o + 1) (us ++ bs) := by
      have hquote := hb '"' (by decide)
      cases n with
      | code =>
        have hopen := hb '(' (by decide)
        have hclose := hb ')' (by decide)
        cases d <;> exact (if_neg hquote).trans ((if_neg hopen).trans (if_neg hclose))
      | string => exact (if_neg (hb '\\' (by decide))).trans (if_neg hquote)
      | escape => exact absurd rfl hn
    rw [List.cons_append, hstep, ih fun b' hb' => h b' (by simp [hb']), List.length_cons]
    congr 1
    omega

theorem imbalanceFrom_unpaired {c : Char} {cs : List Char} (hn : n ≠ .escape)
    (hc : c ∉ partnerChars) :
    imbalanceFrom n d o (c :: cs) = imbalanceFrom n d (o + c.utf8Size) cs := by
  simp only [partnerChars, List.mem_cons, List.not_mem_nil, or_false, not_or] at hc
  obtain ⟨hquote, hopen, hclose, hslash⟩ := hc
  cases n with
  | code => exact imbalanceFrom_bare ⟨hopen, hclose, hquote⟩
  | string => rw [imbalanceFrom_string, if_neg hslash, if_neg hquote]
  | escape => exact absurd rfl hn

/-- **The scan for partners, byte by byte.** A backslash in a string takes one byte along; of a
    longer character the other bytes are 128 or more, and mean nothing. -/
theorem imbalanceBytes_utf8 (n : Nesting) (d o : Nat) (cs : List Char) :
    imbalanceBytes n d o (utf8 cs) = imbalanceFrom n d o cs := by
  induction cs generalizing n d o with
  | nil => cases n <;> cases d <;> rfl
  | cons c cs ih =>
    rw [utf8_cons]
    by_cases hn : n = .escape
    · subst hn
      obtain ⟨b, us, henc, hlength, hhigh⟩ := encode_cons c
      have hus : ∀ b ∈ us, Unpaired b := fun b hb => unpaired_of_high (hhigh b hb)
      rw [henc, imbalanceFrom_escape, ← ih, ← hlength]
      show imbalanceBytes .string d (o + 1) (us ++ utf8 cs) = _
      rw [imbalanceBytes_unpaired (by decide) hus]
      congr 1
      omega
    by_cases hc : c ∈ partnerChars
    · have hsize := partnerChars_ascii hc
      rw [String.utf8EncodeChar_eq_singleton hsize, List.singleton_append]
      simp only [partnerChars, List.mem_cons, List.not_mem_nil, or_false] at hc
      cases n with
      | escape => exact absurd rfl hn
      | string =>
        rcases hc with rfl | rfl | rfl | rfl
        · exact ih .code d (o + 1)
        · exact ih .string d (o + 1)
        · exact ih .string d (o + 1)
        · exact ih .escape d (o + 1)
      | code =>
        rcases hc with rfl | rfl | rfl | rfl
        · rw [imbalanceFrom_quote, ← ih]
          cases d <;> rfl
        · rw [imbalanceFrom_open, ← ih]
          cases d <;> rfl
        · cases d with
          | zero => rfl
          | succ d => exact ih .code d (o + 1)
        · rw [imbalanceFrom_bare ⟨by decide, by decide, by decide⟩, ← ih]
          cases d <;> rfl
    · rw [imbalanceBytes_unpaired hn (unpaired_of_mem_encode hc), String.length_utf8EncodeChar, ih,
        imbalanceFrom_unpaired hn hc]

end Imbalance

/-- The author's part can be cut out of the prepared text. -/
theorem slice?_prepare (program : List Char) (defs : List Definition) :
    slice? (prepare program defs).text (byteCount (opening defs))
      (byteCount (opening defs) + byteCount program) = some (blankText program) := by
  have hfront : byteCount (opening defs) = byteCount (blankText (opening defs)) :=
    (byteCount_blankFrom _ _).symm
  have hprogram : byteCount program = byteCount (blankText program) :=
    (byteCount_blankFrom _ _).symm
  rw [hfront, hprogram, Prepared.text, List.append_assoc]
  exact slice?_append _ _ _

theorem ByteReading.balanced_agrees {b : ByteReading} {part : List Char}
    (h : slice? b.text b.front b.authorEnd = some part) :
    Agrees (fun _ _ => True) (b.reading.balanced part) b.balanced := by
  have hend : b.pos b.authorEnd = ⟨b.source, b.source.size⟩ := by
    rw [ByteReading.pos, authorEnd]
    congr 1
    omega
  unfold Reading.balanced balanced
  rw [h]
  dsimp only
  rw [imbalanceBytes_utf8, ← imbalance?]
  cases imbalance? part with
  | none => exact .ok trivial
  | some fault =>
    cases fault with
    | close offset =>
      have hclose : b.pos (b.front + offset) = ⟨b.source, offset⟩ := by
        rw [ByteReading.pos]
        congr 1
        omega
      dsimp only
      rw [fail, hclose]
      exact .fault _
    | paren =>
      dsimp only
      rw [fail, hend]
      exact .fault _
    | string =>
      dsimp only
      rw [fail, hend]
      exact .fault _

/-- **Reading byte by byte is reading character by character.** It gives the same tree or the same
    fault, and never cuts a piece out of the text that begins or ends inside a character. -/
theorem parseBytes_eq (source : Source) (defs : List Definition) (maxDepth : Nat) :
    parseBytes source defs maxDepth = (parse source defs maxDepth).mapError .fault := by
  have hagree : Agrees (· = ·) (parse source defs maxDepth) (parseBytes source defs maxDepth) := by
    let b : ByteReading :=
      ⟨source, maxDepth, (prepare source.chars defs).text, byteCount (opening defs)⟩
    have hstart : b.Stands ⟨b.text, -((prepare source.chars defs).offset : Int)⟩ 0 := by
      refine ⟨⟨[], rfl, rfl⟩, ?_⟩
      show -((byteCount (blankText (opening defs)) : Nat) : Int) =
        (0 : Nat) - byteCount (opening defs)
      rw [blankText, byteCount_blankFrom]
      omega
    have hpart : slice? b.text b.front b.authorEnd = some (blankText source.chars) :=
      slice?_prepare source.chars defs
    unfold parse parseBytes
    cases defs with
    | nil => exact b.whole_agrees hstart
    | cons d ds =>
      exact (b.balanced_agrees hpart).bind fun _ _ _ => b.whole_agrees hstart
  revert hagree
  generalize parse source defs maxDepth = x
  generalize parseBytes source defs maxDepth = y
  intro hagree
  cases hagree with
  | ok h => rw [h]; rfl
  | fault e => rfl

end CallByNeed
