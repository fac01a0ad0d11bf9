/-
  File:      CallByNeed/Proofs/Parser/Anchors.lean
  Subject:   Every node points at its own first character.

  A place is given to a node where its first token is read, or taken over from its left operand when
  a line is made a tree; the nodes that a definition `\x op value ; body` stands for share the place
  of its backslash. So the text at the place of a node begins as such a node begins, and nothing
  below a node stands before it.

  * `NameAt`, `Expr.Begins` -- what is written where a node begins;
  * `Expr.Anchored`, `Expr.Points` -- a node at the place of such text, and a tree of such nodes, none
    of them before the one above it;
  * `InOrder`, `OpTree.points` -- the operands and operators of a line from left to right, and the
    tree made of them;
  * `Reading.term?_anchors`, `Reading.line_anchors` -- terms and lines;
  * `parse_anchored` -- programs, and the names that they do not bind.
-/
import CallByNeed.Proofs.Checking
import CallByNeed.Proofs.Diagnosis
import CallByNeed.Proofs.Literal
import CallByNeed.Proofs.Parser.Facing

namespace CallByNeed

/-! ## 1. What nodes begin with -/

/-- What is written where a name stands. -/
inductive NameAt (x : String) (s : List Char) : Prop where
  | word {s' : List Char} (h : Longest isNameChar x s s')
  | operator {s' : List Char} (h : Longest isOperatorChar x s s')
  | bracketed {s' : List Char} (h : BracketedAt x s s')
  /-- The backslash of `\y op value ; body`, where the name is the operator from the other side. -/
  | defining {op : String} {s₁ s₂ s₃ s₄ s₅ : List Char} (hs : s = '\\' :: s₁) (h₁ : Skips s₁ s₂)
      (hparam : ParamAt s₂ s₃) (h₂ : Skips s₃ s₄) (hop : Longest isOperatorChar op s₄ s₅)
      (hx : op = Operator.flipped x)

/-- What is written where a node begins. -/
def Expr.Begins : Expr → List Char → Prop
  | .number _ n, s => ∃ sign s₁ digits s', IsSign sign ∧ s = sign ++ s₁ ∧
      Longest Char.isDigit digits s₁ s' ∧ numeralValue (sign ++ digits.toList) = n.toInt
  | .string .., s => ∃ s', s = '"' :: s'
  | .name _ x, s => NameAt x s
  | .builtin _ x, s => ∃ s₁ s', s = '@' :: s₁ ∧ Longest isNameChar x s₁ s'
  | .lambda .., s => ∃ s', s = '\\' :: s'
  | .apply .., s => s ≠ []

theorem Expr.Begins.ne_nil {e : Expr} {s : List Char} (h : e.Begins s) : s ≠ [] := by
  cases e with
  | number p n =>
    obtain ⟨sign, s₁, digits, s', _, rfl, hdigits, _⟩ := h
    exact List.append_ne_nil_of_right_ne_nil _ hdigits.ne_nil
  | string p t =>
    obtain ⟨s', rfl⟩ := h
    exact List.cons_ne_nil _ _
  | name p x =>
    cases h with
    | word h => exact h.ne_nil
    | operator h => exact h.ne_nil
    | bracketed h =>
      obtain ⟨s₁, _, _, rfl, _⟩ := h
      exact List.cons_ne_nil _ _
    | defining hs =>
      rw [hs]
      exact List.cons_ne_nil _ _
  | builtin p x =>
    obtain ⟨s₁, _, rfl, _⟩ := h
    exact List.cons_ne_nil _ _
  | lambda p x body =>
    obtain ⟨s', rfl⟩ := h
    exact List.cons_ne_nil _ _
  | apply p func arg => exact h

/-- An operator from the other side is, from the other side, itself. -/
theorem Operator.flipped_flipped (op : String) : flipped (flipped op) = op := by
  have hflip : flipChar ∘ flipChar = id := by
    funext ch
    simp only [Function.comp_apply, flipChar, id]
    split_ifs <;> simp_all
  rw [flipped, flipped, String.toList_ofList, ← List.map_reverse, List.reverse_reverse, List.map_map,
    hflip, List.map_id, String.ofList_toList]

/-- No operator is a word. -/
theorem Spelled.not_word {x : String} (h : Spelled isOperatorChar x) : ¬ Spelled isNameChar x := by
  intro hword
  obtain ⟨ch, chars, hchars⟩ := List.exists_cons_of_ne_nil h.1
  have hmem : ch ∈ x.toList := by rw [hchars]; exact List.mem_cons_self
  have hop := h.2 ch hmem
  rw [isOperatorChar_of_isNameChar (hword.2 ch hmem)] at hop
  cases hop

/-- A word is written as a word. -/
theorem NameAt.longest {x : String} {s : List Char} (h : NameAt x s) (hx : Spelled isNameChar x) :
    ∃ s', Longest isNameChar x s s' := by
  cases h with
  | word h => exact ⟨_, h⟩
  | operator h => exact absurd hx h.spelled.not_word
  | bracketed h =>
    obtain ⟨_, _, _, _, _, hop, _⟩ := h
    exact absurd hx hop.spelled.not_word
  | defining _ _ _ _ hop hflip =>
    have hspelled := hop.spelled.flipped
    rw [hflip, Operator.flipped_flipped] at hspelled
    exact absurd hx hspelled.not_word

/-! ## 2. Trees of such nodes -/

namespace Expr

/-- The node stands in the source where such a node begins. -/
def Anchored (source : Source) (e : Expr) : Prop :=
  ∃ before s, source.chars = before ++ s ∧ e.pos = ⟨source, byteCount before⟩ ∧ e.Begins s

/-- All nodes of a tree stand where they begin, and none of them before the one above it. -/
def Points (source : Source) : Expr → Prop
  | .number p n => Anchored source (.number p n)
  | .string p t => Anchored source (.string p t)
  | .name p x => Anchored source (.name p x)
  | .builtin p x => Anchored source (.builtin p x)
  | .lambda p x body =>
    Anchored source (.lambda p x body) ∧ p.offset ≤ body.pos.offset ∧ body.Points source
  | .apply p func arg =>
    Anchored source (.apply p func arg) ∧ p.offset ≤ func.pos.offset ∧ p.offset ≤ arg.pos.offset ∧
      func.Points source ∧ arg.Points source

variable {source : Source} {e func arg : Expr} {p : Pos}

theorem Points.anchored (h : e.Points source) : e.Anchored source := by
  cases e with
  | number | string | name | builtin => exact h
  | lambda | apply => exact h.1

/-- An application at the place of another node. -/
theorem Points.apply (h : e.Points source) (hp : e.pos = p) (hfunc : func.Points source)
    (harg : arg.Points source) (hf : p.offset ≤ func.pos.offset) (ha : p.offset ≤ arg.pos.offset) :
    (Expr.apply p func arg).Points source := by
  obtain ⟨before, s, hchars, hpos, hbegins⟩ := h.anchored
  exact ⟨⟨before, s, hchars, hp.symm.trans hpos, hbegins.ne_nil⟩, hf, ha, hfunc, harg⟩

/-- **The place of a node is the first one below it.** -/
theorem Points.first (h : e.Points source) : e.Each (e.pos.offset ≤ ·.offset) := by
  induction e with
  | number | string | name | builtin => exact Int.le_refl _
  | lambda p x body ih =>
    obtain ⟨_, hle, hbody⟩ := h
    exact ⟨Int.le_refl _, each_imp (fun q hq => Int.le_trans hle hq) (ih hbody)⟩
  | apply p func arg ihf iha =>
    obtain ⟨_, hf, ha, hfunc, harg⟩ := h
    exact ⟨Int.le_refl _, each_imp (fun q hq => Int.le_trans hf hq) (ihf hfunc),
      each_imp (fun q hq => Int.le_trans ha hq) (iha harg)⟩

/-- Every node of such a tree is such a tree. -/
theorem Points.node (h : e.Points source) {params params' : List String} {n : Expr}
    (hn : (params, n) ∈ e.nodes params') : n.Points source := by
  induction e generalizing params' with
  | number | string | name | builtin =>
    obtain ⟨_, rfl⟩ := Prod.mk.inj (List.mem_singleton.mp hn)
    exact h
  | lambda p x body ih =>
    rcases List.mem_cons.mp hn with heq | hn
    · obtain ⟨_, rfl⟩ := Prod.mk.inj heq
      exact h
    · exact ih h.2.2 hn
  | apply p func arg ihf iha =>
    rcases List.mem_cons.mp hn with heq | hn
    · obtain ⟨_, rfl⟩ := Prod.mk.inj heq
      exact h
    · obtain ⟨_, _, _, hfunc, harg⟩ := h
      exact (List.mem_append.mp hn).elim (ihf hfunc) (iha harg)

end Expr

/-! ## 3. Lines -/

/-- Where an item of a line begins. Nothing is written for side by side. -/
def itemStart : Expr ⊕ Joint → Option Int
  | .inl e => some e.pos.offset
  | .inr (.operator p _) => some p.offset
  | .inr .sideBySide => none

/-- An item of a line stands where it begins. -/
def ItemPoints (source : Source) : Expr ⊕ Joint → Prop
  | .inl e => e.Points source
  | .inr (.operator p x) => (Expr.name p x).Points source
  | .inr .sideBySide => True

/-- One item is not behind another. -/
def ItemBefore (i j : Expr ⊕ Joint) : Prop := ∀ o ∈ itemStart i, ∀ o' ∈ itemStart j, o ≤ o'

/-- Items of a line from left to right, between two offsets. -/
structure InOrder (source : Source) (lo hi : Int) (items : List (Expr ⊕ Joint)) : Prop where
  points : ∀ i ∈ items, ItemPoints source i
  bounds : ∀ i ∈ items, ∀ o ∈ itemStart i, lo ≤ o ∧ o ≤ hi
  sorted : items.Pairwise ItemBefore

namespace InOrder

variable {source : Source} {lo mid hi : Int} {items items' : List (Expr ⊕ Joint)}

theorem nil : InOrder source lo hi [] := ⟨nofun, nofun, .nil⟩

theorem single {i : Expr ⊕ Joint} (hi : ItemPoints source i)
    (hbounds : ∀ o ∈ itemStart i, lo ≤ o ∧ o ≤ mid) : InOrder source lo mid [i] where
  points := by simpa using hi
  bounds := by simpa using hbounds
  sorted := List.pairwise_singleton _ _

theorem widen {lo' hi' : Int} (h : InOrder source lo hi items) (hlo : lo' ≤ lo) (hhi : hi ≤ hi') :
    InOrder source lo' hi' items :=
  ⟨h.points, fun i hi o ho => (h.bounds i hi o ho).imp (Int.le_trans hlo) (Int.le_trans · hhi),
    h.sorted⟩

theorem append (h : InOrder source lo mid items) (h' : InOrder source mid hi items')
    (hlo : lo ≤ mid) (hhi : mid ≤ hi) : InOrder source lo hi (items ++ items') where
  points i hi := (List.mem_append.mp hi).elim (h.points i) (h'.points i)
  bounds i hi := (List.mem_append.mp hi).elim ((h.widen (Int.le_refl lo) hhi).bounds i)
    ((h'.widen hlo (Int.le_refl _)).bounds i)
  sorted := List.pairwise_append.mpr ⟨h.sorted, h'.sorted, fun i hi j hj o ho o' ho' =>
    Int.le_trans (h.bounds i hi o ho).2 (h'.bounds j hj o' ho').1⟩

end InOrder

/-- **The tree of items from left to right.** It begins where one of them does. -/
theorem OpTree.points {source : Source} {t : OpTree Expr Joint}
    (hpoints : ∀ i ∈ t.items, ItemPoints source i) (hsorted : t.items.Pairwise ItemBefore) :
    t.expr.Points source ∧ ∃ i ∈ t.items, itemStart i = some t.expr.pos.offset := by
  induction t with
  | leaf e => exact ⟨hpoints _ List.mem_cons_self, _, List.mem_cons_self, rfl⟩
  | leading op right ih =>
    obtain ⟨hop, hright⟩ := List.forall_mem_cons.mp hpoints
    obtain ⟨hbefore, hsorted⟩ := List.pairwise_cons.mp hsorted
    obtain ⟨htree, i, hi, hstart⟩ := ih hright hsorted
    cases op with
    | sideBySide => exact ⟨htree, i, List.mem_cons_of_mem _ hi, hstart⟩
    | operator p x =>
      have hle : p.offset ≤ right.expr.pos.offset := hbefore i hi _ rfl _ hstart
      exact ⟨Expr.Points.apply hop rfl hop htree (Int.le_refl _) hle, _, List.mem_cons_self, rfl⟩
  | binary left op right ihl ihr =>
    rw [items, List.forall_mem_append, List.forall_mem_cons] at hpoints
    obtain ⟨hleft, hop, hright⟩ := hpoints
    obtain ⟨hsortedl, hsorted, hcross⟩ := List.pairwise_append.mp hsorted
    obtain ⟨hbefore, hsortedr⟩ := List.pairwise_cons.mp hsorted
    obtain ⟨htreel, i, hi, hstarti⟩ := ihl hleft hsortedl
    obtain ⟨htreer, j, hj, hstartj⟩ := ihr hright hsortedr
    have hle : left.expr.pos.offset ≤ right.expr.pos.offset :=
      hcross i hi j (List.mem_cons_of_mem _ hj) _ hstarti _ hstartj
    refine ⟨?_, i, List.mem_append_left _ hi, ?_⟩
    · cases op with
      | sideBySide => exact htreel.apply rfl htreel htreer (Int.le_refl _) hle
      | operator p x =>
        have hlep : left.expr.pos.offset ≤ p.offset :=
          hcross i hi _ List.mem_cons_self _ hstarti _ rfl
        exact htreel.apply rfl (htreel.apply rfl hop htreel hlep (Int.le_refl _)) htreer
          (Int.le_refl _) hle
    · rw [hstarti]
      cases op <;> rfl

/-! ## 4. Readers -/

/-- A tree that was read between two cursors in the author's text. -/
structure Reading.Anchors (r : Reading) (c : Cursor) (e : Expr) (c' : Cursor) : Prop where
  points : e.Points r.source
  start : c.offset ≤ e.pos.offset
  stop : e.pos.offset ≤ c'.offset
  faces : ∃ s, Faces r.source c' s

/-- Trees of lines that the reader reads in the author's text. -/
def LineReader.Anchors (r : Reading) (line : LineReader) : Prop :=
  ∀ c s e c', Faces r.source c s → line c = .ok (some e, c') → r.Anchors c e c'

/-- Trees of terms that the reader reads in the author's text. -/
def TermReader.Anchors (r : Reading) (term : TermReader) : Prop :=
  ∀ c s e c', Faces r.source c s → term c = .ok (some (e, c')) → r.Anchors c e c'

namespace Reading

variable {r : Reading} {line : LineReader} {term : TermReader} {c c₁ c' : Cursor} {s : List Char}
  {e : Expr}

/-- A node where the cursor stands. -/
theorem anchored_here (h : Faces r.source c s) (hpos : e.pos = r.pos c) (hbegins : e.Begins s) :
    e.Anchored r.source := by
  obtain ⟨⟨before, hchars, hoffset⟩, _⟩ := h
  exact ⟨before, s, hchars, by rw [hpos, pos, hoffset], hbegins⟩

/-- A tree that begins where the cursor stands. -/
theorem anchors_here (hpoints : e.Points r.source) (hpos : e.pos = r.pos c)
    (hpast : ∃ read, c.Past read c') (hfaces : ∃ s, Faces r.source c' s) : r.Anchors c e c' := by
  obtain ⟨read, hpast⟩ := hpast
  have hstart : e.pos.offset = c.offset := by rw [hpos]; rfl
  exact ⟨hpoints, Int.le_of_eq hstart.symm, hstart ▸ hpast.offset_le, hfaces⟩

theorem group_anchors (hline : LineReader.Anchors r line) (h : Faces r.source c s)
    (hread : r.group line c = .ok (some (e, c'))) : r.Anchors c e c' := by
  simp only [group, Parsed.bind_eq_ok] at hread
  obtain ⟨⟨inner, c₁⟩, hinner, c₂, hclose, hread⟩ := hread
  cases hread
  obtain ⟨hpoints, hstart, hstop, s₁, h₁⟩ := hline _ _ _ _ h (lineOr_eq_ok.mp hinner)
  have hparen := punctuation_eq_ok.mp hclose
  obtain ⟨s₂, h₂, _⟩ := h₁.skipSpaces
  obtain ⟨s', h', _⟩ := h₂.eat? (by decide) (by decide) hparen
  obtain ⟨blanks, hblanks⟩ := c₁.skipSpaces_past
  have hle := (hblanks.trans (Cursor.eat?_eq_some.mp hparen)).offset_le
  exact ⟨hpoints, hstart, Int.le_trans hstop hle, s', h'⟩

theorem builtin_anchors (h : Faces r.source c s) (hat : c.eat? '@' = some c₁)
    (hread : r.builtin (r.pos c) c₁ = .ok (some (e, c'))) : r.Anchors c e c' := by
  obtain ⟨s₁, h₁, hs⟩ := h.eat? (by decide) (by decide) hat
  obtain ⟨read, hpast⟩ := builtin_past hread
  simp only [builtin] at hread
  split at hread
  · rename_i name c₂ hname
    cases hread
    obtain ⟨s', h', hlongest⟩ := h₁.word? hname
    exact anchors_here (anchored_here h rfl ⟨s₁, s', hs, hlongest⟩) rfl
      ⟨_, (Cursor.eat?_eq_some.mp hat).trans hpast⟩ ⟨s', h'⟩
  · cases hread

theorem string_anchors (h : Faces r.source c s) (hquote : c.eat? '"' = some c₁)
    (hread : r.string (r.pos c) c₁ = .ok (some (e, c'))) : r.Anchors c e c' := by
  obtain ⟨read, hpast⟩ := string_past hread
  simp only [string] at hread
  split at hread
  · rename_i body c₂ hbody
    cases hread
    obtain ⟨s', h', hs⟩ := h.string hquote hbody
    exact anchors_here (anchored_here h rfl hs) rfl
      ⟨_, (Cursor.eat?_eq_some.mp hquote).trans hpast⟩ ⟨s', h'⟩
  · cases hread

theorem plain_anchors (h : Faces r.source c s) (hread : r.plain c = .ok (some (e, c'))) :
    r.Anchors c e c' := by
  obtain ⟨read, _, hpast⟩ := plain_past hread
  simp only [plain] at hread
  split at hread
  · rename_i numeral c₁ hnum
    obtain ⟨s', h', sign, s₁, digits, hsign, hs, hlongest, rfl⟩ := h.numeral? hnum
    split at hread
    · rename_i n hn
      cases hread
      exact anchors_here (anchored_here h rfl ⟨sign, s₁, digits, s', hsign, hs, hlongest,
        toInt_of_word? hn⟩) rfl ⟨_, hpast⟩ ⟨s', h'⟩
    · cases hread
  · cases hw : c.word? with
    | none =>
      rw [hw] at hread
      cases hread
    | some t =>
      rw [hw] at hread
      cases hread
      obtain ⟨s', h', hlongest⟩ := h.word? hw
      exact anchors_here (anchored_here h rfl (.word hlongest)) rfl ⟨_, hpast⟩ ⟨s', h'⟩

/-- **The nodes of a lambda share the place of its backslash**, and its lines stand behind it. -/
theorem lambda_anchors (hline : LineReader.Anchors r line) (hadv : LineReader.Advances line)
    (h : Faces r.source c s) (hslash : c.eat? '\\' = some c₁)
    (hread : r.lambda line (r.pos c) c₁ = .ok (some (e, c'))) : r.Anchors c e c' := by
  obtain ⟨s₁, h₁, hs⟩ := h.eat? (by decide) (by decide) hslash
  obtain ⟨s₂, h₂, hbinder⟩ := h₁.binder
  have hpast := Cursor.eat?_eq_some.mp hslash
  obtain ⟨whole, hwhole⟩ := lambda_past hadv hread
  obtain ⟨blanks, hblanks⟩ := c₁.skipSpaces_past
  obtain ⟨name, hname⟩ := param_past c₁.skipSpaces
  obtain ⟨blanks', hblanks'⟩ := (param c₁.skipSpaces).2.skipSpaces_past
  have hhead := hpast.trans (hblanks.trans (hname.trans hblanks'))
  -- a lambda here, around a body further on
  have made {x : String} {body : Expr} {c₂ c₃ : Cursor} (hle : c.offset ≤ c₂.offset)
      (hbody : r.Anchors c₂ body c₃) : (Expr.lambda (r.pos c) x body).Points r.source :=
    ⟨anchored_here h rfl ⟨s₁, hs⟩, Int.le_trans hle hbody.start, hbody.points⟩
  simp only [lambda] at hread
  split at hread
  · rename_i c₂ hdot
    simp only [Parsed.bind_eq_ok] at hread
    obtain ⟨⟨body, c₃⟩, hbody, hread⟩ := hread
    cases hread
    obtain ⟨s₃, h₃, _⟩ := h₂.eat? (by decide) (by decide) hdot
    have hbody := hline _ _ _ _ h₃ (lineOr_eq_ok.mp hbody)
    have hle := (hhead.trans (Cursor.eat?_eq_some.mp hdot)).offset_le
    exact anchors_here (made hle hbody) rfl ⟨_, hpast.trans hwhole⟩ hbody.faces
  · split at hread
    · cases hread
    · rename_i op c₂ hop
      simp only [Parsed.bind_eq_ok] at hread
      obtain ⟨⟨value, c₃⟩, hvalue, c₄, hsemi, ⟨body, c₅⟩, hbody, hread⟩ := hread
      cases hread
      obtain ⟨s₃, h₃, hlongest⟩ := h₂.operator? hop
      obtain ⟨t₁, t₂, hgap, hparam, hgap'⟩ := hbinder hlongest.ne_nil
      have hvaluePast := hhead.trans (Cursor.run?_eq_some hop).1
      obtain ⟨read, hread⟩ := hadv _ _ _ (lineOr_eq_ok.mp hvalue)
      have hvalue := hline _ _ _ _ h₃ (lineOr_eq_ok.mp hvalue)
      obtain ⟨s₄, h₄⟩ := hvalue.faces
      obtain ⟨s₅, h₅, _⟩ := h₄.skipSpaces
      have hsemi := punctuation_eq_ok.mp hsemi
      obtain ⟨s₆, h₆, _⟩ := h₅.eat? (by decide) (by decide) hsemi
      obtain ⟨blanks'', hblanks''⟩ := c₃.skipSpaces_past
      have hbody := hline _ _ _ _ h₆ (lineOr_eq_ok.mp hbody)
      have hle := (hvaluePast.trans (hread.trans
        (hblanks''.trans (Cursor.eat?_eq_some.mp hsemi)))).offset_le
      have hflipped : (Expr.name (r.pos c) (Operator.flipped op)).Points r.source :=
        anchored_here h rfl
          (.defining hs hgap hparam hgap' hlongest (Operator.flipped_flipped op).symm)
      have hpartly := hflipped.apply rfl hflipped hvalue.points (Int.le_refl _)
        (Int.le_trans hvaluePast.offset_le hvalue.start)
      exact anchors_here (hflipped.apply rfl hpartly (made hle hbody) (Int.le_refl _)
        (Int.le_refl _)) rfl ⟨_, hpast.trans hwhole⟩ hbody.faces

/-- **Terms point at what they were read from.** -/
theorem term?_anchors (hline : LineReader.Anchors r line) (hadv : LineReader.Advances line) :
    TermReader.Anchors r (r.term? line) := by
  intro c s e c' h hread
  cases ho : c.eat? '(' with
  | some c₁ =>
    rw [term?_open ho] at hread
    split at hread
    · rename_i op c₂ hop
      cases hread
      obtain ⟨s', h', hbracketed⟩ := h.bracketedOperator? hop
      obtain ⟨read, _, hpast, _⟩ := Cursor.bracketedOperator?_eq_some hop
      exact anchors_here (anchored_here h rfl (.bracketed hbracketed)) rfl ⟨read, hpast⟩ ⟨s', h'⟩
    · obtain ⟨s₁, h₁, _⟩ := h.eat? (by decide) (by decide) ho
      obtain ⟨hpoints, hstart, hstop, hfaces⟩ := group_anchors hline h₁ hread
      have hle := Cursor.Past.offset_le (Cursor.eat?_eq_some.mp ho)
      exact ⟨hpoints, Int.le_trans hle hstart, hstop, hfaces⟩
  | none =>
  cases ha : c.eat? '@' with
  | some c₁ =>
    rw [term?_at ha] at hread
    exact builtin_anchors h ha hread
  | none =>
  cases hb : c.eat? '\\' with
  | some c₁ =>
    rw [term?_backslash hb] at hread
    exact lambda_anchors hline hadv h hb hread
  | none =>
  cases hq : c.eat? '"' with
  | some c₁ =>
    rw [term?_quote hq] at hread
    exact string_anchors h hq hread
  | none =>
    rw [term?_plain ho ha hb hq] at hread
    exact plain_anchors h hread

theorem jointAt_inOrder (h : Faces r.source c s) :
    InOrder r.source c.offset (r.jointAt c).2.offset [.inr (r.jointAt c).1] ∧
      ∃ s', Faces r.source (r.jointAt c).2 s' := by
  unfold jointAt
  split
  · rename_i x c₁ hop
    obtain ⟨s', h', hlongest⟩ := h.operator? hop
    have hle := (Cursor.run?_eq_some hop).1.offset_le
    refine ⟨.single (anchored_here h rfl (.operator hlongest)) ?_, s', h'⟩
    rintro o ⟨⟩
    exact ⟨Int.le_refl _, hle⟩
  · exact ⟨.single trivial nofun, s, h⟩

/-- One more operand, from the spaces in front of it on. -/
theorem operand_inOrder (hterm : TermReader.Anchors r term) (h : Faces r.source c s)
    (hread : term (r.jointAt c.skipSpaces).2.skipSpaces = .ok (some (e, c'))) :
    InOrder r.source c.offset c'.offset [.inr (r.jointAt c.skipSpaces).1, .inl e] ∧
      ∃ s', Faces r.source c' s' := by
  obtain ⟨s₁, h₁, _⟩ := h.skipSpaces
  obtain ⟨hjoint, s₂, h₂⟩ := r.jointAt_inOrder h₁
  obtain ⟨s₃, h₃, _⟩ := h₂.skipSpaces
  obtain ⟨hpoints, hstart, hstop, hfaces⟩ := hterm _ _ _ _ h₃ hread
  obtain ⟨blanks, hblanks⟩ := c.skipSpaces_past
  obtain ⟨op, hop⟩ := r.jointAt_past c.skipSpaces
  obtain ⟨blanks', hblanks'⟩ := (r.jointAt c.skipSpaces).2.skipSpaces_past
  have hle := hblanks'.offset_le
  have hitem : InOrder r.source (r.jointAt c.skipSpaces).2.offset c'.offset [.inl e] := by
    refine .single hpoints ?_
    rintro o ⟨⟩
    exact ⟨Int.le_trans hle hstart, hstop⟩
  exact ⟨(hjoint.widen hblanks.offset_le (Int.le_refl _)).append hitem
    (hblanks.trans hop).offset_le (by omega), hfaces⟩

/-- **Operands stand in order.** The induction is on the characters that count them. -/
theorem operands_inOrder (hterm : TermReader.Anchors r term) {chars : List Char}
    {done ops : List (Joint × Expr)} {lo : Int} (h : Faces r.source c s) (hlo : lo ≤ c.offset)
    (hdone : InOrder r.source lo c.offset (Line.pairItems done.reverse))
    (hread : r.operands term chars done c = .ok (ops, c')) :
    lo ≤ c'.offset ∧ InOrder r.source lo c'.offset (Line.pairItems ops) ∧
      ∃ s', Faces r.source c' s' := by
  induction chars generalizing done c s with
  | nil =>
    cases hread
    exact ⟨hlo, hdone, s, h⟩
  | cons _ chars ih =>
    obtain ⟨read, hpast⟩ := r.operand_past c
    simp only [operands] at hread
    split at hread
    · cases hread
    · rename_i operand c₁ ht
      obtain ⟨hitems, s₁, h₁⟩ := operand_inOrder hterm h ht
      obtain ⟨hstart, hstop⟩ := hitems.bounds (.inl operand) (by simp) _ rfl
      have hle := Int.le_trans hstart hstop
      refine ih h₁ (Int.le_trans hlo hle) ?_ hread
      have hsplit : Line.pairItems (((r.jointAt c.skipSpaces).1, operand) :: done).reverse =
          Line.pairItems done.reverse ++ [.inr (r.jointAt c.skipSpaces).1, .inl operand] := by
        simp [Line.pairItems]
      rw [hsplit]
      exact hdone.append hitems hlo hle
    · split at hread
      · cases hread
        obtain ⟨s₁, h₁, _⟩ := h.skipSpaces
        obtain ⟨_, s₂, h₂⟩ := r.jointAt_inOrder h₁
        obtain ⟨s₃, h₃, _⟩ := h₂.skipSpaces
        exact ⟨Int.le_trans hlo hpast.offset_le,
          hdone.widen (Int.le_refl _) hpast.offset_le, s₃, h₃⟩
      · cases hread

theorem flatLine_inOrder (hterm : TermReader.Anchors r term) {l : Line} (h : Faces r.source c s)
    (hread : r.flatLine term c = .ok (l, c')) :
    InOrder r.source c.offset c'.offset l.items ∧ ∃ s', Faces r.source c' s' := by
  simp only [flatLine, Parsed.bind_eq_ok] at hread
  obtain ⟨first, hfirst, ⟨ops, c₁⟩, hops, hread⟩ := hread
  cases hread
  obtain ⟨blanks, hblanks⟩ := c.skipSpaces_past
  obtain ⟨s₁, h₁, _⟩ := h.skipSpaces
  cases first with
  | none =>
    obtain ⟨_, hitems, hfaces⟩ := operands_inOrder hterm h₁ (Int.le_refl _) .nil hops
    exact ⟨hitems.widen hblanks.offset_le (Int.le_refl _), hfaces⟩
  | some t =>
    obtain ⟨hpoints, hstart, hstop, s₂, h₂⟩ := hterm _ _ _ _ h₁ hfirst
    obtain ⟨hle, hitems, hfaces⟩ := operands_inOrder hterm h₂ (Int.le_refl _) .nil hops
    have hitem : InOrder r.source c.offset t.2.offset [.inl t.1] := by
      refine .single hpoints ?_
      rintro o ⟨⟩
      exact ⟨Int.le_trans hblanks.offset_le hstart, hstop⟩
    exact ⟨hitem.append hitems (by have := hblanks.offset_le; omega) hle, hfaces⟩

/-- **Lines point at what they were read from.** -/
theorem line_anchors (r : Reading) : ∀ levels, LineReader.Anchors r (r.line levels)
  | 0, c, s, e, c', _, hread => by cases hread
  | levels + 1, c, s, e, c', h, hread => by
      simp only [line, Parsed.bind_eq_ok] at hread
      obtain ⟨⟨l, c₁⟩, hl, hread⟩ := hread
      obtain ⟨htree, rfl⟩ := Prod.mk.inj (Except.ok.inj hread)
      have hterm := term?_anchors (r.line_anchors levels) (r.line_advances levels)
      obtain ⟨hitems, hfaces⟩ := flatLine_inOrder hterm h hl
      obtain ⟨t, ht, _, rfl⟩ := Line.grouped htree
      rw [← ht] at hitems
      obtain ⟨hpoints, i, hi, hstart⟩ := OpTree.points hitems.points hitems.sorted
      obtain ⟨hlo, hhi⟩ := hitems.bounds i hi _ hstart
      exact ⟨hpoints, hlo, hhi, hfaces⟩

end Reading

/-! ## 5. Programs -/

/-- A program that is read alone points at its own text. -/
theorem parse_points {source : Source} {depth : Nat} {e : Expr}
    (h : parse source [] depth = .ok e) : e.Points source := by
  rw [parse_nil] at h
  obtain ⟨c, hline, _⟩ := Reading.whole_eq_ok.mp h
  have hfaces : Faces source ⟨blankText source.chars, 0⟩ source.chars := ⟨⟨[], rfl, rfl⟩, rfl⟩
  exact (Reading.line_anchors _ _ _ _ _ _ hfaces hline).points

/-- A name that a program does not bind is blamed where it stands. -/
theorem link_unbound {e : Expr} {x : String} {p : Pos}
    (h : link e = .error (.bind ⟨.unbound x, p⟩)) :
    ∃ params, (params, .name p x) ∈ e.nodes [] := by
  have hhead : (e.offenders []).head? = some ⟨.unbound x, p⟩ := by
    rcases bind_eq_error.mp h with h | ⟨_, _, h⟩
    · obtain ⟨f, hf, hfault⟩ := mapError_eq_error.mp h
      cases hfault
      rw [e.checkWalk_eq] at hf
      exact (e.check_error_iff _).mp ⟨hf, fun ⟨missing, harity⟩ => by cases harity⟩
    · obtain ⟨f, hf, hfault⟩ := mapError_eq_error.mp h
      cases hfault
      rw [e.compileWalk_eq] at hf
      exact (ofExpr_finds e []).error_iff.mp hf
  obtain ⟨before, ⟨params, n⟩, after, hnodes, _, hfault⟩ := head?_offenders_iff.mp hhead
  have hmem : (params, n) ∈ e.nodes [] := by
    rw [hnodes]
    simp
  unfold nodeFault? at hfault
  split at hfault
  · rename_i heq
    obtain ⟨_, rfl⟩ := Prod.mk.inj heq
    split at hfault
    · cases hfault
    · cases hfault
      exact ⟨params, hmem⟩
  · split at hfault <;> cases hfault
  · cases hfault

/-- Without definitions and without a fragment, a program is read and linked. -/
theorem compile_alone {source : Source} {options : Options} {fault : At BindFault}
    (hdefs : options.definitions.definitions = []) (hfragment : options.fragment = none)
    (h : compile source options = .error (.bind fault)) :
    ∃ e, parse source [] options.maxDepth = .ok e ∧ link e = .error (.bind fault) := by
  rw [compile, hdefs, hfragment] at h
  rcases bind_eq_error.mp h with h | ⟨e, he, h⟩
  · obtain ⟨f, _, hfault⟩ := mapError_eq_error.mp h
    cases hfault
  · refine ⟨e, mapError_eq_ok.mp he, ?_⟩
    rcases bind_eq_error.mp h with h | ⟨program, hprogram, h⟩
    · cases h
    · cases hprogram
      rcases bind_eq_error.mp h with h | ⟨_, _, h⟩
      · exact h
      · cases h

/-- **Every node points at its own first character.** The source is read without definitions. The
    place of a node lies in the text and is the first one in the tree of that node, and the author's
    text there begins as such a node begins. So a word that a program does not bind is blamed exactly
    where it is written. -/
theorem parse_anchored (source : Source) :
    (∀ depth e, parse source [] depth = .ok e → ∀ params n, (params, n) ∈ e.nodes [] →
      0 ≤ n.pos.offset ∧ n.pos.offset < source.size ∧ n.Each (n.pos.offset ≤ ·.offset) ∧
      ∃ before s, source.chars = before ++ s ∧ n.pos = ⟨source, byteCount before⟩ ∧ n.Begins s) ∧
    ∀ (options : Options) x p, options.definitions.definitions = [] → options.fragment = none →
      compile source options = .error (.bind ⟨.unbound x, p⟩) → Spelled isNameChar x →
      ∃ before s s', source.chars = before ++ s ∧ p = ⟨source, byteCount before⟩ ∧
        Longest isNameChar x s s' := by
  refine ⟨fun depth e h params n hn => ?_, fun options x p hdefs hfragment h hx => ?_⟩
  · have hpoints := (parse_points h).node hn
    obtain ⟨before, s, hchars, hpos, hbegins⟩ := hpoints.anchored
    refine ⟨?_, ?_, hpoints.first, before, s, hchars, hpos, hbegins⟩
    · rw [hpos]
      exact Int.natCast_nonneg _
    · have hsize : byteCount s ≠ 0 := fun hzero => hbegins.ne_nil (byteCount_eq_zero hzero)
      rw [hpos, Source.size, hchars, byteCount_append]
      show (byteCount before : Int) < (byteCount before + byteCount s : Nat)
      omega
  · obtain ⟨e, hparse, hlink⟩ := compile_alone hdefs hfragment h
    obtain ⟨params, hn⟩ := link_unbound hlink
    obtain ⟨before, s, hchars, hpos, hbegins⟩ := ((parse_points hparse).node hn).anchored
    obtain ⟨s', hlongest⟩ := NameAt.longest hbegins hx
    exact ⟨before, s, s', hchars, hpos, hlongest⟩

/-- Behind a comment and a tab: a name, and a number with its sign, in parentheses. -/
theorem parse_anchored_comment :
    let source : Source := ⟨"main", " # y\n\ty (-1)"⟩
    (∃ before s, source.chars = before ++ s ∧ byteCount before = 9 ∧
      (Expr.number ⟨source, 9⟩ (-1)).Begins s) ∧
    ∃ before s s', source.chars = before ++ s ∧ byteCount before = 6 ∧
      Longest isNameChar "y" s s' := by
  intro source
  have hparse : parse source [] defaultDepth =
      .ok (.apply ⟨source, 6⟩ (.name ⟨source, 6⟩ "y") (.number ⟨source, 9⟩ (-1))) := by
    decide +kernel
  have hfault : compile source {} = .error (.bind ⟨.unbound "y", ⟨source, 6⟩⟩) := by
    decide +kernel
  refine ⟨?_, ?_⟩
  · obtain ⟨_, _, _, before, s, hchars, hpos, hbegins⟩ :=
      (parse_anchored source).1 _ _ hparse [] (.number ⟨source, 9⟩ (-1)) (by simp [Expr.nodes])
    have hoffset : (9 : Int) = byteCount before := congrArg Pos.offset hpos
    exact ⟨before, s, hchars, by omega, hbegins⟩
  · obtain ⟨before, s, s', hchars, hpos, hlongest⟩ :=
      (parse_anchored source).2 _ _ _ rfl rfl hfault (by decide)
    have hoffset : (6 : Int) = byteCount before := congrArg Pos.offset hpos
    exact ⟨before, s, s', hchars, by omega, hlongest⟩

end CallByNeed
