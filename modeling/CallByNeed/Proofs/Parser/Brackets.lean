/-
  File:      CallByNeed/Proofs/Parser/Brackets.lean
  Subject:   What a line is read as, and the line with parentheses around its operators.

  A line is a sequence of operands and of what joins them, each with its own piece of the text. The
  priorities make one tree of the sequence, and parentheses around every operator of that tree say
  the same as the priorities do.

  * `WrittenOperand`, `WrittenJoint`, `Reading.Sequence` -- the pieces of a line, as they are read;
  * `OpTree.bracketed` -- the text with parentheses around every operator;
  * `OpTree.bracketed_derives` -- that text is a term, for the same tree;
  * `line_grouped_by_priority` -- all of this for every line.
-/
import CallByNeed.Proofs.Parser.Grouping
import CallByNeed.Proofs.Parser.Language
import CallByNeed.Proofs.Parser.Moves

namespace CallByNeed

/-! ## 1. The pieces of a line -/

/-- An operand and the text it was read from. -/
structure WrittenOperand where
  text : List Char
  expr : Expr

/-- What stands between two operands: its text, with the spaces around it, and what it is. -/
structure WrittenJoint where
  text : List Char
  joint : Joint

/-- A piece of a line. -/
abbrev LinePiece := WrittenOperand ⊕ WrittenJoint

/-- The text of a piece. -/
def LinePiece.text : LinePiece → List Char
  | .inl a => a.text
  | .inr op => op.text

/-- The text of pieces one after another. -/
def piecesText (xs : List LinePiece) : List Char := xs.flatMap LinePiece.text

@[simp] theorem piecesText_nil : piecesText [] = [] := rfl

@[simp] theorem piecesText_cons (x : LinePiece) (xs : List LinePiece) :
    piecesText (x :: xs) = LinePiece.text x ++ piecesText xs := rfl

@[simp] theorem piecesText_append (xs ys : List LinePiece) :
    piecesText (xs ++ ys) = piecesText xs ++ piecesText ys := by
  simp [piecesText]

/-- What the pieces are, without their texts. -/
def bareItems (xs : List LinePiece) : List (Expr ⊕ Joint) :=
  xs.map (Sum.map WrittenOperand.expr WrittenJoint.joint)

namespace Reading

/-- Operands, each with what stands in front of it, as they are read from one cursor to another. -/
inductive Pairs (r : Reading) (term : TermReader) : List LinePiece → Cursor → Cursor → Prop where
  | nil (c : Cursor) : r.Pairs term [] c c
  | cons {c c₁ c' : Cursor} {e : Expr} {front text : List Char} {xs : List LinePiece}
      (hfront : c.Past front (r.jointAt c.skipSpaces).2.skipSpaces)
      (hterm : term (r.jointAt c.skipSpaces).2.skipSpaces = .ok (some (e, c₁)))
      (htext : (r.jointAt c.skipSpaces).2.skipSpaces.Past text c₁) (hxs : r.Pairs term xs c₁ c') :
      r.Pairs term (.inr ⟨front, (r.jointAt c.skipSpaces).1⟩ :: .inl ⟨text, e⟩ :: xs) c c'

/-- The pieces of a line, as they are read from one cursor to another: the first operand, if there
    is one, and the pairs behind it. -/
inductive Sequence (r : Reading) (term : TermReader) : List LinePiece → Cursor → Cursor → Prop where
  | missing {c c' : Cursor} {xs : List LinePiece} (hterm : term c = .ok none)
      (hxs : r.Pairs term xs c c') : r.Sequence term xs c c'
  | first {c c₁ c' : Cursor} {e : Expr} {text : List Char} {xs : List LinePiece}
      (hterm : term c = .ok (some (e, c₁))) (htext : c.Past text c₁)
      (hxs : r.Pairs term xs c₁ c') : r.Sequence term (.inl ⟨text, e⟩ :: xs) c c'

variable {r : Reading} {term : TermReader} {c c' : Cursor} {n : Nat}

theorem Pairs.text {xs : List LinePiece} (h : r.Pairs term xs c c') :
    c.rest = piecesText xs ++ c'.rest := by
  induction h with
  | nil c => rfl
  | cons hfront _ htext _ ih => simp [hfront.1, htext.1, ih, LinePiece.text]

theorem Sequence.text {xs : List LinePiece} (h : r.Sequence term xs c c') :
    c.rest = piecesText xs ++ c'.rest := by
  cases h with
  | missing _ hxs => exact hxs.text
  | first _ htext hxs => simp [htext.1, hxs.text, LinePiece.text]

/-- Operands are read pair by pair. -/
theorem operands_pairs (hadv : TermReader.Advances term) (hidle : Idle term)
    {done ops : List (Joint × Expr)} (h : r.operands term c.rest done c = .ok (ops, c')) :
    ∃ more xs c₁, ops = done.reverse ++ more ∧ bareItems xs = Line.pairItems more ∧
      r.Pairs term xs c c₁ ∧ c' = c₁.skipSpaces := by
  -- every operand takes at least one character
  generalize hlen : c.rest.length = len
  induction len using Nat.strongRecOn generalizing c done with
  | _ len ih =>
    obtain ⟨read, hread⟩ := r.operand_past c
    rw [operands_eq hadv hidle (Nat.le_refl _)] at h
    cases ht : term (r.jointAt c.skipSpaces).2.skipSpaces with
    | error fault =>
      rw [ht] at h
      cases h
    | ok o =>
      rw [ht] at h
      cases o with
      | some operand =>
        obtain ⟨e, c₁⟩ := operand
        obtain ⟨read₁, hne, hread₁⟩ := hadv _ _ _ ht
        have hlt := (hread.trans hread₁).length_lt (by simp [hne])
        obtain ⟨more, xs, c₂, hops, hitems, hxs, hend⟩ := ih c₁.rest.length (by omega) h rfl
        refine ⟨((r.jointAt c.skipSpaces).1, e) :: more,
          .inr ⟨read, (r.jointAt c.skipSpaces).1⟩ :: .inl ⟨read₁, e⟩ :: xs, c₂, by simp [hops], ?_,
          .cons hread ht hread₁ hxs, hend⟩
        simpa [bareItems, Line.pairItems] using hitems
      | none =>
        cases hjoint : (r.jointAt c.skipSpaces).1 with
        | operator p x =>
          rw [hjoint] at h
          cases h
        | sideBySide =>
          rw [hjoint] at h
          cases h
          have hsame : (r.jointAt c.skipSpaces).2 = c.skipSpaces := by
            unfold jointAt at hjoint ⊢
            split at hjoint
            · cases hjoint
            · rfl
          refine ⟨[], [], c, by simp, rfl, .nil c, ?_⟩
          rw [hsame, Cursor.skipSpaces_skipSpaces]

/-- **A line is read piece by piece.** -/
theorem flatLine_sequence (hadv : TermReader.Advances term) (hidle : Idle term) {l : Line}
    (h : r.flatLine term c = .ok (l, c')) :
    ∃ xs c₁, r.Sequence term xs c.skipSpaces c₁ ∧ c' = c₁.skipSpaces ∧ bareItems xs = l.items := by
  simp only [flatLine, Parsed.bind_eq_ok] at h
  obtain ⟨first, hfirst, ⟨ops, c₂⟩, hops, h⟩ := h
  cases h
  cases first with
  | some operand =>
    obtain ⟨e, c₃⟩ := operand
    obtain ⟨read, _, hread⟩ := hadv _ _ _ hfirst
    obtain ⟨more, xs, c₁, hmore, hitems, hxs, hend⟩ := operands_pairs hadv hidle hops
    obtain rfl : ops = more := hmore
    refine ⟨_, c₁, .first hfirst hread hxs, hend, ?_⟩
    simpa [bareItems, Line.items] using hitems
  | none =>
    obtain ⟨more, xs, c₁, hmore, hitems, hxs, hend⟩ := operands_pairs hadv hidle hops
    obtain rfl : ops = more := hmore
    exact ⟨xs, c₁, .missing hfirst hxs, hend, hitems⟩

end Reading

/-! ## 2. The pieces in their text -/

/-- What joins two operands stands in front of a text, and of every other one that opens alike. -/
def JoinsAt (op : Option String) (front s : List Char) : Prop :=
  ∀ s', Opens s s' → ∃ x, JointAt op (dropSpaces (front ++ s')) x ∧ dropSpaces x = s'

/-- An operator at the beginning of a line stands in front of a text in the same way. -/
def LeadsAt (op : String) (front s : List Char) : Prop :=
  ∀ s', Opens s s' → ∃ x, LeadAt (some op) (dropSpaces (front ++ s')) x ∧ dropSpaces x = s'

/-- Every operand is derived where it stands, with `n` levels of lines at most, every other piece
    joins two operands there, and an operand stands behind it. -/
def Seated (n : Nat) : List LinePiece → List Char → Prop
  | [], _ => True
  | .inl a :: xs, s =>
    (∃ t : Derivation .term,
      Derives NoOperand t (a.text ++ (piecesText xs ++ s)) (piecesText xs ++ s) ∧
        t.depth ≤ n ∧ t.tree = a.expr.bare) ∧
    Seated n xs s
  | .inr op :: xs, s =>
    (∃ x, op.joint.bare = bareJoint x ∧ JoinsAt x op.text (piecesText xs ++ s)) ∧
      (∀ y ∈ xs.head?, y.isLeft = true) ∧ Seated n xs s

/-- The piece at the beginning, if it is no operand, is an operator without a left operand. -/
def Begins (xs : List LinePiece) (s : List Char) : Prop :=
  ∀ op ys, xs = .inr op :: ys →
    ∃ x, op.joint.bare = bareJoint (some x) ∧ LeadsAt x op.text (piecesText ys ++ s)

theorem Seated.append {n : Nat} : ∀ (xs : List LinePiece) {ys : List LinePiece} {s : List Char},
    Seated n (xs ++ ys) s → Seated n xs (piecesText ys ++ s) ∧ Seated n ys s
  | [], _, _, h => ⟨trivial, h⟩
  | .inl a :: xs, ys, s, h => by
      rw [List.cons_append] at h
      obtain ⟨ht, h⟩ := h
      obtain ⟨hxs, hys⟩ := Seated.append xs h
      refine ⟨⟨?_, hxs⟩, hys⟩
      simpa only [piecesText_append, List.append_assoc] using ht
  | .inr op :: xs, ys, s, h => by
      rw [List.cons_append] at h
      obtain ⟨hop, hnext, h⟩ := h
      obtain ⟨hxs, hys⟩ := Seated.append xs h
      refine ⟨⟨?_, fun y hy => hnext y ?_, hxs⟩, hys⟩
      · simpa only [piecesText_append, List.append_assoc] using hop
      · rw [List.head?_append, Option.mem_def.mp hy]
        rfl

namespace Reading

variable {r : Reading} {c c' : Cursor} {n : Nat}

/-- What stands in front of an operand, in the reader's words and in the grammar's. -/
theorem joinsAt_of_past {front : List Char}
    (h : c.Past front (r.jointAt c.skipSpaces).2.skipSpaces) :
    ∃ op, (r.jointAt c.skipSpaces).1.bare = bareJoint op ∧
      JoinsAt op front (r.jointAt c.skipSpaces).2.skipSpaces.rest := by
  obtain ⟨op, hop, _, hbare⟩ := r.jointAt_at c.skipSpaces
  refine ⟨op, hbare, ?_⟩
  obtain ⟨g, hg, hmoved⟩ := movable_in_front (s := c.rest) hop.movable
  rw [h.1, Cursor.rest_skipSpaces, List.append_cancel_right_eq] at hg
  subst hg
  exact hmoved

theorem Pairs.seated {xs : List LinePiece} (h : r.Pairs (r.term? (r.line n)) xs c c') :
    Seated n xs c'.rest := by
  induction h with
  | nil c => trivial
  | cons hfront hterm htext hxs ih =>
    obtain ⟨op, hbare, hjoins⟩ := joinsAt_of_past hfront
    obtain ⟨t, ht, hdepth, htree⟩ := term?_derives (r.line_derives n) hterm
    rw [htext.1, hxs.text] at hjoins ht
    refine ⟨⟨op, hbare, ?_⟩, by simp, ⟨t, ht, hdepth, htree⟩, ih⟩
    simpa [LinePiece.text] using hjoins

theorem Sequence.seated {xs : List LinePiece} (h : r.Sequence (r.term? (r.line n)) xs c c') :
    Seated n xs c'.rest := by
  cases h with
  | missing _ hxs => exact hxs.seated
  | first hterm htext hxs =>
    obtain ⟨t, ht, hdepth, htree⟩ := term?_derives (r.line_derives n) hterm
    rw [htext.1, hxs.text] at ht
    exact ⟨⟨t, ht, hdepth, htree⟩, hxs.seated⟩

/-- A line without a first operand begins with an operator. -/
theorem Sequence.begins {xs : List LinePiece}
    (h : r.Sequence (r.term? (r.line n)) xs c.skipSpaces c') : Begins xs c'.rest := by
  intro op ys hop
  cases h with
  | first => cases hop
  | missing hnone hxs =>
    cases hxs with
    | nil => cases hop
    | @cons _ _ _ _ front text _ hfront hterm htext hxs =>
      cases hop
      obtain ⟨x, hx, _, hbare⟩ := r.jointAt_at c.skipSpaces.skipSpaces
      have hform : formOf (dropSpaces c.skipSpaces.rest) = none := by
        rw [Cursor.rest_skipSpaces, dropSpaces_dropSpaces]
        exact term?_eq_none.mp hnone
      cases x with
      | none =>
        -- the operand would begin where none does
        obtain ⟨t, ht, _⟩ := term?_derives (r.line_derives n) hterm
        have hterm := ht.form
        rw [Cursor.rest_skipSpaces, hx.of_none.1, Cursor.rest_skipSpaces, dropSpaces_dropSpaces,
          hform] at hterm
        cases hterm
      | some x =>
        refine ⟨x, hbare, ?_⟩
        have hlead : LeadAt (some x) (dropSpaces c.skipSpaces.rest)
            (r.jointAt c.skipSpaces.skipSpaces).2.rest := by
          cases hx with
          | operator hop => exact .operator hop (signed_of_formOf hform)
        obtain ⟨g, hg, hmoved⟩ := movable_in_front hlead.movable
        rw [hfront.1, Cursor.rest_skipSpaces, List.append_cancel_right_eq] at hg
        subst hg
        rw [← Cursor.rest_skipSpaces, htext.1, hxs.text] at hmoved
        simpa [LinePiece.text, LeadsAt] using hmoved

end Reading

/-! ## 3. Parentheses around every operator -/

namespace OpTree

/-- The expression that a tree of pieces stands for. -/
def meaning (t : OpTree WrittenOperand WrittenJoint) : Expr :=
  (t.map WrittenOperand.expr WrittenJoint.joint).expr

/-- The text with parentheses around every operator and its operands. -/
def bracketed : OpTree WrittenOperand WrittenJoint → List Char
  | .leaf a => a.text
  | .leading op right => '(' :: (op.text ++ (right.bracketed ++ [')']))
  | .binary left op right => '(' :: (left.bracketed ++ (op.text ++ (right.bracketed ++ [')'])))

/-- An operand has a text. -/
theorem head?_leaf {a : WrittenOperand} {n : Nat} {s : List Char} (h : Seated n [.inl a] s)
    (s' : List Char) : (a.text ++ s').head? = (a.text ++ s).head? := by
  obtain ⟨⟨t, ht, _⟩, _⟩ := h
  obtain ⟨w, hw, hne, _⟩ := ht.moves
  rw [List.append_cancel_right_eq] at hw
  rw [hw]
  exact head?_append_of_ne_nil (hne rfl) _ _

theorem opens_bracketed (t : OpTree WrittenOperand WrittenJoint) {n : Nat} {s : List Char}
    (h : Seated n t.items s) (s' : List Char) :
    Opens (piecesText t.items ++ s) (t.bracketed ++ s') := by
  cases t with
  | leading op right => exact .inr rfl
  | binary left op right => exact .inr rfl
  | leaf a =>
    left
    simpa [items, LinePiece.text, bracketed] using head?_leaf h s'

/-- Behind what joins two operands the text opens with an operand. -/
theorem seated_next {n : Nat} {op : WrittenJoint} {t : OpTree WrittenOperand WrittenJoint}
    {s : List Char} (h : Seated n (.inr op :: t.items) s) :
    (∀ op' ys, t.items ≠ .inr op' :: ys) ∧
      ∃ (u : Derivation .term) (s' : List Char),
        Derives NoOperand u (piecesText t.items ++ s) s' := by
  obtain ⟨_, hnext, ht⟩ := h
  obtain ⟨x, xs, hx⟩ := List.exists_cons_of_ne_nil t.items_ne_nil
  rw [hx] at hnext ht ⊢
  cases x with
  | inr op' => cases hnext _ rfl
  | inl a =>
    obtain ⟨⟨u, hu, _⟩, _⟩ := ht
    refine ⟨by simp, u, piecesText xs ++ s, ?_⟩
    simpa [LinePiece.text] using hu

end OpTree

/-- A term begins with no space. -/
theorem Derives.term_dropSpaces {stops : List Char → Prop} {t : Derivation .term}
    {s s' : List Char} (h : Derives stops t s s') : dropSpaces s = s := by
  cases s with
  | nil => rfl
  | cons ch s =>
    refine dropSpaces_cons (fun hspace => ?_) s
    subst hspace
    have hform := h.form
    cases s <;> cases hform

/-- A line of one term in parentheses. -/
theorem Derives.group_of_line {l : Derivation .line} {s s' : List Char}
    (h : Derives NoOperand l s (')' :: s')) : Derives NoOperand (.group l) ('(' :: s) s' :=
  .group rfl h (dropSpaces_cons (by decide) s')

namespace OpTree

section Bracketed

variable {n : Nat}

theorem leading_derives {op : WrittenJoint} {right : OpTree WrittenOperand WrittenJoint}
    {s s' : List Char} {x : String} {u : Derivation .term}
    (hseat : Seated n (.inr op :: right.items) s)
    (hx : LeadsAt x op.text (piecesText right.items ++ s))
    (hu : Derives NoOperand u (right.bracketed ++ ')' :: s') (')' :: s')) :
    Derives NoOperand (.group (.line (some x) u .done))
      ((OpTree.leading op right).bracketed ++ s') s' := by
  obtain ⟨y, hlead, hspaces⟩ := hx _ (right.opens_bracketed hseat.2.2 (')' :: s'))
  have hline : Derives NoOperand (.line (some x) u .done)
      (op.text ++ (right.bracketed ++ ')' :: s')) (')' :: s') :=
    .line hlead (by rwa [hspaces]) (.nothing (noOperand_close s') (over_close s').2)
  simpa [bracketed] using hline.group_of_line

/-- Without a text of its own, what joins two operands is nothing at all. -/
theorem sideBySide_of_nil {x : Option String} {op : WrittenJoint} {s : List Char}
    (hx : op.joint.bare = bareJoint x) (hjoins : JoinsAt x op.text s) (hop : op.text = []) :
    op.joint = .sideBySide := by
  obtain ⟨y, hy, hspaces⟩ := hjoins s (.inl rfl)
  rw [hop, List.nil_append] at hy
  cases hy with
  | none =>
    cases hj : op.joint with
    | sideBySide => rfl
    | operator p z =>
      rw [hj] at hx
      cases hx
  | operator hlong =>
    -- the operator would take a character from a text that is still there behind it
    have hlt := hlong.length_lt
    have hle := dropSpaces_length s
    have hle' := dropSpaces_length y
    rw [hspaces] at hle'
    omega

/-- The left operand may stand in front of the right one in parentheses. -/
theorem mayFollow_right {op : WrittenJoint} {right : OpTree WrittenOperand WrittenJoint}
    {s : List Char} (hseat : Seated n (.inr op :: right.items) s)
    (hroot : ∀ x ∈ right.root?, Operator.bindsFirst op.joint.symbol x.joint.symbol = false)
    (s' : List Char) :
    MayFollow (op.text ++ (piecesText right.items ++ s)) (op.text ++ (right.bracketed ++ s')) := by
  obtain ⟨_, u, v, hu⟩ := seated_next hseat
  obtain ⟨⟨x, hx, hjoins⟩, _, hright⟩ := hseat
  refine .inr ⟨?_, fun hover => ?_⟩
  · by_cases hop : op.text = []
    · have hside := sideBySide_of_nil hx hjoins hop
      rw [hside] at hroot
      cases right with
      | leading op' right' => cases (Operator.bindsFirst_sideBySide _).symm.trans (hroot op' rfl)
      | binary left' op' right' =>
        cases (Operator.bindsFirst_sideBySide _).symm.trans (hroot op' rfl)
      | leaf a =>
        rw [hop, List.nil_append, List.nil_append]
        simpa [items, LinePiece.text, bracketed] using head?_leaf hright s'
    · exact head?_append_of_ne_nil hop _ _
  · -- an operand follows, so the line is not over
    obtain ⟨y, hy, hspaces⟩ := hjoins _ (.inl rfl)
    have hno : NoOperand (dropSpaces (op.text ++ (piecesText right.items ++ s))) := by
      rw [hover.2]
      exact hover.1
    exact (hno.not_operand hy (by rwa [hspaces])).elim

theorem binary_derives {left right : OpTree WrittenOperand WrittenJoint} {op : WrittenJoint}
    {s s' : List Char} {x : Option String} {u v : Derivation .term}
    (hseat : Seated n (.inr op :: right.items) s)
    (hx : JoinsAt x op.text (piecesText right.items ++ s))
    (hu : Derives NoOperand u (left.bracketed ++ (op.text ++ (right.bracketed ++ ')' :: s')))
      (op.text ++ (right.bracketed ++ ')' :: s')))
    (hv : Derives NoOperand v (right.bracketed ++ ')' :: s') (')' :: s')) :
    Derives NoOperand (.group (.line none u (.operand x v .done)))
      ((OpTree.binary left op right).bracketed ++ s') s' := by
  obtain ⟨y, hjoint, hspaces⟩ := hx _ (right.opens_bracketed hseat.2.2 (')' :: s'))
  have hmore : Derives NoOperand (.operand x v .done)
      (op.text ++ (right.bracketed ++ ')' :: s')) (')' :: s') :=
    .operand hjoint (by rwa [hspaces]) (.nothing (noOperand_close s') (over_close s').2)
  have hfirst : Derives NoOperand u
      (dropSpaces (dropSpaces (left.bracketed ++ (op.text ++ (right.bracketed ++ ')' :: s')))))
      (op.text ++ (right.bracketed ++ ')' :: s')) := by
    rwa [hu.term_dropSpaces, hu.term_dropSpaces]
  simpa [bracketed] using (Derives.line (.none _) hfirst hmore).group_of_line

/-- **Parentheses around every operator leave the tree as it is.** The text is a term, with a level
    of lines for each operator above another, wherever the pieces stand. -/
theorem bracketed_derives (t : OpTree WrittenOperand WrittenJoint) {s s' : List Char}
    (hseat : Seated n t.items s) (hbegin : Begins t.items s)
    (hgrouped : t.Grouped fun op => op.joint.symbol) (hs : MayFollow s s') :
    ∃ u : Derivation .term, Derives NoOperand u (t.bracketed ++ s') s' ∧ u.depth ≤ n + t.height ∧
      u.tree = t.meaning.bare := by
  induction t generalizing s s' with
  | leaf a =>
    obtain ⟨⟨u, hu, hdepth, htree⟩, _⟩ := hseat
    obtain ⟨w, hw, _, hmoved⟩ := hu.moves
    rw [List.append_cancel_right_eq] at hw
    subst hw
    exact ⟨u, hmoved s' hs, hdepth, htree⟩
  | leading op right ih =>
    obtain ⟨x, hbare, hx⟩ := hbegin op right.items rfl
    obtain ⟨hnot, _⟩ := seated_next hseat
    obtain ⟨u, hu, hdepth, htree⟩ := ih hseat.2.2 (fun op' ys h => absurd h (hnot op' ys))
      hgrouped.1 (.inl (over_close s'))
    refine ⟨_, leading_derives hseat hx hu, ?_, ?_⟩
    · simp only [Derivation.depth, height]
      omega
    · rw [meaning, map, expr, Waiting.close_bare, Waiting.bare, hbare]
      show Waiting.close ⟨none, bareJoint (some x)⟩ u.tree = _
      rw [htree]
      rfl
  | binary left op right ihl ihr =>
    obtain ⟨hleft, hrest⟩ := Seated.append left.items hseat
    obtain ⟨hgl, hgr, _, hroot⟩ := hgrouped
    obtain ⟨hnot, _⟩ := seated_next hrest
    have hbeginl : Begins left.items (op.text ++ (piecesText right.items ++ s)) := by
      intro op' ys hys
      obtain ⟨x, hbare, hx⟩ := hbegin op' (ys ++ .inr op :: right.items) (by simp [items, hys])
      refine ⟨x, hbare, ?_⟩
      simpa [LinePiece.text] using hx
    obtain ⟨u, hu, hdepthl, htreel⟩ := ihl (by simpa [LinePiece.text] using hleft) hbeginl hgl
      (mayFollow_right hrest hroot (')' :: s'))
    obtain ⟨v, hv, hdepthr, htreer⟩ := ihr hrest.2.2 (fun op' ys h => absurd h (hnot op' ys)) hgr
      (.inl (over_close s'))
    obtain ⟨x, hbare, hx⟩ := hrest.1
    refine ⟨_, binary_derives hrest hx hu hv, ?_, ?_⟩
    · simp only [Derivation.depth, height]
      omega
    · rw [meaning, map, expr, Waiting.close_bare, Waiting.bare, hbare]
      show Waiting.close ⟨some u.tree, bareJoint x⟩ v.tree = _
      rw [htreel, htreer]
      rfl

end Bracketed

end OpTree

/-! ## 4. Lines -/

/-- The spaces in front of a line, up to its first piece. -/
theorem Cursor.dropSpaces_of_past {c : Cursor} {spaces : List Char}
    (h : c.Past spaces c.skipSpaces) (s : List Char) : dropSpaces (spaces ++ s) = dropSpaces s := by
  obtain ⟨sp, hsp, hdrop⟩ := exists_spaces c.rest
  have hsame := h.1.symm.trans hsp
  rw [rest_skipSpaces, List.append_cancel_right_eq] at hsame
  rw [hsame]
  exact hdrop s

/-- A line with parentheses around its operators is read as the line is. -/
theorem Reading.line_bracketed {r : Reading} {n : Nat} {c c₁ c' : Cursor} {spaces : List Char}
    {t : OpTree WrittenOperand WrittenJoint} (h : r.line (n + 1) c = .ok (some t.meaning, c'))
    (hspaces : c.Past spaces c.skipSpaces)
    (hseq : r.Sequence (r.term? (r.line n)) t.items c.skipSpaces c₁) (hend : c' = c₁.skipSpaces)
    (hgrouped : t.Grouped fun op => op.joint.symbol) (r' : Reading) {m : Nat}
    (hm : n + 1 + t.height ≤ m) (offset : Int) :
    ∃ e' c'', r'.line m ⟨spaces ++ (t.bracketed ++ c₁.rest), offset⟩ = .ok (some e', c'') ∧
      c''.rest = c'.rest ∧ e'.sameShape t.meaning = true := by
  obtain ⟨_, hderives, _⟩ := r.line_derives (n + 1) _ _ _ h
  have hno : NoOperand (dropSpaces c₁.rest) := by
    rw [← Cursor.rest_skipSpaces, ← hend]
    exact (hderives.noOperand (by simp)).1
  obtain ⟨u, hu, hdepth, htree⟩ :=
    t.bracketed_derives hseq.seated hseq.begins hgrouped (.refl c₁.rest)
  -- the whole line is that one term
  have hterm : Derives NoOperand u
      (dropSpaces (dropSpaces (spaces ++ (t.bracketed ++ c₁.rest)))) c₁.rest := by
    rwa [dropSpaces_dropSpaces, Cursor.dropSpaces_of_past hspaces, hu.term_dropSpaces]
  have hline : Derives NoOperand (.line none u .done) (spaces ++ (t.bracketed ++ c₁.rest))
      (dropSpaces c₁.rest) := .line (.none _) hterm (.done hno)
  have hlevels : (Derivation.line none u .done).depth ≤ m := by
    simp only [Derivation.depth]
    omega
  obtain ⟨e', c'', hread, hrest⟩ := hline.reads r' hlevels ⟨_, offset⟩ rfl
  obtain ⟨v, hv, _, htree'⟩ := r'.line_derives m _ _ _ hread
  obtain ⟨rfl, _⟩ := hv.unique hline
  refine ⟨e', c'', hread, by rw [hrest, hend, Cursor.rest_skipSpaces], ?_⟩
  rw [Expr.sameShape_iff, ← htree', ← htree]
  rfl

/-- **The priorities settle what a line is read as.** A line is read as operands and what joins
    them, piece by piece, and nothing is left out. The tree has these pieces from left to right and
    is grouped by the priorities; it is the only such tree, and the one that comes off the two
    stacks. Operators of one level nest to the left, those on a half step to the right. With
    parentheses around every operator the text is read as the same tree up to places, and up to the
    same end, if there are levels for the parentheses. -/
theorem line_grouped_by_priority {r : Reading} {n : Nat} {c c' : Cursor} {o : Option Expr}
    (h : r.line (n + 1) c = .ok (o, c')) :
    ∃ (l : Line) (xs : List LinePiece) (spaces : List Char) (c₁ : Cursor),
      r.flatLine (r.term? (r.line n)) c = .ok (l, c') ∧ o = twoStacks [] [l.first] l.further ∧
      c.Past spaces c.skipSpaces ∧ r.Sequence (r.term? (r.line n)) xs c.skipSpaces c₁ ∧
      c' = c₁.skipSpaces ∧ bareItems xs = l.items ∧ (o = none → xs = []) ∧
      ∀ e, o = some e → ∃ t : OpTree WrittenOperand WrittenJoint,
        t.items = xs ∧ (t.Grouped fun op => op.joint.symbol) ∧ t.meaning = e ∧
        (∀ u : OpTree WrittenOperand WrittenJoint, u.items = xs →
          (u.Grouped fun op => op.joint.symbol) → u = t) ∧
        (t.Associates fun op => op.joint.symbol) ∧
        ∀ (r' : Reading) (m : Nat) (offset : Int), n + 1 + t.height ≤ m →
          ∃ e' c'', r'.line m ⟨spaces ++ (t.bracketed ++ c₁.rest), offset⟩ = .ok (some e', c'') ∧
            c''.rest = c'.rest ∧ e'.sameShape e = true := by
  have hread := h
  simp only [Reading.line, Parsed.bind_eq_ok] at hread
  obtain ⟨⟨l, c₂⟩, hflat, hl⟩ := hread
  obtain ⟨htree, rfl⟩ := Prod.mk.inj (Except.ok.inj hl)
  obtain ⟨xs, c₁, hseq, hend, hitems⟩ := Reading.flatLine_sequence
    (Reading.term?_advances (r.line_advances n)) Reading.term?_idle hflat
  obtain ⟨spaces, hspaces⟩ := c.skipSpaces_past
  refine ⟨l, xs, spaces, c₁, hflat, htree.symm.trans l.tree?_eq_twoStacks, hspaces, hseq, hend,
    hitems, fun ho => ?_, fun e he => ?_⟩
  · have hempty : l.items = [] := Line.items_eq_nil (htree.trans ho)
    rw [hempty] at hitems
    exact List.map_eq_nil_iff.mp hitems
  · obtain ⟨t₀, hitems₀, hgrouped₀, hexpr⟩ := Line.grouped (htree.trans he)
    obtain ⟨t, rfl, rfl⟩ := OpTree.exists_map_eq WrittenOperand.expr WrittenJoint.joint t₀ xs
      (hitems.trans hitems₀.symm)
    have hgrouped : t.Grouped fun op => op.joint.symbol :=
      (OpTree.grouped_map (fun _ => rfl) t).mp hgrouped₀
    obtain rfl : t.meaning = e := hexpr
    rw [he] at h
    exact ⟨t, rfl, hgrouped, rfl, fun u hu hgu => hgu.unique hgrouped hu, hgrouped.associates,
      fun r' m offset hm => Reading.line_bracketed h hspaces hseq hend hgrouped r' hm offset⟩

/-- The line `a + b * c`, in which the product is the right operand of the sum. -/
theorem line_grouped_by_priority_product :
    let r : Reading := ⟨⟨"main", "a + b * c"⟩, 1⟩
    let product : Expr := .apply ⟨r.source, 4⟩
      (.apply ⟨r.source, 4⟩ (.name ⟨r.source, 6⟩ "*") (.name ⟨r.source, 4⟩ "b"))
      (.name ⟨r.source, 8⟩ "c")
    let sum : Expr := .apply ⟨r.source, 0⟩
      (.apply ⟨r.source, 0⟩ (.name ⟨r.source, 2⟩ "+") (.name ⟨r.source, 0⟩ "a")) product
    r.line 1 ⟨r.source.chars, 0⟩ = .ok (some sum, ⟨[], 9⟩) ∧
      ∃ t : OpTree WrittenOperand WrittenJoint,
        (t.Grouped fun op => op.joint.symbol) ∧ t.meaning = sum := by
  intro r product sum
  have hline : r.line 1 ⟨r.source.chars, 0⟩ = .ok (some sum, ⟨[], 9⟩) := by decide +kernel
  obtain ⟨_, _, _, _, _, _, _, _, _, _, _, htree⟩ := line_grouped_by_priority hline
  obtain ⟨t, _, hgrouped, hmeaning, _⟩ := htree sum rfl
  exact ⟨hline, t, hgrouped, hmeaning⟩

/-- With one level of lines `a + b` is read, and `(a + b)` is not. -/
theorem brackets_need_levels :
    (∃ e, parse ⟨"main", "a + b"⟩ [] 1 = .ok e) ∧
      parse ⟨"main", "(a + b)"⟩ [] 1 = .error ⟨.tooDeep 1, ⟨"main", "(a + b)"⟩, 1⟩ :=
  ⟨⟨_, rfl⟩, rfl⟩

end CallByNeed
