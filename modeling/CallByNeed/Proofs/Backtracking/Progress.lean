/-
  File:      CallByNeed/Proofs/Backtracking/Progress.lean
  Subject:   Reading with a cursor backtracks in order, goes on, and comes to an end.

  The stacks of a line hold the tree that the line has once it is read; what is left to read is the
  invariant of its loop. A line inside of a line has fewer bytes left, so with a few more rounds than
  bytes no reading runs out of rounds, whether there is a limit or not.

  * `Led`, `Stacks.Holds` -- the stacks of a line that is not read to its end;
  * `Between`, `operands_follow` -- the loop over the operands of a line;
  * `line_follows`, `whole_follows` -- lines, and whole texts;
  * `parseBacktracking_returned` -- programs;
  * `backtracking_disciplined` -- all of it together.
-/
import CallByNeed.Proofs.Backtracking.Discipline
import CallByNeed.Proofs.Bytewise.Agreement
import CallByNeed.Proofs.Parser.Threshold

namespace CallByNeed

/-! ## 1. Operators that wait -/

/-- Operators that wait for their right operands: only the first one of a line can be without a left
    operand, and it is a named one then. -/
inductive Led : List Waiting → Prop where
  | nil : Led []
  | missing (p : Pos) (name : String) : Led [⟨none, .operator p name⟩]
  | cons (left : Expr) (op : Joint) {ws : List Waiting} (h : Led ws) : Led (⟨some left, op⟩ :: ws)

/-- The stacks with an operand on top of operators that wait. -/
def Stacks.waiting (ws : List Waiting) (right : Expr) : Stacks :=
  ⟨some right :: ws.map (·.left), ws.map (·.op)⟩

namespace Led

variable {ws : List Waiting} {w : Waiting}

theorem tail (h : Led (w :: ws)) : Led ws := by
  cases h with
  | missing => exact .nil
  | cons _ _ h => exact h

theorem fit (h : Led ws) (right : Expr) : (Stacks.waiting ws right).Fit := by
  refine ⟨by simp [Stacks.waiting], ?_⟩
  induction h generalizing right with
  | nil => simp [Stacks.waiting]
  | missing => simp [Stacks.waiting]
  | cons left op h ih =>
    have hleft := ih left
    simp only [Stacks.waiting, List.map_cons] at hleft ⊢
    simp [hleft]

/-- The operator on top of operators that wait can be combined. -/
theorem combined_sound (h : Led (w :: ws)) (right : Expr) :
    (Event.combined (Stacks.waiting (w :: ws) right)).Sound := by
  refine ⟨h.fit right, right, w.left, ws.map (·.left), w.op, ws.map (·.op), rfl, ?_⟩
  cases h <;> simp

theorem settle (h : Led ws) (op : Joint) (right : Expr) : Led (Line.settle op ws right).1 := by
  induction ws generalizing right with
  | nil => exact .nil
  | cons w ws ih =>
    rw [Line.settle]
    split
    · exact ih h.tail _
    · exact h

end Led

/-- **Operators that take their right operand first are combined** as the line says. -/
theorem combineBefore_waiting {ws : List Waiting} (h : Led ws) (r : Backtracking) (op : Joint)
    (right : Expr) (s : Track) :
    ∃ t, combineBefore op (Stacks.waiting ws right).operands (Stacks.waiting ws right).operators s =
        .returned (.ok (Stacks.waiting (Line.settle op ws right).1 (Line.settle op ws right).2)) t ∧
      r.Kept s t ∧ t.place = s.place := by
  induction ws generalizing right s with
  | nil => exact ⟨s, rfl, .refl r s, rfl⟩
  | cons w ws ih =>
    by_cases hfirst : Operator.bindsFirst w.op.symbol op.symbol = true
    · obtain ⟨t, ht, kept, hplace⟩ := ih h.tail (w.close right)
        (s.record (.combined (Stacks.waiting (w :: ws) right)))
      rw [Line.settle, if_pos hfirst]
      refine ⟨t, ?_, (Backtracking.Kept.record (h.combined_sound right)).trans kept, hplace⟩
      show (if _ then _ else _ : Tracked Stacks) s = _
      rw [if_pos hfirst]
      exact ht
    · rw [Line.settle, if_neg hfirst]
      refine ⟨s, ?_, .refl r s, rfl⟩
      show (if _ then _ else _ : Tracked Stacks) s = _
      rw [if_neg hfirst]
      rfl

/-- **All operators are combined**, and the tree is on top. -/
theorem combineAll_waiting {ws : List Waiting} (h : Led ws) (r : Backtracking) (right : Expr)
    (s : Track) :
    ∃ t, combineAll (Stacks.waiting ws right).operands (Stacks.waiting ws right).operators s =
        .returned (.ok (some (Line.settleAll ws right))) t ∧
      r.Kept s t ∧ t.place = s.place := by
  induction ws generalizing right s with
  | nil => exact ⟨s, rfl, .refl r s, rfl⟩
  | cons w ws ih =>
    obtain ⟨t, ht, kept, hplace⟩ := ih h.tail (w.close right)
      (s.record (.combined (Stacks.waiting (w :: ws) right)))
    exact ⟨t, ht, (Backtracking.Kept.record (h.combined_sound right)).trans kept, hplace⟩

/-! ## 2. The stacks of a line -/

/-- The stacks of a line that begins with `first`, behind the operands `done`, the last one first:
    what follows makes one tree with the stacks and with the line. -/
inductive Stacks.Holds (first : Option Expr) : List (Joint × Expr) → Stacks → Prop where
  | start : Holds first [] ⟨[first], []⟩
  | waiting {done : List (Joint × Expr)} {ws : List Waiting} {right : Expr} (led : Led ws)
      (tree : ∀ more, (⟨first, done.reverse ++ more⟩ : Line).tree? =
        some (Line.treeFrom ws right more)) :
      Holds first done (Stacks.waiting ws right)

namespace Stacks.Holds

variable {first : Option Expr} {done : List (Joint × Expr)} {held : Stacks}

theorem fit (h : Stacks.Holds first done held) : held.Fit := by
  cases h with
  | start => exact ⟨rfl, by simp⟩
  | waiting led _ => exact led.fit _

/-- Another operand. Behind a missing first operand there stands a named operator. -/
theorem push (h : Stacks.Holds first done held) (r : Backtracking) {joint : Joint}
    (hfirst : first = none → done = [] → joint ≠ .sideBySide) (operand : Expr) (s : Track) :
    ∃ left t, combineBefore joint held.operands held.operators s = .returned (.ok left) t ∧
      r.Kept s t ∧ t.place = s.place ∧
      Stacks.Holds first ((joint, operand) :: done)
        ⟨some operand :: left.operands, joint :: left.operators⟩ := by
  cases h with
  | start =>
    refine ⟨_, s, rfl, .refl r s, rfl, ?_⟩
    have led : Led [⟨first, joint⟩] := by
      cases first with
      | some left => exact .cons left joint .nil
      | none =>
        cases joint with
        | sideBySide => exact absurd rfl (hfirst rfl rfl)
        | operator p name => exact .missing p name
    exact .waiting led fun more => rfl
  | @waiting _ ws right led tree =>
    obtain ⟨t, ht, kept, hplace⟩ := combineBefore_waiting led r joint right s
    refine ⟨_, t, ht, kept, hplace, ?_⟩
    refine .waiting (.cons _ joint (led.settle joint right)) fun more => ?_
    rw [List.reverse_cons, List.append_assoc, List.singleton_append, tree]
    rfl

/-- At the end of a line the stacks hold its tree. -/
theorem tree (h : Stacks.Holds first done held) (r : Backtracking) (s : Track) :
    ∃ t, combineAll held.operands held.operators s =
        .returned (.ok (⟨first, done.reverse⟩ : Line).tree?) t ∧ r.Kept s t ∧ t.place = s.place := by
  cases h with
  | start => exact ⟨s, rfl, .refl r s, rfl⟩
  | waiting led tree =>
    have htree := tree []
    rw [List.append_nil] at htree
    rw [htree]
    exact combineAll_waiting led r _ s

end Stacks.Holds

/-! ## 3. The ends of the text -/

namespace Backtracking

section

variable {r : Backtracking} {ends : Prop} {s t : Track} {start depth rounds : Nat}
  {line : Tracked (Option Expr)} {line' : ByteLine}

theorem size_eq (r : Backtracking) : r.size = byteCount r.bytes.text := length_utf8 _

theorem span_end (r : Backtracking) (p : Char → Bool) :
    r.bytes.runEnd p r.size = r.size ∧ r.bytes.span p r.size = .ok ([], r.size) := by
  have hend : r.bytes.runEnd p r.size = r.size := by
    have hbounds := r.runEnd_bounds p r.size
    exact le_antisymm (hbounds.2 le_rfl) hbounds.1
  have hslice := slice?_append r.bytes.text [] []
  rw [List.append_nil, List.append_nil, byteCount_nil, Nat.add_zero, ← size_eq] at hslice
  refine ⟨hend, ?_⟩
  rw [ByteReading.span, hend, ByteReading.cut, hslice]
  rfl

theorem eat?_end (r : Backtracking) (ch : Char) : r.bytes.eat? ch r.size = none := by
  rw [ByteReading.eat?, ByteReading.bytesAt, size, List.drop_length]
  rfl

/-- Behind the spaces there is no further one. -/
theorem skipSpaces_idem (r : Backtracking) (i : Nat) :
    r.bytes.skipSpaces (r.bytes.skipSpaces i) = r.bytes.skipSpaces i := by
  let p : UInt8 → Bool := onByte (· == ' ')
  have hrest : r.bytes.bytesAt (r.bytes.skipSpaces i) = (r.bytes.bytesAt i).dropWhile p := by
    have hsplit := congrArg (List.drop ((r.bytes.bytesAt i).takeWhile p).length)
      (List.takeWhile_append_dropWhile (p := p) (l := r.bytes.bytesAt i))
    rw [List.drop_left] at hsplit
    rw [hsplit, ByteReading.bytesAt, ByteReading.bytesAt, List.drop_drop]
    rfl
  have hnone : ((r.bytes.bytesAt i).dropWhile p).takeWhile p = [] := by
    cases h : (r.bytes.bytesAt i).dropWhile p with
    | nil => rfl
    | cons byte bytes =>
      have hhead := List.head?_dropWhile_not p (r.bytes.bytesAt i)
      simp_all
  rw [ByteReading.skipSpaces, ByteReading.runEnd, hrest, hnone]
  rfl

/-- At the end of the text no operand is left. -/
theorem operands_end (r : Backtracking) (line' : ByteLine) (byte : UInt8) (bytes : List UInt8)
    (done : List (Joint × Expr)) :
    r.bytes.operands (r.bytes.term? line') (byte :: bytes) done r.size =
      .ok (done.reverse, r.size) := by
  have hspaces : r.bytes.skipSpaces r.size = r.size := (r.span_end _).1
  have hrun (p : Char → Bool) : r.bytes.run? p r.size = .ok none := by
    rw [ByteReading.run?, (r.span_end p).2]
    rfl
  have hterm : r.bytes.term? line' r.size = .ok none := by
    simp only [ByteReading.term?, ByteReading.forms, firstOf, ByteReading.named,
      ByteReading.bracketedOperator?, ByteReading.headedBy, ByteReading.number, eat?_end, hrun,
      (r.span_end _).2, Option.or_none, Option.getD_none]
    rfl
  rw [ByteReading.operands, ByteReading.jointAt, hspaces, hrun]
  show (r.bytes.term? line' (r.bytes.skipSpaces r.size) >>= _) = _
  rw [hspaces, hterm]
  rfl

/-- Behind the end of the text nothing can be cut out, so no term is looked for there in vain. -/
theorem term?_beyond {i : Nat} (h : r.size < i) :
    r.bytes.term? line' i = .error .insideCharacter := by
  have hbytes : r.bytes.bytesAt i = [] := List.drop_eq_nil_of_le h.le
  have heat (ch : Char) : r.bytes.eat? ch i = none := by
    rw [ByteReading.eat?, hbytes]
    rfl
  have hspan : r.bytes.span Char.isDigit i = .error .insideCharacter := by
    rw [ByteReading.span, ByteReading.cut]
    cases hslice : slice? r.bytes.text i (r.bytes.runEnd Char.isDigit i) with
    | none => rfl
    | some run =>
      have hstop := (byteCount_of_slice hslice).2
      have hstart := (r.runEnd_bounds Char.isDigit i).1
      rw [← size_eq] at hstop
      omega
  simp only [ByteReading.term?, ByteReading.forms, firstOf, ByteReading.named,
    ByteReading.bracketedOperator?, ByteReading.headedBy, ByteReading.number, heat, hspan,
    Option.or_none, Option.getD_none]
  rfl

/-! ## 4. Lines -/

theorem jointAt_follows {i : Nat} (hi : s.place = i) :
    r.Follows ends s
      (fun op t y => y = (jointOf (r.bytes.pos i) op, t.place) ∧ (op = none → t.place = i))
      (attempt (r.run isOperatorChar) s) (r.bytes.jointAt i) := by
  subst hi
  have hrun : r.Follows ends s (Tried s) (attempt (r.run isOperatorChar) s)
      (r.bytes.run? isOperatorChar s.place) :=
    attempt_follows ((run_follows _).imp fun _ _ _ _ h => h.1)
  unfold ByteReading.jointAt
  revert hrun
  generalize attempt (r.run isOperatorChar) s = x
  generalize r.bytes.run? isOperatorChar s.place = y
  intro hrun
  cases hrun with
  | @returned op t _ kept h =>
    obtain ⟨⟨rfl, _⟩, hnone⟩ := h
    cases op with
    | some op => exact .returned kept ⟨rfl, fun h => by cases h⟩
    | none =>
      refine .returned kept ⟨?_, hnone⟩
      rw [hnone rfl]
      rfl
  | fault kept => exact .fault kept
  | insideCharacter => exact .insideCharacter
  | unfinished h => exact .unfinished h

/-- Where at most as many bytes are left as are given, at least one is given or no operand is left. -/
theorem operands_cons (r : Backtracking) (line' : ByteLine) (done : List (Joint × Expr))
    {bytes : List UInt8} {i : Nat} (hi : i ≤ r.size) (hbytes : r.size - i ≤ bytes.length) :
    ∃ byte bytes', r.size - i ≤ bytes'.length + 1 ∧
      r.bytes.operands (r.bytes.term? line') bytes done i =
        r.bytes.operands (r.bytes.term? line') (byte :: bytes') done i := by
  cases bytes with
  | cons byte bytes => exact ⟨byte, bytes, hbytes, rfl⟩
  | nil =>
    rw [List.length_nil] at hbytes
    obtain rfl : i = r.size := by omega
    refine ⟨0, [], by omega, ?_⟩
    rw [operands_end]
    rfl

/-- Inside a line that begins at `start` with the operand `first`, behind the operands `done`. Where
    the first operand is missing and nothing is read yet, no term begins. -/
structure Between (r : Backtracking) (line' : ByteLine) (start depth : Nat) (first : Option Expr)
    (done : List (Joint × Expr)) (held : Stacks) (s : Track) : Prop where
  holds : held.Holds first done
  behind : start ≤ s.place
  inside : s.place ≤ r.size
  depth : s.depth = depth
  idle : first = none → done = [] →
    r.bytes.skipSpaces s.place = s.place ∧ r.bytes.term? line' s.place = .ok none

/-- **One more operand.** -/
theorem Between.push {first : Option Expr} {done : List (Joint × Expr)} {held : Stacks}
    (h : r.Between line' start depth first done held s) {op : Option String} {t u : Track}
    {operand : Expr} {stop : Nat} (p : Pos) (kept : r.Kept s u)
    (hop : op = none → t.place = r.bytes.skipSpaces s.place)
    (hread : r.bytes.term? line' (r.bytes.skipSpaces t.place) = .ok (some (operand, stop))) :
    ∃ left v, combineBefore (jointOf p op) held.operands held.operators u =
        .returned (.ok left) v ∧ r.Kept u v ∧ v.place = u.place ∧
      r.Between line' start depth first ((jointOf p op, operand) :: done)
        ⟨some operand :: left.operands, jointOf p op :: left.operators⟩ v := by
  -- with no first operand and no operator the second look for a term ends as the first one did
  have hjoint : first = none → done = [] → jointOf p op ≠ .sideBySide := by
    intro hfirst hdone hside
    cases op with
    | some op => cases hside
    | none =>
      obtain ⟨hstill, hterm⟩ := h.idle hfirst hdone
      rw [hop rfl, hstill, hstill, hterm] at hread
      cases hread
  obtain ⟨left, v, hv, kept', hplace, hholds⟩ := h.holds.push r hjoint operand u
  have hsv := kept.trans kept'
  exact ⟨left, v, hv, kept', hplace, hholds, h.behind.trans hsv.forward, hsv.inside h.inside,
    hsv.depth.trans h.depth, fun _ h => by cases h⟩

/-- **The operands of a line.** -/
theorem operands_follow (hline : r.Calls ends start depth line line')
    (hrounds : ends → r.size - start ≤ rounds) {first : Option Expr} (turns : Nat)
    {bytes : List UInt8} {done : List (Joint × Expr)} {held : Stacks}
    (hs : r.Between line' start depth first done held s)
    (hbytes : r.size - s.place ≤ bytes.length) (hturns : ends → r.size - s.place < turns) :
    r.Follows ends s (fun held t y => Stacks.Holds first y.1.reverse held ∧ t.place = y.2)
      (r.operands (r.term rounds line) turns held s)
      (r.bytes.operands (r.bytes.term? line') bytes done s.place) := by
  induction turns generalizing bytes done held s with
  | zero => exact .unfinished fun hends => Nat.not_lt_zero _ (hturns hends)
  | succ turns ih =>
    obtain ⟨byte, bytes', hbytes', hread⟩ := r.operands_cons line' done hs.inside hbytes
    rw [hread, Backtracking.operands, ByteReading.operands, record_bind]
    have hturn : r.Kept s (s.record (.turn held)) := .record (e := .turn held) hs.holds.fit
    refine .before hturn <| after_spaces ?_
    rw [place_bind]
    simp only [Track.moved_place, Track.record_place]
    have hspaces := hturn.trans (r.kept_spaces _)
    rw [Track.record_place] at hspaces
    refine (jointAt_follows rfl).bind fun op t y kept h => ?_
    obtain ⟨rfl, hop⟩ := h
    have ht := hspaces.trans kept
    refine (term_follows hline hrounds (hs.behind.trans ht.forward)
      (ht.depth.trans hs.depth)).bind_ok fun o u y kept' hy h => ?_
    obtain ⟨⟨rfl, hfurther⟩, hnone⟩ := h
    cases o with
    | none =>
      have hstop := hnone rfl
      cases op with
      | some op =>
        dsimp only [Option.map_none, jointOf]
        rw [← hstop]
        exact missing_follows _
      | none =>
        refine .returned (.refl r u) ⟨?_, hstop⟩
        rw [List.reverse_reverse]
        exact hs.holds
    | some operand =>
      obtain ⟨left, v, hv, kept'', hplace, hnext⟩ :=
        hs.push (r.bytes.pos (r.bytes.skipSpaces s.place)) (ht.trans kept') hop hy
      -- the operand takes a byte at least
      have hlt : s.place < v.place := by
        have hforward := (ht.trans (r.kept_spaces t)).forward
        rw [hplace]
        exact hforward.trans_lt (hfurther operand rfl)
      have hinside := hnext.inside
      show r.Follows ends u _ ((combineBefore _ _ _ >>= _) u) _
      rw [bind_returned hv]
      have hleft : r.size - v.place ≤ bytes'.length := by omega
      have hrest := ih hnext hleft fun hends => by have := hturns hends; omega
      rw [hplace] at hrest
      exact hrest.before kept''

/-- **The inside of a line.** -/
theorem lineInside_follows (hline : r.Calls ends s.place s.depth line line')
    (hrounds : ends → r.size - s.place < rounds) :
    r.Follows ends s Read (r.lineInside rounds line s)
      (r.bytes.flatLine (r.bytes.term? line') s.place >>= fun (l, stop) => .ok (l.tree?, stop)) := by
  have hspaces := (r.kept_spaces s).forward
  rw [Track.moved_place] at hspaces
  unfold Backtracking.lineInside ByteReading.flatLine
  dsimp only
  rw [bind_assoc]
  refine (term_follows hline (fun hends => (hrounds hends).le) le_rfl rfl).bind_ok
    fun first t y kept hy h => ?_
  obtain ⟨⟨rfl, hfurther⟩, hnone⟩ := h
  -- a term that was looked for behind the end of the text would have ended the reading
  have hsize : s.place ≤ r.size := by
    by_contra hbeyond
    rw [term?_beyond (by omega)] at hy
    cases hy
  have hbytes : r.size - t.place ≤ (r.bytes.bytesAt t.place).length := (r.length_bytesAt _).ge
  have hbetween : r.Between line' s.place s.depth first [] ⟨[first], []⟩ t := by
    refine ⟨.start, kept.forward, kept.inside hsize, kept.depth, ?_⟩
    rintro rfl _
    rw [hnone rfl] at hy ⊢
    exact ⟨r.skipSpaces_idem s.place, hy⟩
  have hoperands := operands_follow hline (fun hends => (hrounds hends).le) rounds hbetween hbytes
    fun hends => by have := hrounds hends; have := kept.forward; omega
  have hrest : r.Follows ends t Read
      ((r.operands (r.term rounds line) rounds ⟨[first], []⟩ >>= fun held =>
        combineAll held.operands held.operators) t)
      (r.bytes.operands (r.bytes.term? line') (r.bytes.bytesAt t.place) [] t.place >>= fun p =>
        .ok ((⟨first, p.1⟩ : Line).tree?, p.2)) := by
    refine hoperands.bind fun held u y kept h => ?_
    obtain ⟨hholds, hplace⟩ := h
    obtain ⟨v, hv, kept', hplace'⟩ := hholds.tree r u
    rw [hv, ← hplace, ← hplace']
    refine .returned kept' ?_
    rw [List.reverse_reverse]
    rfl
  rw [bind_assoc]
  cases first with
  | some e => exact hrest
  | none =>
    rw [hnone rfl] at hrest
    exact hrest

theorem deeper_follows {m : Tracked (Option Expr)} {y : Sliced (Option Expr × Nat)}
    (h : r.Follows ends { s with depth := s.depth + 1 } Read (m { s with depth := s.depth + 1 }) y) :
    r.Follows ends s Read (deeper m s) y := by
  unfold deeper
  revert h
  generalize m { s with depth := s.depth + 1 } = x
  intro h
  have shallower {t : Track} (kept : r.Kept { s with depth := s.depth + 1 } t) :
      r.Kept s { t with depth := t.depth - 1 } :=
    ⟨kept.saved, by rw [kept.depth]; rfl, kept.forward, kept.inside, kept.sound⟩
  cases h with
  | returned kept h => exact .returned (shallower kept) h
  | fault kept => exact .fault (shallower kept)
  | insideCharacter => exact .insideCharacter
  | unfinished h => exact .unfinished h

end

/-- **Lines**, beside those that are read byte by byte with as many levels as are left under the
    limit, or with more levels than there are bytes left if there is no limit. They come to an end
    if there are a few more rounds than bytes left. -/
theorem line_follows (r : Backtracking) (rounds levels : Nat) (s : Track)
    (hbounded : r.bounded = true → levels = r.bytes.limit - s.depth)
    (hunbounded : r.bounded = false → r.size - s.place < levels) :
    r.Follows (r.size - s.place + 2 ≤ rounds) s Read (r.line rounds s)
      (r.bytes.line levels s.place) := by
  induction rounds generalizing levels s with
  | zero => exact .unfinished (by omega)
  | succ rounds ih =>
    show r.Follows _ s Read (if _ then _ else _) _
    by_cases hdeep : (r.bounded && r.bytes.limit ≤ s.depth) = true
    · rw [if_pos hdeep]
      rw [Bool.and_eq_true, decide_eq_true_iff] at hdeep
      obtain rfl : levels = 0 := by
        have := hbounded hdeep.1
        omega
      exact .fault (.refl r s)
    · rw [if_neg hdeep]
      rw [Bool.and_eq_true, decide_eq_true_iff] at hdeep
      obtain ⟨levels, rfl⟩ : ∃ l, levels = l + 1 := by
        refine ⟨levels - 1, ?_⟩
        cases hb : r.bounded with
        | true =>
          have := hbounded hb
          have : ¬ r.bytes.limit ≤ s.depth := fun h => hdeep ⟨hb, h⟩
          omega
        | false =>
          have := hunbounded hb
          omega
      have hrounds : r.size - s.place + 2 ≤ rounds + 1 → r.size - s.place < rounds := by omega
      refine deeper_follows (lineInside_follows (fun t ht => ?_) hrounds)
      -- a line inside of this one has fewer bytes left
      have hbehind : s.place < t.place := ht.behind
      have hinside := ht.inside
      have hdepth : t.depth = s.depth + 1 := ht.depth
      have hnested := ih levels (t.record (.nested s.place t.place))
        (fun hb => by have := hbounded hb; show _ = _ - t.depth; omega)
        (fun hb => by have := hunbounded hb; rw [Track.record_place]; omega)
      refine nested_follows hbehind (hnested.ends_mono ?_)
      rw [Track.record_place]
      omega

/-- Levels that a line at a depth may take: those that are left under the limit, or more than there
    are bytes. -/
def levels (r : Backtracking) (depth : Nat) : Nat :=
  if r.bounded then r.bytes.limit - depth else r.size + 1

/-- **Lines from any state.** -/
theorem line_follows_levels (r : Backtracking) (rounds : Nat) (s : Track) :
    r.Follows (r.size - s.place + 2 ≤ rounds) s Read (r.line rounds s)
      (r.bytes.line (r.levels s.depth) s.place) := by
  refine r.line_follows rounds _ s (fun hb => by rw [levels, if_pos hb]) fun hb => ?_
  rw [levels, if_neg (by simp [hb])]
  omega

/-- Lines inside of a line from any state. -/
theorem nested_calls (r : Backtracking) (rounds start depth : Nat) :
    r.Calls (r.size - start < rounds) start depth (nested start (r.line rounds))
      (r.bytes.line (r.levels depth)) := by
  intro t ht
  have hbehind := ht.behind
  have hinside := ht.inside
  have hnested := r.line_follows_levels rounds (t.record (.nested start t.place))
  rw [show (t.record (.nested start t.place)).depth = depth from ht.depth, Track.record_place]
    at hnested
  refine nested_follows hbehind (hnested.ends_mono ?_)
  omega

/-! ## 5. Programs -/

/-- **Whole texts.** -/
theorem whole_follows (r : Backtracking) (rounds : Nat)
    (hunbounded : r.bounded = false → r.size < r.bytes.limit) :
    r.Follows (r.size + 2 ≤ rounds) .start (fun e _ e' => e' = e) (r.whole rounds .start)
      r.bytes.whole := by
  have hline := r.line_follows rounds r.bytes.limit .start (fun _ => rfl) hunbounded
  refine hline.bind fun program t y kept h => ?_
  obtain rfl : y = (program, t.place) := h
  refine after_spaces ?_
  rw [place_bind, Track.moved_place]
  dsimp only
  cases r.bytes.bytesAt (r.bytes.skipSpaces t.place) with
  | cons byte bytes => exact .fault (.refl r _)
  | nil =>
    cases program with
    | none => exact missing_follows _
    | some e => exact .returned (.refl r _) rfl

theorem ofSliced_follows {ends : Prop} {s : Track} {α : Type} (x : Sliced α) (r : Backtracking) :
    r.Follows ends s (fun a t b => b = a ∧ t = s) (Tracked.ofSliced x s) x := by
  rcases x with (_ | e) | a
  · exact .insideCharacter
  · exact .fault (.refl r s)
  · exact .returned (.refl r s) ⟨rfl, rfl⟩

/-- A reading that comes to the same end as one that never cuts a character. -/
theorem Follows.exists_returned {r : Backtracking} {ends : Prop} {s : Track} {α : Type}
    {x : TrackedOutcome α} {result : Parsed α}
    (h : r.Follows ends s (fun a _ b => b = a) x (result.mapError .fault)) (hends : ends) :
    ∃ t, x = .returned result t ∧ r.Kept s t := by
  cases result with
  | ok a =>
    cases h with
    | returned kept h => exact ⟨_, by rw [h], kept⟩
    | unfinished h => exact absurd hends h
  | error e =>
    cases h with
    | fault kept => exact ⟨_, rfl, kept⟩
    | unfinished h => exact absurd hends h

end Backtracking

/-- **Programs**, beside the reading byte by byte. -/
theorem parseBacktracking_follows (source : Source) (defs : List Definition) (maxDepth : Option Nat)
    (rounds : Nat) :
    (backtracking source defs maxDepth).Follows
      ((backtracking source defs maxDepth).size + 2 ≤ rounds) .start (fun e _ e' => e' = e)
      (parseBacktracking source defs maxDepth rounds)
      (parseBytes source defs (backtracking source defs maxDepth).bytes.limit) := by
  have hwhole := (backtracking source defs maxDepth).whole_follows rounds fun hunbounded => by
    obtain rfl : maxDepth = none := by simpa [backtracking] using hunbounded
    rw [Backtracking.size_eq]
    exact Nat.lt_succ_self _
  unfold parseBacktracking parseBytes
  cases defs with
  | nil => exact hwhole
  | cons d ds =>
    refine (Backtracking.ofSliced_follows _ _).bind fun _ t _ _ h => ?_
    obtain ⟨_, rfl⟩ := h
    exact hwhole

/-- Beyond the bytes of the text the limit plays no part. -/
theorem parse_beyond {source : Source} {defs : List Definition} {limit : Nat}
    (h : byteCount (prepare source.chars defs).text < limit) :
    parse source defs limit =
      parse source defs (byteCount (prepare source.chars defs).text + 1) := by
  obtain ⟨k, rfl⟩ := Nat.le.dest (Nat.succ_le_of_lt h)
  refine (parse_limits source defs _ k).resolve_right (enough_of_length_lt ?_)
  exact Nat.lt_succ_of_le (length_le_byteCount _)

/-- **A program is read to an end, with a limit or without one.** Its tree or its fault is that of the
    reading by levels; without a limit, of the reading with more levels than there are bytes. -/
theorem parseBacktracking_returned {source : Source} {defs : List Definition}
    {maxDepth : Option Nat} {limit rounds : Nat}
    (hlimit : maxDepth = some limit ∨
      maxDepth = none ∧ (backtracking source defs maxDepth).size < limit)
    (hrounds : (backtracking source defs maxDepth).size + 2 ≤ rounds) :
    ∃ t, parseBacktracking source defs maxDepth rounds = .returned (parse source defs limit) t ∧
      (backtracking source defs maxDepth).Kept .start t := by
  have hsame : parse source defs limit =
      parse source defs (backtracking source defs maxDepth).bytes.limit := by
    rcases hlimit with rfl | ⟨rfl, hlt⟩
    · rfl
    · rw [Backtracking.size_eq] at hlt
      exact parse_beyond hlt
  have hfollows := parseBacktracking_follows source defs maxDepth rounds
  rw [parseBytes_eq, ← hsame] at hfollows
  exact hfollows.exists_returned hrounds

/-- **Reading with a cursor backtracks in order and comes to an end.** From every state, a line, a term
    and every alternative of a term leave the saved places and the depth as they were and the cursor
    not behind the end of the text, however they return. What is tried and does not match leaves the
    cursor where it was; an alternative that matches leaves it further on. Lines inside of a line
    begin behind its beginning, and its stacks are in order where another operand is looked for and
    where an operator is combined. With a few more rounds than there are bytes every reading comes to
    an end, without a limit too, and gives what the reading by levels gives. -/
theorem backtracking_disciplined :
    (∀ (r : Backtracking) (rounds : Nat) (s : Track),
      r.Disciplined (r.size - s.place + 2 ≤ rounds) (r.line rounds) s ∧
      (∀ start ≤ s.place,
        r.Disciplined (r.size - start < rounds)
          (r.term rounds (Backtracking.nested start (r.line rounds))) s ∧
        ∀ form ∈ r.forms rounds (Backtracking.nested start (r.line rounds)),
          r.Backtracks (r.size - start < rounds) form s) ∧
      r.Backtracks True r.bracketedOperator s ∧
      (∀ p, r.Backtracks True (r.run p) s) ∧
      ∀ (ends : Prop) (α : Type) (m : Tracked (Option α)), r.Disciplined ends m s.save →
        r.Disciplined ends (attempt m) s ∧
          ∀ t, attempt m s = .returned (.ok none) t → t.place = s.place) ∧
    ∀ (source : Source) (defs : List Definition) (maxDepth : Option Nat) (limit rounds : Nat),
      maxDepth = some limit ∨
        maxDepth = none ∧ (backtracking source defs maxDepth).size < limit →
      (backtracking source defs maxDepth).size + 2 ≤ rounds →
      ∃ t, parseBacktracking source defs maxDepth rounds = .returned (parse source defs limit) t ∧
        (backtracking source defs maxDepth).Kept .start t := by
  refine ⟨fun r rounds s => ⟨?_, fun start hle => ?_, ?_, fun p => ?_, ?_⟩,
    fun source defs maxDepth limit rounds => parseBacktracking_returned⟩
  · exact (r.line_follows_levels rounds s).disciplined
  · have hline := r.nested_calls rounds start s.depth
    exact ⟨(Backtracking.term_follows hline Nat.le_of_lt hle rfl).disciplined,
      Backtracking.forms_backtrack (Backtracking.forms_follow hline Nat.le_of_lt hle)⟩
  · exact Backtracking.matched_backtracks Backtracking.bracketedOperator_follows
      Backtracking.bracketedOperator_follows
  · have hrun (s : Track) : r.Follows True s (Backtracking.Matched s) (r.run p s)
        (r.bytes.run? p s.place) := (Backtracking.run_follows p).imp fun _ _ _ _ h => h.1
    exact Backtracking.matched_backtracks (hrun s) (hrun s.save)
  · exact fun ends α m => Backtracking.attempt_disciplined

/-- A group is tried as an operator in parentheses, and the cursor is put back. -/
example : attempt (backtracking ⟨"main", "(-1)"⟩ [] none).bracketedOperator .start =
    .returned (.ok none) .start := by decide

end CallByNeed
