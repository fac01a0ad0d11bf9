/-
  File:      CallByNeed/Proofs/LineColumn.lean
  Subject:   Line and column identify a place of a text.

  The walk to an offset goes over the characters that begin in front of it. Where these end there
  is a boundary between two characters, so each offset inside the text has the place of the first
  boundary that is not in front of it; and each character leads to a later place.

  * `Source.Boundary` -- an offset between two characters, or at an end of the text;
  * `LineColumn.behind`, `Source.position?_boundary` -- the place of a boundary, counted on the
    text in front of it;
  * `LineColumn.key`, `Source.position?_lt` -- places in their order, and boundaries along it;
  * `Pos.location_eq_iff` -- the place can be read off the header of a message;
  * `line_column_identifies` -- all of it together.
-/
import CallByNeed.Proofs.Literal
import CallByNeed.Source
import Mathlib.Data.List.DropRight
import Mathlib.Data.Prod.Lex

namespace CallByNeed

/-! ## 1. The walk to a place -/

namespace LineColumn

/-- The place behind a text: its newlines are counted, and the characters behind the last one. -/
def behind (front : List Char) : LineColumn :=
  ⟨1 + front.count '\n', 1 + (front.rtakeWhile (· ≠ '\n')).length⟩

/-- Each character leads from the place behind the text so far to the place behind itself. -/
theorem behind_concat (front : List Char) (c : Char) :
    behind (front ++ [c]) = (behind front).after c := by
  unfold behind after
  by_cases hc : c = '\n'
  · subst hc
    rw [if_pos rfl, List.rtakeWhile_concat_neg _ _ _ (by simp), List.count_append]
    simp [Nat.add_assoc]
  · rw [if_neg hc, List.rtakeWhile_concat_pos _ _ _ (by simp [hc]), List.count_append]
    simp [hc, Nat.add_assoc]

/-- Counting character by character comes to the place behind the text. -/
theorem foldl_after (front : List Char) : front.foldl after start = behind front := by
  induction front using List.reverseRecOn with
  | nil => rfl
  | append_singleton front c ih => rw [List.foldl_append, ih, behind_concat]; rfl

/-- An offset behind the beginning of a character, and not behind its end, is walked to over the
    whole character. -/
theorem walk_over (p : LineColumn) (front : List Char) (c : Char) (back : List Char) {n : Nat}
    (hlow : byteCount front < n) (hhigh : n ≤ byteCount front + c.utf8Size) :
    p.walk n (front ++ c :: back) = (front ++ [c]).foldl after p := by
  induction front generalizing p n with
  | nil =>
    obtain ⟨n, rfl⟩ : ∃ m, n = m + 1 := ⟨n - 1, by rw [byteCount_nil] at hlow; omega⟩
    rw [byteCount_nil] at hhigh
    have hstop : n + 1 - c.utf8Size = 0 := by omega
    rw [List.nil_append, walk, hstop]
    cases back <;> rfl
  | cons d front ih =>
    rw [byteCount_cons] at hlow hhigh
    obtain ⟨n, rfl⟩ : ∃ m, n = m + 1 := ⟨n - 1, by omega⟩
    rw [List.cons_append, walk, ih (p.after d) (by omega) (by omega)]
    rfl

/-- An offset between two characters is walked to over the characters in front of it. -/
theorem walk_front (p : LineColumn) (front back : List Char) :
    p.walk (byteCount front) (front ++ back) = front.foldl after p := by
  rcases List.eq_nil_or_concat' front with rfl | ⟨front, c, rfl⟩
  · cases back <;> rfl
  · have hpos := c.utf8Size_pos
    have hsize : byteCount (front ++ [c]) = byteCount front + c.utf8Size := by simp
    rw [List.append_assoc]
    exact p.walk_over front c back (by omega) (by omega)

/-! ## 2. Places in their order -/

/-- Places in reading order: lines first, then columns. -/
def key (p : LineColumn) : ℕ ×ₗ ℕ := toLex (p.line, p.column)

theorem key_lt_after (p : LineColumn) (c : Char) : p.key < (p.after c).key := by
  unfold key after
  rw [Prod.Lex.toLex_lt_toLex]
  split
  · exact .inl (Nat.lt_succ_self _)
  · exact .inr ⟨rfl, Nat.lt_succ_self _⟩

theorem key_lt_foldl (p : LineColumn) {cs : List Char} (h : cs ≠ []) :
    p.key < (cs.foldl after p).key := by
  induction cs generalizing p with
  | nil => exact absurd rfl h
  | cons c cs ih =>
    rcases eq_or_ne cs [] with rfl | hne
    · exact p.key_lt_after c
    · exact (p.key_lt_after c).trans (ih (p.after c) hne)

end LineColumn

/-! ## 3. Boundaries -/

namespace Source

variable {s : Source}

/-- An offset between two characters of the text, or at one of its ends. -/
def Boundary (s : Source) (offset : Int) : Prop :=
  ∃ front back, s.chars = front ++ back ∧ offset = byteCount front

theorem position?_eq_none_iff (s : Source) (offset : Int) :
    s.position? offset = none ↔ offset < 0 ∨ s.size < offset := by
  rw [position?]
  split <;> simp <;> omega

/-- An offset that lies behind the beginning of a character, and not behind its end. -/
theorem position?_over {front back : List Char} {c : Char} {offset : Int}
    (h : s.chars = front ++ c :: back) (hlow : byteCount front < offset)
    (hhigh : offset ≤ byteCount front + c.utf8Size) :
    s.position? offset = some (LineColumn.behind (front ++ [c])) := by
  have hsize : s.size = byteCount front + (c.utf8Size + byteCount back) := by
    rw [size, h, byteCount_append, byteCount_cons]
  rw [position?, if_pos (by omega), h, LineColumn.walk_over _ _ _ _ (by omega) (by omega),
    LineColumn.foldl_after]

/-- **The place of a boundary**, counted on the text in front of it. -/
theorem position?_boundary {front back : List Char} (h : s.chars = front ++ back) :
    s.position? (byteCount front) = some (LineColumn.behind front) := by
  have hsize : s.size = byteCount front + byteCount back := by rw [size, h, byteCount_append]
  rw [position?, if_pos (by omega), h, Int.toNat_natCast, LineColumn.walk_front,
    LineColumn.foldl_after]

/-- Of two boundaries the text in front of one begins the text in front of the other. -/
theorem exists_between {front back front' back' : List Char} (h : s.chars = front ++ back)
    (h' : s.chars = front' ++ back') (hlt : byteCount front < byteCount front') :
    ∃ mid, mid ≠ [] ∧ front' = front ++ mid := by
  rcases List.append_eq_append_iff.mp (h.symm.trans h') with ⟨mid, rfl, _⟩ | ⟨mid, rfl, _⟩
  · refine ⟨mid, ?_, rfl⟩
    rintro rfl
    simp at hlt
  · rw [byteCount_append] at hlt
    omega

/-- **Along the boundaries the places go up.** -/
theorem position?_lt {i j : Int} (hi : s.Boundary i) (hj : s.Boundary j) (hlt : i < j) :
    ∃ p q, s.position? i = some p ∧ s.position? j = some q ∧ p.key < q.key := by
  obtain ⟨front, back, h, rfl⟩ := hi
  obtain ⟨front', back', h', rfl⟩ := hj
  refine ⟨_, _, position?_boundary h, position?_boundary h', ?_⟩
  obtain ⟨mid, hmid, rfl⟩ := exists_between h h' (by omega)
  rw [← LineColumn.foldl_after (front ++ mid), List.foldl_append, LineColumn.foldl_after]
  exact LineColumn.key_lt_foldl _ hmid

/-- Boundaries with one place are one boundary. -/
theorem Boundary.eq_of_position? {i j : Int} (hi : s.Boundary i) (hj : s.Boundary j)
    (h : s.position? i = s.position? j) : i = j := by
  by_contra hne
  have apart {i j : Int} (hi : s.Boundary i) (hj : s.Boundary j) (hlt : i < j) :
      s.position? i ≠ s.position? j := by
    obtain ⟨p, q, hp, hq, hkey⟩ := position?_lt hi hj hlt
    rw [hp, hq]
    rintro ⟨⟩
    exact lt_irrefl _ hkey
  rcases lt_or_gt_of_ne hne with hlt | hlt
  · exact apart hi hj hlt h
  · exact apart hj hi hlt h.symm

/-- An offset inside the text is a boundary, or it lies inside a character. -/
theorem boundary_or_inside {offset : Nat} : ∀ {cs : List Char}, offset ≤ byteCount cs →
    (∃ front back, cs = front ++ back ∧ offset = byteCount front) ∨
      ∃ front c back, cs = front ++ c :: back ∧ byteCount front < offset ∧
        offset < byteCount front + c.utf8Size
  | [], h => .inl ⟨[], [], rfl, Nat.le_zero.mp h⟩
  | c :: cs, h => by
      rw [byteCount_cons] at h
      rcases Nat.eq_zero_or_pos offset with rfl | hpos
      · exact .inl ⟨[], c :: cs, rfl, rfl⟩
      by_cases hinside : offset < c.utf8Size
      · exact .inr ⟨[], c, cs, rfl, hpos, by rw [byteCount_nil]; omega⟩
      obtain ⟨k, rfl⟩ := Nat.exists_eq_add_of_le (Nat.le_of_not_lt hinside)
      have hk : k ≤ byteCount cs := by omega
      rcases boundary_or_inside hk with
        ⟨front, back, rfl, rfl⟩ | ⟨front, d, back, rfl, hlow, hhigh⟩
      · exact .inl ⟨c :: front, back, rfl, by rw [byteCount_cons]⟩
      · exact .inr ⟨c :: front, d, back, rfl, by rw [byteCount_cons]; omega,
          by rw [byteCount_cons]; omega⟩

/-- **An offset has the place of the first boundary that is not in front of it.** -/
theorem position?_next {offset : Int} (hlow : 0 ≤ offset) (hhigh : offset ≤ s.size) :
    ∃ next, s.Boundary next ∧ offset ≤ next ∧ (∀ i, s.Boundary i → offset ≤ i → next ≤ i) ∧
      s.position? offset = s.position? next := by
  obtain ⟨n, rfl⟩ := Int.eq_ofNat_of_zero_le hlow
  rcases boundary_or_inside (Int.ofNat_le.mp hhigh) with
    ⟨front, back, h, rfl⟩ | ⟨front, c, back, h, hbehind, hbefore⟩
  · exact ⟨_, ⟨front, back, h, rfl⟩, le_rfl, fun _ _ hi => hi, rfl⟩
  have hend : byteCount (front ++ [c]) = byteCount front + c.utf8Size := by simp
  have hsplit : s.chars = (front ++ [c]) ++ back := by rw [h, List.append_assoc]; rfl
  refine ⟨_, ⟨_, back, hsplit, rfl⟩, by omega, ?_, ?_⟩
  · rintro i ⟨front', back', h', rfl⟩ hi
    obtain ⟨mid, hmid, rfl⟩ := exists_between h h' (by omega)
    -- the text behind `front` begins with `c`, whatever boundary it is cut at
    obtain ⟨d, mid, rfl⟩ := List.exists_cons_of_ne_nil hmid
    have hcut := h.symm.trans h'
    rw [List.append_assoc, List.append_cancel_left_eq, List.cons_append, List.cons.injEq] at hcut
    obtain ⟨rfl, _⟩ := hcut
    rw [byteCount_append, byteCount_append, byteCount_cons, byteCount_cons, byteCount_nil]
    omega
  · rw [position?_over h (by omega) (by omega), position?_boundary hsplit]

end Source

/-! ## 4. Headers of messages -/

/-- The digits of a number contain no colon. -/
theorem colon_not_mem_toDigits (n : Nat) : ':' ∉ Nat.toDigits 10 n := by
  intro h
  have hdigit := Nat.isDigit_of_mem_toDigits (by decide) (by decide) h
  revert hdigit
  decide

theorem toDigits_injective : Function.Injective (Nat.toDigits 10) :=
  Function.LeftInverse.injective (g := digitsValue) digitsValue_toDigits

namespace Pos

variable {p q : Pos}

theorem location_toList {place : LineColumn} (h : p.source.position? p.offset = some place) :
    p.location.toList = p.source.name.toList ++
      ':' :: (Nat.toDigits 10 place.line ++ ':' :: Nat.toDigits 10 place.column) := by
  have digits (n : Nat) : (toString n).toList = Nat.toDigits 10 n := by
    show n.repr.toList = _
    rw [Nat.repr_eq_ofList_toDigits, String.toList_ofList]
  rw [location, h]
  simp only [String.toList_append, digits, List.append_assoc]
  rfl

theorem location_ne_predefined {place : LineColumn}
    (h : p.source.position? p.offset = some place) : p.location ≠ predefinedLocation := by
  intro he
  have hcolon : ':' ∈ p.location.toList := by
    rw [location_toList h]
    simp
  rw [he] at hcolon
  revert hcolon
  decide

/-- **The place can be read off the header**, and whether there is one. -/
theorem location_eq_iff (h : p.source = q.source) :
    p.location = q.location ↔
      p.source.position? p.offset = q.source.position? q.offset := by
  constructor
  · intro he
    cases hp : p.source.position? p.offset with
    | none =>
      cases hq : q.source.position? q.offset with
      | none => rfl
      | some b =>
        have hnone : p.location = predefinedLocation := by rw [location, hp]
        exact absurd (he.symm.trans hnone) (location_ne_predefined hq)
    | some a =>
      cases hq : q.source.position? q.offset with
      | none =>
        have hnone : q.location = predefinedLocation := by rw [location, hq]
        exact absurd (he.trans hnone) (location_ne_predefined hp)
      | some b =>
        have htext := congrArg String.toList he
        rw [location_toList hp, location_toList hq, h, List.append_cancel_left_eq,
          List.cons.injEq] at htext
        obtain ⟨hline, _, hcolumn⟩ := (List.append_cons_inj_of_notMem (colon_not_mem_toDigits _)
          (colon_not_mem_toDigits _)).mp htext.2
        obtain ⟨line, column⟩ := a
        obtain ⟨line', column'⟩ := b
        obtain rfl : line = line' := toDigits_injective hline
        obtain rfl : column = column' := toDigits_injective hcolumn
        rfl
  · intro he
    rw [location, location, he, h]

end Pos

/-! ## 5. Line and column identify a place -/

/-- **Line and column identify a place.** An offset has none exactly if it lies outside the text.
    Between two characters they count the newlines in front and the characters behind the last of
    these; they go up from boundary to boundary, so no two boundaries share them, nor the header of
    a message that shows them. Every other offset has those of the next boundary. -/
theorem line_column_identifies (s : Source) :
    (∀ offset : Int, s.position? offset = none ↔ offset < 0 ∨ s.size < offset) ∧
    (∀ front back, s.chars = front ++ back → s.position? (byteCount front) =
      some ⟨1 + front.count '\n', 1 + (front.rtakeWhile (· ≠ '\n')).length⟩) ∧
    (∀ i j, s.Boundary i → s.Boundary j → i < j →
      ∃ p q, s.position? i = some p ∧ s.position? j = some q ∧ p.key < q.key) ∧
    (∀ i j, s.Boundary i → s.Boundary j → s.position? i = s.position? j → i = j) ∧
    (∀ i j, s.Boundary i → s.Boundary j →
      (⟨s, i⟩ : Pos).location = (⟨s, j⟩ : Pos).location → i = j) ∧
    (∀ offset : Int, 0 ≤ offset → offset ≤ s.size → ∃ next, s.Boundary next ∧ offset ≤ next ∧
      (∀ i, s.Boundary i → offset ≤ i → next ≤ i) ∧ s.position? offset = s.position? next) := by
  refine ⟨s.position?_eq_none_iff, fun front back h => Source.position?_boundary h,
    fun i j hi hj => Source.position?_lt hi hj, fun i j hi hj => hi.eq_of_position? hj,
    fun i j hi hj he => ?_, fun offset => Source.position?_next⟩
  exact hi.eq_of_position? hj ((Pos.location_eq_iff (p := ⟨s, i⟩) (q := ⟨s, j⟩) rfl).mp he)

/-- An offset inside a character of two bytes, behind a newline. -/
example : (⟨"main", "a\né"⟩ : Source).position? 3 = some ⟨2, 2⟩ := by decide

end CallByNeed
