/-
  File:      CallByNeed/Proofs/Layout.lean
  Subject:   What blanking leaves of a text.

  * `Region.after`, `blankFrom_append` -- the region behind a text; the first part of a text, and the
    rest from the region it leads to;
  * `isLayoutChar_of_mem_blankFrom`, `byteCount_blankFrom` -- no layout character is left, and every
    byte;
  * `Clean` -- texts that stay as they are; `clean_of_chars`, `clean_of_string`;
  * `blankText_string` -- what is left of a string.
-/
import CallByNeed.Layout
import CallByNeed.Proofs.Parser.Token

namespace CallByNeed

/-- The region behind a text. -/
def Region.after (r : Region) (cs : List Char) : Region := cs.foldl Region.step r

theorem blankFrom_append (r : Region) (cs ds : List Char) :
    blankFrom r (cs ++ ds) = blankFrom r cs ++ blankFrom (r.after cs) ds := by
  induction cs generalizing r with
  | nil => rfl
  | cons c cs ih => rw [List.cons_append, blankFrom_cons, blankFrom_cons, ih, List.append_assoc]; rfl

theorem Region.after_append (r : Region) (cs ds : List Char) :
    r.after (cs ++ ds) = (r.after cs).after ds :=
  List.foldl_append

/-- No layout character is left. -/
theorem isLayoutChar_of_mem_blankFrom {r : Region} {cs : List Char} {ch : Char}
    (h : ch ∈ blankFrom r cs) : isLayoutChar ch = false := by
  have blank : isLayoutChar ' ' = false := by decide
  induction cs generalizing r with
  | nil => cases h
  | cons c cs ih =>
    rw [blankFrom_cons] at h
    rcases List.mem_append.mp h with h | h
    · cases r <;> simp only [Region.blanked] at h
      case comment =>
        rw [List.eq_of_mem_replicate h]
        exact blank
      all_goals
        split at h
        · rw [List.mem_singleton.mp h]
          exact blank
        · rename_i hc
          rw [List.mem_singleton.mp h]
          simp_all
    · exact ih h

/-- What is left of a character has as many bytes. -/
theorem byteCount_blanked (r : Region) (ch : Char) : byteCount (r.blanked ch) = ch.utf8Size := by
  have layout {ch : Char} (h : isLayoutChar ch = true ∨ ch = '#') : ch.utf8Size = 1 := by
    simp only [isLayoutChar, Bool.or_eq_true, beq_iff_eq] at h
    rcases h with (((rfl | rfl) | rfl) | rfl) | rfl <;> decide
  cases r <;> simp only [Region.blanked]
  case comment => exact byteCount_replicate_space _
  case code =>
    split
    · rename_i h
      rw [layout (by simpa using h)]
      rfl
    · simp
  all_goals
    split
    · rename_i h
      rw [layout (.inl h)]
      rfl
    · simp

/-- Blanking keeps the bytes of a text. -/
theorem byteCount_blankFrom (r : Region) (cs : List Char) :
    byteCount (blankFrom r cs) = byteCount cs := by
  induction cs generalizing r with
  | nil => rfl
  | cons c cs ih => rw [blankFrom_cons, byteCount_append, byteCount_blanked, ih, byteCount_cons]

/-- Code that blanking leaves as it is, and that code can follow. -/
def Clean (cs : List Char) : Prop := blankFrom .code cs = cs ∧ Region.after .code cs = .code

theorem Clean.nil : Clean [] := ⟨rfl, rfl⟩

theorem Clean.append {cs ds : List Char} (hc : Clean cs) (hd : Clean ds) : Clean (cs ++ ds) := by
  refine ⟨by rw [blankFrom_append, hc.1, hc.2, hd.1], ?_⟩
  rw [Region.after_append, hc.2, hd.2]

/-- Characters that code is made of, apart from strings and comments. -/
def isPlainChar (ch : Char) : Bool := !isLayoutChar ch && ch != '#' && ch != '"'

theorem isPlainChar_iff {ch : Char} :
    isPlainChar ch = true ↔ isLayoutChar ch = false ∧ ch ≠ '#' ∧ ch ≠ '"' := by
  simp [isPlainChar, and_assoc]

theorem isPlainChar_of_operator {ch : Char} (h : isOperatorChar ch = true) :
    isPlainChar ch = true := by
  obtain ⟨_, _, _, _, _, hquote, _, hhash, hlayout⟩ := isOperatorChar_spec h
  exact isPlainChar_iff.mpr ⟨hlayout, hhash, hquote⟩

theorem isPlainChar_of_name {ch : Char} (h : isNameChar ch = true) : isPlainChar ch = true := by
  refine isPlainChar_iff.mpr ⟨?_, isNameChar_ne h (by decide), isNameChar_ne h (by decide)⟩
  have hne {d : Char} (hd : isNameChar d = false) : (ch == d) = false :=
    beq_eq_false_iff_ne.mpr (isNameChar_ne h hd)
  simp only [isLayoutChar, hne (by decide : isNameChar '\n' = false),
    hne (by decide : isNameChar '\r' = false), hne (by decide : isNameChar '\t' = false),
    hne (by decide : isNameChar '\x0b' = false), Bool.or_self]

theorem clean_of_chars {cs : List Char} (h : ∀ ch ∈ cs, isPlainChar ch = true) : Clean cs := by
  induction cs with
  | nil => exact .nil
  | cons c cs ih =>
    obtain ⟨hlayout, hhash, hquote⟩ := isPlainChar_iff.mp (h c List.mem_cons_self)
    have hc : Clean [c] := by
      refine ⟨?_, ?_⟩
      · simp [blankFrom_cons, Region.blanked, hlayout, hhash]
      · simp [Region.after, Region.step, hhash, hquote]
    exact hc.append (ih fun ch hch => h ch (List.mem_cons_of_mem _ hch))

theorem clean_of_plain {cs : List Char} (h : cs.all isPlainChar = true) : Clean cs :=
  clean_of_chars (List.all_eq_true.mp h)

/-- What is left of a character of a string. -/
def leftInString (c : Char) : Char := if isLayoutChar c then ' ' else c

/-- In a string every character is kept or becomes a space, and the string goes on up to its closing
    quote. -/
theorem blankFrom_string {body : List Char} (htext : StringText body) :
    blankFrom .string body = body.map leftInString ∧ Region.after .string body = .string := by
  have blanked {r : Region} (hr : r = .string ∨ r = .escape) (c : Char) :
      r.blanked c = [leftInString c] := by
    rcases hr with rfl | rfl <;> simp only [Region.blanked, leftInString] <;> split <;> rfl
  induction htext with
  | nil => exact ⟨rfl, rfl⟩
  | @escape d cs _ ih =>
    have hstep : Region.step .string '\\' = .escape := by decide
    refine ⟨?_, ?_⟩
    · rw [blankFrom_cons, blankFrom_cons, hstep, blanked (.inl rfl), blanked (.inr rfl)]
      exact congrArg (leftInString '\\' :: leftInString d :: ·) ih.1
    · rw [Region.after, List.foldl_cons, List.foldl_cons, hstep]
      exact ih.2
  | @plain c cs hq hb _ ih =>
    have hstep : Region.step .string c = .string := by simp [Region.step, hq, hb]
    refine ⟨?_, ?_⟩
    · rw [blankFrom_cons, hstep, blanked (.inl rfl), ih.1]
      rfl
    · rw [Region.after, List.foldl_cons, hstep]
      exact ih.2

/-- So it is with the quotes around it, and behind them code goes on. -/
theorem blankText_string {body : List Char} (htext : StringText body) :
    blankText ('"' :: (body ++ ['"'])) = '"' :: (body.map leftInString ++ ['"']) ∧
      Region.after .code ('"' :: (body ++ ['"'])) = .code := by
  obtain ⟨hblank, hafter⟩ := blankFrom_string htext
  have hopen : Region.step .code '"' = .string := by decide
  refine ⟨?_, ?_⟩
  · rw [blankText, blankFrom_cons, hopen, blankFrom_append, hblank, hafter]
    rfl
  · rw [Region.after, List.foldl_cons, hopen, List.foldl_append]
    exact congrArg (Region.after · ['"']) hafter

/-- A string without layout characters stays as it is. -/
theorem clean_of_string {body : List Char} (htext : StringText body)
    (h : ∀ ch ∈ body, isLayoutChar ch = false) : Clean ('"' :: (body ++ ['"'])) := by
  obtain ⟨hblank, hafter⟩ := blankText_string htext
  have hkept : body.map leftInString = body.map id :=
    List.map_congr_left fun ch hch => by simp [leftInString, h ch hch]
  exact ⟨by rw [← blankText, hblank, hkept, List.map_id], hafter⟩

end CallByNeed
