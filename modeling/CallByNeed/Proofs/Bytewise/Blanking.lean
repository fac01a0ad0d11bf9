/-
  File:      CallByNeed/Proofs/Bytewise/Blanking.lean
  Subject:   Offsets survive the blanking, and both scans see the same strings.

  The blanking goes over the characters of a program and knows comments; the scan for partners goes
  over the bytes of what is left and knows none. A scan marks each byte with whether it is inside a
  string when it comes to it. The marks are carried over in two steps: from the bytes to the
  characters of the blanked text, and from there to the characters of the program.

  * `Region.blanked_cases`, `slice?_char` -- each character is kept or blanked, at its own offset;
  * `blankFrom_shown`, `blankText_idempotent` -- blanked text stays as it is;
  * `marks`, `stringMarks` -- whether a scan is inside, byte for byte;
  * `inString_of_hash` -- a `#` that is left is inside a string;
  * `tracedScan`, `tracedScan_verdict` -- the scan for partners with what it marks on its way;
  * `byteMarks_utf8`, `nestingMarks_blankFrom` -- the two steps;
  * `blanking_keeps_offsets` -- all of it, for whole programs under any definitions.
-/
import CallByNeed.Proofs.Bytewise.Agreement

namespace CallByNeed

/-! ## 1. What is left of a character -/

/-- Outside comments one character is left, of the same size. -/
theorem Region.blanked_eq_singleton {r : Region} (hr : r ≠ .comment) (c : Char) :
    ∃ d, r.blanked c = [d] ∧ (d = c ∨ d = ' ') ∧ d.utf8Size = c.utf8Size := by
  have hsize := byteCount_blanked r c
  have hleft : r.blanked c = [c] ∨ r.blanked c = [' '] := by
    cases r <;> simp only [Region.blanked]
    case comment => exact absurd rfl hr
    all_goals
      split
      · exact .inr rfl
      · exact .inl rfl
  rcases hleft with h | h
  · exact ⟨c, h, .inl rfl, rfl⟩
  · rw [h] at hsize
    exact ⟨' ', h, .inr rfl, hsize⟩

/-- A character is kept, or there are as many spaces as it has bytes. -/
theorem Region.blanked_cases (r : Region) (c : Char) :
    r.blanked c = [c] ∨ r.blanked c = List.replicate c.utf8Size ' ' := by
  by_cases hr : r = .comment
  · subst hr
    exact .inr rfl
  · obtain ⟨d, h, rfl | rfl, hsize⟩ := r.blanked_eq_singleton hr c
    · exact .inl h
    · rw [h, ← hsize]
      exact .inr rfl

/-- In the prepared text it stands where the character stood. -/
theorem slice?_char (front : List Char) (c : Char) (back : List Char) (defs : List Definition) :
    slice? (prepare (front ++ c :: back) defs).text
        ((prepare (front ++ c :: back) defs).offset + byteCount front)
        ((prepare (front ++ c :: back) defs).offset + byteCount front + c.utf8Size) =
      some ((Region.after .code front).blanked c) := by
  have htext : (prepare (front ++ c :: back) defs).text =
      (blankText (opening defs) ++ blankText front) ++ ((Region.after .code front).blanked c ++
        (blankFrom ((Region.after .code front).step c) back ++ blankText (closing defs))) := by
    simp only [Prepared.text, prepare, blankText, blankFrom_append, blankFrom_cons,
      List.append_assoc]
  have hstart : (prepare (front ++ c :: back) defs).offset + byteCount front =
      byteCount (blankText (opening defs) ++ blankText front) := by
    rw [byteCount_append, blankText, blankText, byteCount_blankFrom, byteCount_blankFrom,
      Prepared.offset, prepare, blankText, byteCount_blankFrom]
  rw [htext, hstart, ← byteCount_blanked (Region.after .code front) c]
  exact slice?_append _ _ _

/-! ## 2. Blanked text stays as it is -/

/-- The region in blanked text: where a comment was, there is code. -/
def Region.shown : Region → Region
  | .comment => .code
  | r => r

/-- What is left of a character stays as it is, and leads where the character led. -/
theorem Region.blanked_shown (r : Region) (c : Char) :
    blankFrom r.shown (r.blanked c) = r.blanked c ∧
      r.shown.after (r.blanked c) = (r.step c).shown := by
  cases r with
  | comment =>
    have hclean : Clean (List.replicate c.utf8Size ' ') := by
      refine clean_of_chars fun ch hch => ?_
      rw [List.eq_of_mem_replicate hch]
      decide
    refine ⟨hclean.1, hclean.2.trans ?_⟩
    simp only [Region.step]
    split <;> rfl
  | code =>
    by_cases hhash : c = '#'
    · subst hhash; decide
    by_cases hquote : c = '"'
    · subst hquote; decide
    by_cases hlayout : isLayoutChar c = true <;>
      simp [Region.shown, Region.blanked, Region.after, Region.step, hhash, hquote, hlayout]
  | string =>
    by_cases hslash : c = '\\'
    · subst hslash; decide
    by_cases hquote : c = '"'
    · subst hquote; decide
    by_cases hlayout : isLayoutChar c = true <;>
      simp [Region.shown, Region.blanked, Region.after, Region.step, hslash, hquote, hlayout]
  | escape =>
    by_cases hlayout : isLayoutChar c = true <;>
      simp [Region.shown, Region.blanked, Region.after, Region.step, hlayout]

theorem blankFrom_shown (r : Region) (cs : List Char) :
    blankFrom r.shown (blankFrom r cs) = blankFrom r cs := by
  induction cs generalizing r with
  | nil => rfl
  | cons c cs ih =>
    obtain ⟨hblanked, hafter⟩ := r.blanked_shown c
    rw [blankFrom_cons, blankFrom_append, hblanked, hafter, ih]

theorem blankText_idempotent (cs : List Char) : blankText (blankText cs) = blankText cs :=
  blankFrom_shown .code cs

/-! ## 3. Marks -/

/-- The blanking is inside a string, behind a backslash too. -/
def Region.inString : Region → Bool
  | .code | .comment => false
  | .string | .escape => true

/-- The scan for partners is inside a string, behind a backslash too. -/
def Nesting.inString : Nesting → Bool
  | .code => false
  | .string | .escape => true

section Marks

variable {σ α : Type} (size : α → Nat) (inside : σ → Bool) (step : σ → α → σ)

/-- For each byte that a scan goes over, whether the scan is inside when it comes to the symbol of
    that byte. -/
def marks : σ → List α → List Bool
  | _, [] => []
  | s, a :: as => List.replicate (size a) (inside s) ++ marks (step s a) as

theorem marks_append (s : σ) (as bs : List α) :
    marks size inside step s (as ++ bs) =
      marks size inside step s as ++ marks size inside step (as.foldl step s) bs := by
  induction as generalizing s with
  | nil => rfl
  | cons a as ih => rw [List.cons_append, marks, marks, ih, List.append_assoc, List.foldl_cons]

end Marks

/-- Which bytes of a program the blanking takes for the inside of a string. -/
def stringMarks (r : Region) (cs : List Char) : List Bool :=
  marks Char.utf8Size Region.inString Region.step r cs

/-- The same for a scan of blanked text, character by character. -/
def nestingMarks (n : Nesting) (cs : List Char) : List Bool :=
  marks Char.utf8Size Nesting.inString Nesting.step n cs

theorem Region.inString_nesting (r : Region) : r.nesting.inString = r.inString := by
  cases r <;> rfl

theorem stringMarks_cons (r : Region) (c : Char) (cs : List Char) :
    stringMarks r (c :: cs) = List.replicate c.utf8Size r.inString ++ stringMarks (r.step c) cs := rfl

/-- A `#` is left only of itself, inside a string. -/
theorem Region.inString_of_mem_blanked {r : Region} {c : Char} (h : '#' ∈ r.blanked c) :
    c = '#' ∧ r.blanked c = ['#'] ∧ r.inString = true := by
  have hkept : r.blanked c = [c] := by
    rcases r.blanked_cases c with hkept | hspaces
    · exact hkept
    · rw [hspaces] at h
      exact absurd (List.eq_of_mem_replicate h) (by decide)
  obtain rfl : '#' = c := List.mem_singleton.mp (hkept ▸ h)
  refine ⟨rfl, hkept, ?_⟩
  cases r <;> first | rfl | exact absurd hkept (by decide)

/-- **A `#` that is left is inside a string.** -/
theorem inString_of_hash {r : Region} {cs front back : List Char}
    (h : blankFrom r cs = front ++ '#' :: back) :
    (stringMarks r cs)[byteCount front]? = some true := by
  induction cs generalizing r front with
  | nil => simp at h
  | cons c cs ih =>
    rw [blankFrom_cons] at h
    rw [stringMarks_cons]
    have later (front' : List Char) (hfront : front = r.blanked c ++ front')
        (hrest : blankFrom (r.step c) cs = front' ++ '#' :: back) :
        (List.replicate c.utf8Size r.inString ++ stringMarks (r.step c) cs)[byteCount front]? =
          some true := by
      have hsize : byteCount front = c.utf8Size + byteCount front' := by
        rw [hfront, byteCount_append, byteCount_blanked]
      rw [hsize, List.getElem?_append_right (by simp), List.length_replicate,
        Nat.add_sub_cancel_left]
      exact ih hrest
    -- the `#` stands behind what is left of the first character, or it is the first character
    rcases List.append_eq_append_iff.mp h with ⟨front', hfront, hrest⟩ | ⟨piece, hblanked, hback⟩
    · exact later front' hfront hrest
    · cases piece with
      | nil => exact later [] (by simpa using hblanked.symm) (by simpa using hback.symm)
      | cons d piece =>
        obtain ⟨rfl, -⟩ := List.cons.inj hback
        obtain ⟨rfl, hkept, hinside⟩ :=
          Region.inString_of_mem_blanked (r := r) (c := c) (by simp [hblanked])
        rw [hkept] at hblanked
        cases front with
        | nil => rw [hinside]; rfl
        | cons e front => simp at hblanked

/-! ## 4. The scan for partners, and what it marks -/

/-- Where a scan of bytes stands behind a byte. -/
def Nesting.byte : Nesting → UInt8 → Nesting
  | .code, b => if b = byteOf '"' then .string else .code
  | .string, b => if b = byteOf '\\' then .escape else if b = byteOf '"' then .code else .string
  | .escape, _ => .string

/-- The parentheses that are open behind a byte, unless it closes one and there is none. -/
def openBehind? (n : Nesting) (depth : Nat) (b : UInt8) : Option Nat :=
  if n ≠ .code then some depth
  else if b = byteOf '(' then some (depth + 1)
  else if b = byteOf ')' then (if depth = 0 then none else some (depth - 1))
  else some depth

/-- The scan for partners, with the marks of the bytes up to where it stops. -/
def tracedScan : Nesting → (depth offset : Nat) → List UInt8 → List Bool × Option Imbalance
  | n, depth, offset, [] => ([], imbalanceBytes n depth offset [])
  | n, depth, offset, b :: bs =>
    match openBehind? n depth b with
    | none => ([], some (.close offset))
    | some depth =>
      let (inside, verdict) := tracedScan (n.byte b) depth (offset + 1) bs
      (n.inString :: inside, verdict)

/-- The bytes that are marked if the scan does not stop. -/
def byteMarks (n : Nesting) (bs : List UInt8) : List Bool :=
  marks (fun _ => 1) Nesting.inString Nesting.byte n bs

section Traced

variable {n : Nesting} {d o : Nat} {b : UInt8} {bs : List UInt8}

/-- The scan goes on behind a byte, or stops at it. -/
theorem imbalanceBytes_cons :
    imbalanceBytes n d o (b :: bs) =
      (openBehind? n d b).elim (some (.close o))
        fun depth => imbalanceBytes (n.byte b) depth (o + 1) bs := by
  cases n with
  | code =>
    by_cases hquote : b = byteOf '"'
    · subst hquote
      cases d <;> rfl
    by_cases hopen : b = byteOf '('
    · subst hopen
      cases d <;> rfl
    by_cases hclose : b = byteOf ')'
    · subst hclose
      cases d <;> rfl
    · cases d <;> simp [imbalanceBytes, openBehind?, Nesting.byte, hquote, hopen, hclose]
  | string =>
    simp only [imbalanceBytes, openBehind?, Nesting.byte]
    split
    · rfl
    · split <;> rfl
  | escape => rfl

theorem tracedScan_verdict : (tracedScan n d o bs).2 = imbalanceBytes n d o bs := by
  induction bs generalizing n d o with
  | nil => rfl
  | cons b bs ih =>
    rw [imbalanceBytes_cons, tracedScan]
    cases openBehind? n d b with
    | none => rfl
    | some depth => exact ih

theorem tracedScan_marks : (tracedScan n d o bs).1 <+: byteMarks n bs := by
  induction bs generalizing n d o with
  | nil => exact List.nil_prefix
  | cons b bs ih =>
    rw [tracedScan]
    cases openBehind? n d b with
    | none => exact List.nil_prefix
    | some depth => exact List.cons_prefix_cons.mpr ⟨rfl, ih⟩

/-- A scan that stops has marked the bytes in front of where it stops. -/
theorem tracedScan_close {k : Nat} (h : (tracedScan n d o bs).2 = some (.close k)) :
    k = o + (tracedScan n d o bs).1.length := by
  induction bs generalizing n d o with
  | nil => cases n <;> cases d <;> cases h
  | cons b bs ih =>
    rw [tracedScan] at h ⊢
    cases hopen : openBehind? n d b with
    | none =>
      rw [hopen] at h
      cases h
      rfl
    | some depth =>
      rw [hopen] at h
      have := ih h
      simp only [List.length_cons]
      omega

/-- A scan that does not stop has marked all bytes. -/
theorem tracedScan_all (h : ∀ k, (tracedScan n d o bs).2 ≠ some (.close k)) :
    (tracedScan n d o bs).1.length = bs.length := by
  induction bs generalizing n d o with
  | nil => rfl
  | cons b bs ih =>
    rw [tracedScan] at h ⊢
    cases hopen : openBehind? n d b with
    | none =>
      rw [hopen] at h
      exact absurd rfl (h o)
    | some depth =>
      rw [hopen] at h
      simp only [List.length_cons, ih h]

end Traced

/-! ## 5. From bytes to characters, and on to the program -/

section Carry

variable {n : Nesting} {b : UInt8} {us : List UInt8}

/-- A byte of 128 or more ends an escape, and does nothing else. -/
theorem Nesting.byte_of_high (h : 128 ≤ b) : n.byte b = if n = .escape then .string else n := by
  cases n with
  | code => exact if_neg (byteOf_ne_of_high h rfl)
  | string => exact (if_neg (byteOf_ne_of_high h rfl)).trans (if_neg (byteOf_ne_of_high h rfl))
  | escape => rfl

theorem foldl_byte_of_high (hn : n ≠ .escape) (h : ∀ b ∈ us, 128 ≤ b) :
    us.foldl Nesting.byte n = n := by
  induction us with
  | nil => rfl
  | cons b us ih =>
    rw [List.foldl_cons, Nesting.byte_of_high (h b List.mem_cons_self), if_neg hn]
    exact ih fun b' hb' => h b' (List.mem_cons_of_mem _ hb')

theorem byteMarks_of_high (h : ∀ b ∈ us, 128 ≤ b) :
    byteMarks n us = List.replicate us.length n.inString := by
  induction us generalizing n with
  | nil => rfl
  | cons b us ih =>
    have hsame : (n.byte b).inString = n.inString := by
      rw [Nesting.byte_of_high (h b List.mem_cons_self)]
      cases n <;> rfl
    have hrest := ih (n := n.byte b) fun b' hb' => h b' (List.mem_cons_of_mem _ hb')
    rw [hsame] at hrest
    exact congrArg (n.inString :: ·) hrest

/-- **The bytes of a character lead where the character leads**, behind a backslash too. -/
theorem foldl_byte_encode (n : Nesting) (c : Char) :
    (String.utf8EncodeChar c).foldl Nesting.byte n = n.step c := by
  rcases encode_cases c with ⟨hsize, henc, _⟩ | ⟨hsize, hhigh⟩
  · rw [henc, List.foldl_cons, List.foldl_nil]
    have hquote : byteOf c = byteOf '"' ↔ c = '"' := byteOf_inj hsize rfl
    have hslash : byteOf c = byteOf '\\' ↔ c = '\\' := byteOf_inj hsize rfl
    cases n <;> simp only [Nesting.byte, Nesting.step, hquote, hslash]
  · obtain ⟨b, us, henc, _, hus⟩ := encode_cons c
    have hne {ch : Char} (hch : ch.utf8Size = 1) : c ≠ ch := fun he => hsize (he ▸ hch)
    have hstep : n.step c = if n = .escape then .string else n := by
      cases n with
      | code => exact if_neg (hne rfl)
      | string => exact (if_neg (hne rfl)).trans (if_neg (hne rfl))
      | escape => rfl
    rw [henc, List.foldl_cons, Nesting.byte_of_high (hhigh b (henc ▸ List.mem_cons_self)), ← hstep]
    refine foldl_byte_of_high ?_ hus
    rw [hstep]
    cases n <;> decide

theorem byteMarks_encode (n : Nesting) (c : Char) :
    byteMarks n (String.utf8EncodeChar c) = List.replicate c.utf8Size n.inString := by
  rcases encode_cases c with ⟨hsize, henc, _⟩ | ⟨_, hhigh⟩
  · rw [henc, hsize]
    rfl
  · rw [byteMarks_of_high hhigh, String.length_utf8EncodeChar]

/-- **Bytes and characters of a text are marked alike.** -/
theorem byteMarks_utf8 (n : Nesting) (cs : List Char) : byteMarks n (utf8 cs) = nestingMarks n cs := by
  induction cs generalizing n with
  | nil => rfl
  | cons c cs ih =>
    have hrest := ih (n.step c)
    have hfirst := byteMarks_encode n c
    unfold byteMarks at hfirst hrest ⊢
    rw [utf8_cons, marks_append, hfirst, foldl_byte_encode, hrest]
    rfl

theorem nestingMarks_blanked (r : Region) (c : Char) :
    nestingMarks r.nesting (r.blanked c) = List.replicate c.utf8Size r.inString := by
  by_cases hr : r = .comment
  · subst hr
    have spaces (k : Nat) : nestingMarks .code (List.replicate k ' ') = List.replicate k false := by
      induction k with
      | zero => rfl
      | succ k ih => exact congrArg (false :: ·) ih
    exact spaces _
  · obtain ⟨d, h, _, hsize⟩ := r.blanked_eq_singleton hr c
    rw [h, ← hsize, ← r.inString_nesting]
    exact List.append_nil _

/-- **The blanked text is marked like the program.** -/
theorem nestingMarks_blankFrom (r : Region) (cs : List Char) :
    nestingMarks r.nesting (blankFrom r cs) = stringMarks r cs := by
  induction cs generalizing r with
  | nil => rfl
  | cons c cs ih =>
    have hrest := ih (r.step c)
    have hfirst := nestingMarks_blanked r c
    unfold nestingMarks at hfirst hrest ⊢
    rw [blankFrom_cons, marks_append, hfirst, r.nesting_blanked, hrest, stringMarks_cons]

end Carry

/-- Where the scan for partners stops in a text. -/
def scanEnd (text : List Char) : Nat :=
  match imbalance? text with
  | some (.close offset) => offset
  | _ => byteCount text

/-- **The scan for partners and the blanking see the same strings**, up to where the scan stops. -/
theorem tracedScan_blankText (cs : List Char) :
    tracedScan .code 0 0 (utf8 (blankText cs)) =
      ((stringMarks .code cs).take (scanEnd (blankText cs)), imbalance? (blankText cs)) := by
  have hverdict : (tracedScan .code 0 0 (utf8 (blankText cs))).2 = imbalance? (blankText cs) := by
    rw [tracedScan_verdict, imbalanceBytes_utf8, imbalance?]
  have hfront : (tracedScan .code 0 0 (utf8 (blankText cs))).1 <+: stringMarks .code cs := by
    rw [← nestingMarks_blankFrom, ← blankText, ← byteMarks_utf8]
    exact tracedScan_marks
  have hlength : (tracedScan .code 0 0 (utf8 (blankText cs))).1.length = scanEnd (blankText cs) := by
    unfold scanEnd
    rw [← hverdict]
    split
    · rename_i k h
      rw [tracedScan_close h, Nat.zero_add]
    · rename_i h
      rw [tracedScan_all h, length_utf8]
  exact Prod.ext (hlength ▸ List.prefix_iff_eq_take.mp hfront) hverdict

/-- An escaped character of two bytes, a parenthesis in the string and one behind it. -/
example : tracedScan .code 0 0 (utf8 (blankText "\"\\é)\") #\"".toList)) =
    ([false, true, true, true, true, true], some (.close 6)) := by decide +kernel

/-! ## 6. Whole programs -/

/-- **Blanking keeps every offset.** Whatever the program and the definitions are:

    * the prepared text has as many bytes as the program and the definitions around it;
    * the program's part of it hangs on the program alone;
    * there, each character is kept at its own offset, or is as many spaces as it had bytes;
    * no line break or tab is left, and a `#` only inside a string;
    * prepared again without definitions, that part stays as it is;
    * the scan for partners, going over its bytes, is in a string where the blanking was in one. -/
theorem blanking_keeps_offsets (program : List Char) (defs : List Definition) :
    byteCount (prepare program defs).text =
      byteCount (opening defs ++ program ++ closing defs) ∧
    (prepare program defs).offset = byteCount (opening defs) ∧
    slice? (prepare program defs).text (prepare program defs).offset
      ((prepare program defs).offset + byteCount program) = some (blankText program) ∧
    (∀ front c back, program = front ++ c :: back →
      ∃ piece, (piece = [c] ∨ piece = List.replicate c.utf8Size ' ') ∧
        slice? (prepare program defs).text ((prepare program defs).offset + byteCount front)
          ((prepare program defs).offset + byteCount front + c.utf8Size) = some piece) ∧
    (∀ c ∈ blankText program, c ∉ ['\n', '\r', '\t', '\x0b']) ∧
    (∀ front back, blankText program = front ++ '#' :: back →
      (stringMarks .code program)[byteCount front]? = some true) ∧
    prepare (blankText program) [] = ⟨[], blankText program, []⟩ ∧
    tracedScan .code 0 0 (utf8 (blankText program)) =
      ((stringMarks .code program).take (scanEnd (blankText program)),
        imbalance? (blankText program)) := by
  have hoffset : (prepare program defs).offset = byteCount (opening defs) :=
    byteCount_blankFrom .code (opening defs)
  refine ⟨?_, hoffset, hoffset ▸ slice?_prepare program defs, ?_, fun c hc hlayout => ?_,
    fun front back => inString_of_hash, ?_, tracedScan_blankText program⟩
  · simp only [Prepared.text, prepare, blankText, byteCount_append, byteCount_blankFrom]
  · rintro front c back rfl
    exact ⟨_, Region.blanked_cases _ c, slice?_char front c back defs⟩
  · have hnot := isLayoutChar_of_mem_blankFrom hc
    simp_all [isLayoutChar]
  · rw [prepare, blankText_idempotent]
    rfl

end CallByNeed
