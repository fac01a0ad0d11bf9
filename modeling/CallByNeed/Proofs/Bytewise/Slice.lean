/-
  File:      CallByNeed/Proofs/Bytewise/Slice.lean
  Subject:   A text by its bytes, and the pieces that can be cut out of it.

  A text that is kept as bytes can be scanned at any offset, but a piece of it is a text only if
  both its ends lie between two characters. Every byte of a character beyond ASCII is 128 or more, so a
  scan for ASCII bytes stops where the scan for the characters stops.

  * `utf8`, `splitBytes?`, `slice?` -- the bytes of a text, and its pieces by offsets;
  * `encode_cases` -- one byte below 128, or bytes that are all 128 or more;
  * `onByte`, `takeWhile_utf8` -- a class of ASCII characters, scanned byte by byte;
  * `quoteEnd` -- the end of a string, byte by byte.
-/
import CallByNeed.Proofs.Parser.Token

namespace CallByNeed

/-! ## 1. Bytes and pieces -/

/-- The bytes of a text. -/
def utf8 (cs : List Char) : List UInt8 := cs.flatMap String.utf8EncodeChar

@[simp] theorem utf8_nil : utf8 [] = [] := rfl

@[simp] theorem utf8_cons (c : Char) (cs : List Char) :
    utf8 (c :: cs) = String.utf8EncodeChar c ++ utf8 cs := rfl

@[simp] theorem utf8_append (cs ds : List Char) : utf8 (cs ++ ds) = utf8 cs ++ utf8 ds :=
  List.flatMap_append

@[simp] theorem length_utf8 (cs : List Char) : (utf8 cs).length = byteCount cs := by
  induction cs with
  | nil => rfl
  | cons c cs ih =>
    rw [utf8_cons, List.length_append, String.length_utf8EncodeChar, ih, byteCount_cons]

/-- A text has no more characters than bytes. -/
theorem length_le_byteCount (cs : List Char) : cs.length ≤ byteCount cs := by
  induction cs with
  | nil => exact Nat.le_refl 0
  | cons c cs ih =>
    have hpos := c.utf8Size_pos
    rw [List.length_cons, byteCount_cons]
    omega

theorem byteCount_eq_zero {cs : List Char} (h : byteCount cs = 0) : cs = [] := by
  have hle := length_le_byteCount cs
  exact List.length_eq_zero_iff.mp (by omega)

/-- Splits a text behind its first `n` bytes, unless that lies inside a character or beyond the
    end. -/
def splitBytes? : Nat → List Char → Option (List Char × List Char)
  | 0, cs => some ([], cs)
  | _ + 1, [] => none
  | n + 1, c :: cs =>
    if c.utf8Size ≤ n + 1 then
      (splitBytes? (n + 1 - c.utf8Size) cs).map fun (front, back) => (c :: front, back)
    else none

/-- The piece of a text between two offsets, if both lie between two characters. -/
def slice? (cs : List Char) (start stop : Nat) : Option (List Char) :=
  if start ≤ stop then do
    let (_, back) ← splitBytes? start cs
    let (piece, _) ← splitBytes? (stop - start) back
    return piece
  else none

/-- A text can be split between any two characters. -/
theorem splitBytes?_append (front back : List Char) :
    splitBytes? (byteCount front) (front ++ back) = some (front, back) := by
  induction front with
  | nil => cases back <;> rfl
  | cons c front ih =>
    have hpos := c.utf8Size_pos
    obtain ⟨n, hn⟩ : ∃ n, byteCount (c :: front) = n + 1 := ⟨byteCount (c :: front) - 1, by
      rw [byteCount_cons]
      omega⟩
    have hrest : n + 1 - c.utf8Size = byteCount front := by
      rw [← hn, byteCount_cons]
      omega
    rw [hn, List.cons_append, splitBytes?, hrest, ih]
    refine if_pos ?_
    rw [← hn, byteCount_cons]
    omega

theorem slice?_append (front piece back : List Char) :
    slice? (front ++ (piece ++ back)) (byteCount front) (byteCount front + byteCount piece) =
      some piece := by
  rw [slice?, if_pos (Nat.le_add_right _ _), splitBytes?_append, Nat.add_sub_cancel_left]
  simp [splitBytes?_append]

/-- What is split off begins the text and has as many bytes as asked for. -/
theorem eq_append_of_split {n : Nat} {cs front back : List Char}
    (h : splitBytes? n cs = some (front, back)) : cs = front ++ back ∧ byteCount front = n := by
  fun_induction splitBytes? n cs generalizing front back with
  | case1 cs => cases h; exact ⟨rfl, rfl⟩
  | case2 => cases h
  | case3 n c cs hle ih =>
    obtain ⟨⟨front', back'⟩, hsplit, hmap⟩ := Option.map_eq_some_iff.mp h
    obtain ⟨rfl, rfl⟩ := Prod.mk.inj hmap
    obtain ⟨rfl, hcount⟩ := ih hsplit
    refine ⟨rfl, ?_⟩
    rw [byteCount_cons, hcount]
    omega
  | case4 => cases h

/-- A piece reaches from one offset to the other, inside the text. -/
theorem byteCount_of_slice {cs piece : List Char} {start stop : Nat}
    (h : slice? cs start stop = some piece) :
    start + byteCount piece = stop ∧ stop ≤ byteCount cs := by
  rw [slice?] at h
  split at h
  · obtain ⟨⟨front, back⟩, hfront, h⟩ := Option.bind_eq_some_iff.mp h
    obtain ⟨⟨piece', rest⟩, hpiece, h⟩ := Option.bind_eq_some_iff.mp h
    obtain rfl : piece' = piece := Option.some.inj h
    obtain ⟨rfl, hstart⟩ := eq_append_of_split hfront
    obtain ⟨hback, hstop⟩ := eq_append_of_split hpiece
    obtain rfl : back = piece' ++ rest := hback
    rw [byteCount_append, byteCount_append]
    omega
  · cases h

/-! ## 2. Bytes of characters -/

/-- The byte of an ASCII character. -/
def byteOf (c : Char) : UInt8 := c.val.toUInt8

/-- The ASCII character of a byte. -/
def charOf (b : UInt8) : Char := Char.ofNat b.toNat

theorem charOf_byteOf {c : Char} (h : c.utf8Size = 1) : charOf (byteOf c) = c := by
  have hle : c.val.toNat ≤ 127 := Char.utf8Size_eq_one_iff.mp h
  have hbyte : (byteOf c).toNat = c.toNat := by
    show c.val.toNat % 256 = c.val.toNat
    omega
  rw [charOf, hbyte, Char.ofNat_toNat]

/-- **One byte below 128, or bytes that are all 128 or more.** -/
theorem encode_cases (c : Char) :
    (c.utf8Size = 1 ∧ String.utf8EncodeChar c = [byteOf c] ∧ byteOf c < 128) ∨
      (c.utf8Size ≠ 1 ∧ ∀ b ∈ String.utf8EncodeChar c, 128 ≤ b) := by
  by_cases h : c.utf8Size = 1
  · have hle : c.val.toNat ≤ 127 := Char.utf8Size_eq_one_iff.mp h
    refine .inl ⟨h, String.utf8EncodeChar_eq_singleton h, ?_⟩
    show c.val.toNat % 256 < 128
    omega
  · have hgt : ¬ c.val.toNat ≤ 127 := fun hle => h (Char.utf8Size_eq_one_iff.mpr hle)
    refine .inr ⟨h, fun b hb => ?_⟩
    have high (v : Nat) (hlow : 128 ≤ v) (hhigh : v < 256) : 128 ≤ UInt8.ofNat v := by
      show 128 ≤ v % 256
      omega
    unfold String.utf8EncodeChar at hb
    rw [if_neg hgt] at hb
    split at hb
    · simp only [List.mem_cons, List.not_mem_nil, or_false] at hb
      rcases hb with rfl | rfl <;> exact high _ (by omega) (by omega)
    split at hb
    · simp only [List.mem_cons, List.not_mem_nil, or_false] at hb
      rcases hb with rfl | rfl | rfl <;> exact high _ (by omega) (by omega)
    · simp only [List.mem_cons, List.not_mem_nil, or_false] at hb
      rcases hb with rfl | rfl | rfl | rfl <;> exact high _ (by omega) (by omega)

/-- Behind the first byte of a character there are only bytes of 128 or more. -/
theorem encode_cons (c : Char) :
    ∃ b bs, String.utf8EncodeChar c = b :: bs ∧ bs.length + 1 = c.utf8Size ∧ ∀ d ∈ bs, 128 ≤ d := by
  obtain ⟨b, bs, hbs⟩ := List.exists_cons_of_ne_nil (String.utf8EncodeChar_ne_nil (c := c))
  refine ⟨b, bs, hbs, by rw [← String.length_utf8EncodeChar, hbs, List.length_cons], ?_⟩
  rcases encode_cases c with ⟨_, henc, _⟩ | ⟨_, hhigh⟩
  · rw [hbs, List.cons.injEq] at henc
    rw [henc.2]
    simp
  · rw [hbs] at hhigh
    exact fun d hd => hhigh d (by simp [hd])

/-- A byte of 128 or more is no ASCII character. -/
theorem byteOf_ne_of_high {b : UInt8} {ch : Char} (hb : 128 ≤ b) (hch : ch.utf8Size = 1) :
    b ≠ byteOf ch := by
  intro he
  rcases encode_cases ch with ⟨_, _, hlow⟩ | ⟨hne, _⟩
  · rw [← he, UInt8.lt_iff_toNat_lt] at hlow
    rw [UInt8.le_iff_toNat_le] at hb
    omega
  · exact hne hch

theorem byteOf_inj {c d : Char} (hc : c.utf8Size = 1) (hd : d.utf8Size = 1) :
    byteOf c = byteOf d ↔ c = d :=
  ⟨fun h => by rw [← charOf_byteOf hc, h, charOf_byteOf hd], fun h => by rw [h]⟩

/-- The first byte of a text tells whether it begins with an ASCII character. -/
theorem head?_utf8 {ch : Char} (hch : ch.utf8Size = 1) (cs : List Char) :
    (utf8 cs).head? = some (byteOf ch) ↔ cs.head? = some ch := by
  cases cs with
  | nil => simp
  | cons c cs =>
    rw [utf8_cons, List.head?_cons, Option.some.injEq]
    rcases encode_cases c with ⟨hc, henc, _⟩ | ⟨hc, hhigh⟩
    · rw [henc, List.singleton_append, List.head?_cons, Option.some.injEq, byteOf_inj hc hch]
    · obtain ⟨b, bs, hbs⟩ := List.exists_cons_of_ne_nil (String.utf8EncodeChar_ne_nil (c := c))
      rw [hbs] at hhigh ⊢
      rw [List.cons_append, List.head?_cons, Option.some.injEq]
      constructor
      · intro he
        exact absurd he (byteOf_ne_of_high (hhigh b (by simp)) hch)
      · intro he
        exact absurd (he ▸ hch) hc

/-! ## 3. Classes of characters -/

/-- A class of characters, asked of a byte. -/
def onByte (p : Char → Bool) (b : UInt8) : Bool := decide (b < 128) && p (charOf b)

/-- A class of ASCII characters. -/
def AsciiOnly (p : Char → Bool) : Prop := ∀ c, p c = true → c.utf8Size = 1

theorem onByte_byteOf {p : Char → Bool} {c : Char} (h : c.utf8Size = 1) :
    onByte p (byteOf c) = p c := by
  rcases encode_cases c with ⟨_, _, hlow⟩ | ⟨hne, _⟩
  · rw [onByte, charOf_byteOf h, decide_eq_true hlow, Bool.true_and]
  · exact absurd h hne

theorem onByte_of_high {p : Char → Bool} {b : UInt8} (h : 128 ≤ b) : onByte p b = false := by
  have hnot : ¬ b < 128 := fun hlt => by
    rw [UInt8.lt_iff_toNat_lt] at hlt
    rw [UInt8.le_iff_toNat_le] at h
    omega
  rw [onByte, decide_eq_false hnot, Bool.false_and]

theorem asciiOnly_operator : AsciiOnly isOperatorChar := by
  intro c hc
  have hall : (operatorAlphabet.all fun d => d.utf8Size == 1) = true := by decide
  exact beq_iff_eq.mp (List.all_eq_true.mp hall c (List.contains_iff_mem.mp hc))

theorem asciiOnly_name : AsciiOnly isNameChar := by
  intro c hc
  rw [Char.utf8Size_eq_one_iff]
  have hranges : (decide (65 ≤ c.val ∧ c.val ≤ 90) || (decide (97 ≤ c.val) && decide (c.val ≤ 122)) ||
      (decide (48 ≤ c.val) && decide (c.val ≤ 57)) || c == '_') = true := hc
  simp only [Bool.or_eq_true, Bool.and_eq_true, decide_eq_true_eq, beq_iff_eq] at hranges
  rcases hranges with ((⟨_, h⟩ | ⟨_, h⟩) | ⟨_, h⟩) | rfl
  · exact UInt32.le_trans h (by decide)
  · exact UInt32.le_trans h (by decide)
  · exact UInt32.le_trans h (by decide)
  · decide

theorem asciiOnly_digit : AsciiOnly Char.isDigit := fun c hc =>
  asciiOnly_name c (isNameChar_of_isDigit hc)

theorem asciiOnly_space : AsciiOnly (· == ' ') := by
  intro c hc
  rw [beq_iff_eq.mp hc]
  rfl

/-- **Bytes of a class end where its characters end.** -/
theorem takeWhile_utf8 {p : Char → Bool} (hp : AsciiOnly p) (cs : List Char) :
    (utf8 cs).takeWhile (onByte p) = utf8 (cs.takeWhile p) := by
  induction cs with
  | nil => rfl
  | cons c cs ih =>
    rcases encode_cases c with ⟨hc, henc, _⟩ | ⟨hc, hhigh⟩
    · rw [utf8_cons, henc, List.singleton_append, List.takeWhile_cons, onByte_byteOf hc, ih,
        List.takeWhile_cons]
      cases p c with
      | false => rfl
      | true => simp [henc]
    · have hnot : p c = false := Bool.eq_false_iff.mpr fun h => hc (hp c h)
      obtain ⟨b, bs, hbs⟩ := List.exists_cons_of_ne_nil (String.utf8EncodeChar_ne_nil (c := c))
      rw [hbs] at hhigh
      rw [utf8_cons, hbs, List.cons_append, List.takeWhile_cons,
        onByte_of_high (hhigh b (by simp)), List.takeWhile_cons, hnot]
      rfl

/-! ## 4. The end of a string -/

/-- Bytes up to the closing quote, from behind the opening one, or up to the end. A backslash takes
    one more byte along. -/
def quoteEnd : List UInt8 → Nat
  | [] => 0
  | [b] => if b = byteOf '"' then 0 else 1
  | b :: d :: bs =>
    if b = byteOf '"' then 0
    else if b = byteOf '\\' then 2 + quoteEnd bs
    else 1 + quoteEnd (d :: bs)

theorem quoteEnd_quote (bs : List UInt8) : quoteEnd (byteOf '"' :: bs) = 0 := by
  cases bs <;> simp [quoteEnd]

theorem quoteEnd_escape (d : UInt8) (bs : List UInt8) :
    quoteEnd (byteOf '\\' :: d :: bs) = 2 + quoteEnd bs := by
  have hne : byteOf '\\' ≠ byteOf '"' := by decide
  rw [quoteEnd, if_neg hne, if_pos rfl]

theorem quoteEnd_plain {b : UInt8} (hq : b ≠ byteOf '"') (hb : b ≠ byteOf '\\') (bs : List UInt8) :
    quoteEnd (b :: bs) = 1 + quoteEnd bs := by
  cases bs with
  | nil => simp [quoteEnd, hq]
  | cons d bs => rw [quoteEnd, if_neg hq, if_neg hb]

theorem quoteEnd_high {hs : List UInt8} (h : ∀ b ∈ hs, 128 ≤ b) (bs : List UInt8) :
    quoteEnd (hs ++ bs) = hs.length + quoteEnd bs := by
  induction hs with
  | nil => simp
  | cons b hs ih =>
    have hb := h b (by simp)
    rw [List.cons_append, quoteEnd_plain (byteOf_ne_of_high hb rfl) (byteOf_ne_of_high hb rfl),
      ih fun b' hb' => h b' (by simp [hb']), List.length_cons]
    omega

/-- A character that is neither a quote nor a backslash. -/
theorem quoteEnd_char {c : Char} (hq : c ≠ '"') (hb : c ≠ '\\') (bs : List UInt8) :
    quoteEnd (String.utf8EncodeChar c ++ bs) = c.utf8Size + quoteEnd bs := by
  rcases encode_cases c with ⟨hc, henc, _⟩ | ⟨_, hhigh⟩
  · have hq' : byteOf c ≠ byteOf '"' := fun he => hq ((byteOf_inj hc rfl).mp he)
    have hb' : byteOf c ≠ byteOf '\\' := fun he => hb ((byteOf_inj hc rfl).mp he)
    rw [henc, List.singleton_append, quoteEnd_plain hq' hb', hc]
  · rw [quoteEnd_high hhigh, String.length_utf8EncodeChar]

/-- A backslash takes one byte along; of a longer character the other bytes are 128 or more. -/
theorem quoteEnd_escaped (c : Char) (bs : List UInt8) :
    quoteEnd (byteOf '\\' :: (String.utf8EncodeChar c ++ bs)) = 1 + c.utf8Size + quoteEnd bs := by
  obtain ⟨b, hs, hbs, hlength, hhigh⟩ := encode_cons c
  rw [hbs, List.cons_append, quoteEnd_escape, quoteEnd_high hhigh]
  omega

/-- **A string that is closed ends, byte by byte, where it ends character by character.** -/
theorem quoteEnd_text {body : List Char} (h : StringText body) (bs : List UInt8) :
    quoteEnd (utf8 body ++ byteOf '"' :: bs) = byteCount body := by
  induction h with
  | nil => exact quoteEnd_quote bs
  | escape d h ih =>
    have hbackslash : String.utf8EncodeChar '\\' = [byteOf '\\'] := rfl
    rw [utf8_cons, utf8_cons, hbackslash, List.singleton_append, List.cons_append,
      List.append_assoc, quoteEnd_escaped, ih, byteCount_cons, byteCount_cons]
    have one : '\\'.utf8Size = 1 := rfl
    omega
  | plain hq hb h ih =>
    rw [utf8_cons, List.append_assoc, quoteEnd_char hq hb, ih, byteCount_cons]

/-- **A string that is not closed goes on to the end of the text.** -/
theorem quoteEnd_open {done cs : List Char} {o : Int} {stop : Cursor}
    (h : Cursor.stringBodyFrom done o cs = .error stop) :
    quoteEnd (utf8 cs) = byteCount cs ∧ stop = ⟨[], o + byteCount cs⟩ := by
  fun_induction Cursor.stringBodyFrom done o cs with
  | case1 => exact ⟨rfl, by simpa using (Except.error.inj h).symm⟩
  | case2 => cases h
  | case3 done o c hq =>
    obtain rfl := (Except.error.inj h).symm
    refine ⟨?_, by simp⟩
    by_cases hb : c = '\\'
    · rw [hb]
      rfl
    · rw [utf8_cons, quoteEnd_char hq hb]
      rfl
  | case4 => cases h
  | case5 done o d rest hq ih =>
    obtain ⟨hend, hstop⟩ := ih h
    have hbackslash : String.utf8EncodeChar '\\' = [byteOf '\\'] := rfl
    have one : '\\'.utf8Size = 1 := rfl
    rw [utf8_cons, utf8_cons, hbackslash, List.singleton_append, quoteEnd_escaped, hend, hstop,
      byteCount_cons, byteCount_cons, one]
    refine ⟨by omega, ?_⟩
    rw [Cursor.mk.injEq]
    exact ⟨rfl, by omega⟩
  | case6 done o c d rest hq hb ih =>
    obtain ⟨hend, hstop⟩ := ih h
    rw [utf8_cons, quoteEnd_char hq hb, hend, hstop, byteCount_cons c]
    refine ⟨rfl, ?_⟩
    rw [Cursor.mk.injEq]
    exact ⟨rfl, by omega⟩

end CallByNeed
