/-
  File:      CallByNeed/Proofs/Bytewise/Order.lean
  Subject:   Texts are ordered by their bytes as by their code points.

  * `PartsBelow` -- byte strings that part at some byte, the first one at the smaller byte; whatever
    follows, their order is settled;
  * `encode_partsBelow` -- so do the bytes of two characters, the first one with the smaller code
    point;
  * `utf8_lt_iff` -- whole texts.
-/
import CallByNeed.Proofs.Bytewise.Slice

namespace CallByNeed

/-! ## 1. Bytes that part -/

/-- Byte strings that agree up to a byte at which the first one has the smaller byte. -/
inductive PartsBelow : List UInt8 → List UInt8 → Prop where
  | here {b d : UInt8} (h : b < d) (bs ds : List UInt8) : PartsBelow (b :: bs) (d :: ds)
  | there (b : UInt8) {bs ds : List UInt8} (h : PartsBelow bs ds) : PartsBelow (b :: bs) (b :: ds)

theorem PartsBelow.lt_append {bs ds : List UInt8} (h : PartsBelow bs ds) (us vs : List UInt8) :
    bs ++ us < ds ++ vs := by
  induction h with
  | here h _ _ => exact List.cons_lt_cons_iff.mpr (.inl h)
  | there b _ ih => exact List.cons_lt_cons_iff.mpr (.inr ⟨rfl, ih⟩)

/-- Byte strings that begin with the bytes of different numbers part there. -/
theorem PartsBelow.of_lt {m n : Nat} (hn : n < 256) (hlt : m < n) (bs ds : List UInt8) :
    PartsBelow (.ofNat m :: bs) (.ofNat n :: ds) := by
  refine .here ?_ bs ds
  show m % 256 < n % 256
  omega

/-- Byte strings that begin with the bytes of two numbers in order part there or further on. -/
theorem PartsBelow.of_le {m n : Nat} (hn : n < 256) (hle : m ≤ n) {bs ds : List UInt8}
    (h : m = n → PartsBelow bs ds) : PartsBelow (.ofNat m :: bs) (.ofNat n :: ds) := by
  rcases Nat.lt_or_eq_of_le hle with hlt | rfl
  · exact .of_lt hn hlt bs ds
  · exact .there _ (h rfl)

/-- **The bytes of two characters part, the character with the smaller code point below.** -/
theorem encode_partsBelow {c d : Char} (h : c < d) :
    PartsBelow (String.utf8EncodeChar c) (String.utf8EncodeChar d) := by
  have hlt : c.val.toNat < d.val.toNat := h
  have hvalid : d.val.toNat < 0xd800 ∨ (0xdfff < d.val.toNat ∧ d.val.toNat < 0x110000) := d.valid
  unfold String.utf8EncodeChar
  dsimp only
  -- The smaller character has no more bytes. With fewer bytes it begins with a smaller one; with as
  -- many, the two part at the last byte or in front of it.
  split_ifs <;> first
    | exact absurd hlt (by omega)
    | exact .of_lt (by omega) (by omega) _ _
    | exact .of_le (by omega) (by omega) fun _ => .of_lt (by omega) (by omega) _ _
    | exact .of_le (by omega) (by omega) fun _ => .of_le (by omega) (by omega) fun _ =>
        .of_lt (by omega) (by omega) _ _
    | exact .of_le (by omega) (by omega) fun _ => .of_le (by omega) (by omega) fun _ =>
        .of_le (by omega) (by omega) fun _ => .of_lt (by omega) (by omega) _ _

/-! ## 2. Texts -/

theorem append_lt_append_left_iff (us bs ds : List UInt8) : us ++ bs < us ++ ds ↔ bs < ds := by
  induction us with
  | nil => exact Iff.rfl
  | cons u us ih =>
    rw [List.cons_append, List.cons_append, List.cons_lt_cons_iff, ih]
    simp

/-- **Texts are ordered by their bytes as by their code points.** -/
theorem utf8_lt_iff (cs ds : List Char) : utf8 cs < utf8 ds ↔ cs < ds := by
  induction cs generalizing ds with
  | nil =>
    cases ds with
    | nil => simp
    | cons d ds =>
      obtain ⟨b, bs, hbs, _⟩ := encode_cons d
      simp [hbs]
  | cons c cs ih =>
    cases ds with
    | nil => simp
    | cons d ds =>
      rw [utf8_cons, utf8_cons, List.cons_lt_cons_iff]
      by_cases hlt : c < d
      · exact iff_of_true ((encode_partsBelow hlt).lt_append _ _) (.inl hlt)
      by_cases heq : c = d
      · subst heq
        rw [append_lt_append_left_iff, ih]
        simp
      · have hgt : d < c := by grind
        have hback := (encode_partsBelow hgt).lt_append (utf8 ds) (utf8 cs)
        exact iff_of_false (List.lt_asymm hback) (by simp [hlt, heq])

end CallByNeed
