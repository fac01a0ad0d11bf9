/-
  File:      CallByNeed/Proofs/Literal.lean
  Subject:   Literals are read back as they were written.

  * `unescape_escape` -- the escapes of a string stand for the string;
  * `mem_unescapeChars` -- reading escapes brings in no character but those that an escape names;
  * `decimal_spec` -- the decimal text of a word: digits, with a minus in front if it is negative,
    and the word is their value.
-/
import CallByNeed.Literal
import Mathlib.Data.Nat.Digits.Defs

namespace CallByNeed

/-! ## 1. Strings -/

theorem unescapeChars_escapeChar (c : Char) (cs : List Char) :
    unescapeChars (escapeChar c ++ cs) = c :: unescapeChars cs := by
  unfold escapeChar
  repeat' split
  case isFalse.isFalse.isFalse.isFalse.isFalse.isFalse.isFalse =>
    rename_i hb
    exact unescapeChars_cons hb cs
  all_goals
    subst_vars
    exact unescapeChars_backslash _ cs

/-- **The escapes of a string stand for the string.** -/
theorem unescape_escape (s : String) : unescape (escape s) = s := by
  have chars : ∀ cs : List Char, unescapeChars (cs.flatMap escapeChar) = cs := by
    intro cs
    induction cs with
    | nil => rfl
    | cons c cs ih => rw [List.flatMap_cons, unescapeChars_escapeChar, ih]
  rw [unescape, escape, String.toList_ofList, chars, String.ofList_toList]

/-- A character that no escape names comes from the text itself. -/
theorem mem_unescapeChars {ch : Char} (hch : ch ∉ ['\x00', '\t', '\r', '\n']) :
    ∀ cs : List Char, ch ∈ unescapeChars cs → ch ∈ cs
  | [], h => by cases h
  | [c], h => by
    by_cases hb : c = '\\'
    · simp [unescapeChars, unescapeOnto, hb] at h
    · rw [unescapeChars_cons hb] at h
      simpa using h
  | c :: d :: cs, h => by
    by_cases hb : c = '\\'
    · subst hb
      rw [unescapeChars_backslash] at h
      rcases List.mem_cons.mp h with h | h
      · have hd : ch = d := by
          unfold escaped at h
          repeat' split at h
          case isFalse.isFalse.isFalse.isFalse => exact h
          all_goals simp [h] at hch
        simp [hd]
      · exact List.mem_cons_of_mem _ (List.mem_cons_of_mem _ (mem_unescapeChars hch cs h))
    · rw [unescapeChars_cons hb] at h
      rcases List.mem_cons.mp h with h | h
      · simp [h]
      · exact List.mem_cons_of_mem _ (mem_unescapeChars hch (d :: cs) h)

/-! ## 2. Integers -/

theorem digitsValue_toDigits (n : Nat) : digitsValue (Nat.toDigits 10 n) = n := by
  have h := Nat.ofDigitChars_ten_toDigits (n := n)
  rw [Nat.ofDigitChars_eq_foldl] at h
  exact h

theorem word?_toInt (n : Int64) : word? n.toInt = some n := by
  have hlow := n.le_toInt
  have hhigh := n.toInt_lt
  have hfits : fitsWord n.toInt = true := by
    rw [fitsWord, wordBound, Bool.and_eq_true, decide_eq_true_iff, decide_eq_true_iff]
    omega
  rw [word?, if_pos hfits, Int64.ofInt_toInt]

/-- A word is the integer that it was made from. -/
theorem toInt_of_word? {v : Int} {n : Int64} (h : word? v = some n) : v = n.toInt := by
  rw [word?] at h
  split at h
  · rename_i hfits
    cases h
    rw [fitsWord, wordBound, Bool.and_eq_true, decide_eq_true_iff, decide_eq_true_iff] at hfits
    rw [Int64.toInt_ofInt_of_le (by omega) (by omega)]
  · cases h

/-- A digit is no sign. -/
theorem numeralValue_of_digit {d : Char} (hd : d.isDigit = true) (ds : List Char) :
    numeralValue (d :: ds) = digitsValue (d :: ds) := by
  have hplus : d ≠ '+' := by
    rintro rfl
    revert hd
    decide
  have hminus : d ≠ '-' := by
    rintro rfl
    revert hd
    decide
  unfold numeralValue
  split
  · rename_i h
    exact absurd (List.cons.inj h).1 hminus
  · rename_i h
    exact absurd (List.cons.inj h).1 hplus
  · rfl

/-- **The decimal text of a word**: digits, and in front of them a minus exactly if the word is
    negative; the word is their value. -/
theorem decimal_spec (n : Int64) :
    ∃ d ds, (∀ c ∈ d :: ds, c.isDigit = true) ∧
      ((0 ≤ n.toInt ∧ (decimal n).toList = d :: ds) ∨
        (n.toInt < 0 ∧ (decimal n).toList = '-' :: d :: ds)) ∧
      word? (numeralValue (decimal n).toList) = some n := by
  have digits (m : Nat) : ∃ d ds, Nat.toDigits 10 m = d :: ds ∧ ∀ c ∈ d :: ds, c.isDigit = true := by
    obtain ⟨d, ds, h⟩ := List.exists_cons_of_ne_nil (Nat.toDigits_ne_nil (n := m) (b := 10))
    refine ⟨d, ds, h, fun c hc => ?_⟩
    rw [← h] at hc
    exact Nat.isDigit_of_mem_toDigits (by decide) (by decide) hc
  by_cases hn : 0 ≤ n.toInt
  · obtain ⟨d, ds, hds, hall⟩ := digits n.toInt.toNat
    have htext : (decimal n).toList = d :: ds := by
      rw [decimal, Int.repr_eq_if, if_pos hn, Nat.repr_eq_ofList_toDigits, String.toList_ofList, hds]
    refine ⟨d, ds, hall, .inl ⟨hn, htext⟩, ?_⟩
    rw [htext, numeralValue_of_digit (hall d List.mem_cons_self), ← hds, digitsValue_toDigits,
      Int.toNat_of_nonneg hn, word?_toInt]
  · obtain ⟨d, ds, hds, hall⟩ := digits (-n.toInt).toNat
    have htext : (decimal n).toList = '-' :: d :: ds := by
      rw [decimal, Int.repr_eq_if, if_neg hn, Nat.repr_eq_ofList_toDigits, hds, String.toList_append]
      simp
    refine ⟨d, ds, hall, .inr ⟨by omega, htext⟩, ?_⟩
    have hvalue : numeralValue ('-' :: d :: ds) = n.toInt := by
      show -(digitsValue (d :: ds) : Int) = n.toInt
      rw [← hds, digitsValue_toDigits]
      omega
    rw [htext, hvalue, word?_toInt]

end CallByNeed
