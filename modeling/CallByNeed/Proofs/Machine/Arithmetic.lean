/-
  File:      CallByNeed/Proofs/Machine/Arithmetic.lean
  Subject:   What strict primitives with two arguments come to.

  Arithmetic is that of the integers and the rationals, as long as the result is a word, and a fault
  otherwise. Division can be done with words alone: cut off towards zero, then lowered by one if it
  is not exact and the signs differ. Neither the remainder nor the last step leaves the words.

  * `Exact`, `exact_exactly` -- an exact result, or its overflow;
  * `floor_div_eq_fdiv`, `truncated_div_eq_tdiv` -- integer division and quotients of rationals;
  * `flooredByWords`, `flooredByWords_eq` -- division with words alone always comes to its result;
  * `FloorDivision`, `TruncatedRemainder` -- what division and remainder of words come to;
  * `Decides`, `codePoints_lt_iff` -- comparisons, and the order of strings;
  * `Mismatch`, `strictResult_mismatch` -- which argument is named if the values do not fit;
  * `strict_results_exact` -- the whole table.
-/
import CallByNeed.Machine.Strict
import CallByNeed.Proofs.Bytewise.Order
import CallByNeed.Proofs.Literal
import Mathlib.Data.Rat.Floor
import Mathlib.Data.String.Basic

namespace CallByNeed

/-! ## 1. Exact results -/

/-- The integers that are words. -/
def InWord (x : Int) : Prop := -2 ^ 63 ≤ x ∧ x < 2 ^ 63

theorem fitsWord_iff {x : Int} : fitsWord x = true ↔ InWord x := by
  rw [fitsWord, wordBound, InWord, Bool.and_eq_true, decide_eq_true_iff, decide_eq_true_iff]
  norm_num

theorem word?_eq_some_iff {x : Int} {w : Int64} : word? x = some w ↔ w.toInt = x :=
  ⟨fun h => (toInt_of_word? h).symm, fun h => h ▸ word?_toInt w⟩

theorem word?_eq_none_iff {x : Int} : word? x = none ↔ ¬ InWord x := by
  rw [word?, ← fitsWord_iff]
  split <;> simp_all

theorem inWord_toInt (a : Int64) : InWord a.toInt := ⟨a.le_toInt, a.toInt_lt⟩

theorem exists_word? {x : Int} (h : InWord x) : ∃ w, word? x = some w :=
  Option.ne_none_iff_exists'.mp fun hnone => word?_eq_none_iff.mp hnone h

/-- `r` is the exact result `x` of a primitive: the word that is `x`, or the overflow if no word is. -/
def Exact (b : Builtin) (x : Int) (r : Except Fault Value) : Prop :=
  (InWord x ∧ ∃ w : Int64, w.toInt = x ∧ r = .ok (.number w)) ∨
    (¬ InWord x ∧ r = .error (.overflow b))

theorem exact_exactly (b : Builtin) (x : Int) : Exact b x (exactly b x) := by
  unfold exactly
  cases h : word? x with
  | some w =>
    have hw := word?_eq_some_iff.mp h
    exact .inl ⟨hw ▸ inWord_toInt w, w, hw, rfl⟩
  | none => exact .inr ⟨word?_eq_none_iff.mp h, rfl⟩

theorem exactly_of_word? {b : Builtin} {x : Int} {w : Int64} (h : word? x = some w) :
    exactly b x = .ok (.number w) := by
  rw [exactly, h]

/-! ## 2. Quotients of rationals -/

/-- A rational cut off towards zero. -/
def truncated (q : ℚ) : ℤ := if 0 ≤ q then ⌊q⌋ else ⌈q⌉

theorem floor_div_eq_fdiv (x y : ℤ) : ⌊(x : ℚ) / y⌋ = x.fdiv y := by
  obtain ⟨n, rfl | rfl⟩ := y.eq_nat_or_neg
  · rw [Int.cast_natCast, Rat.floor_intCast_div_natCast,
      Int.fdiv_eq_ediv_of_nonneg x (Int.natCast_nonneg n)]
  · have hquotient : (x : ℚ) / ((-(n : ℤ) : ℤ) : ℚ) = ((-x : ℤ) : ℚ) / (n : ℚ) := by
      push_cast
      rw [div_neg, neg_div]
    rw [hquotient, Rat.floor_intCast_div_natCast, ← Int.neg_fdiv_neg, neg_neg,
      Int.fdiv_eq_ediv_of_nonneg (-x) (Int.natCast_nonneg n)]

/-- With equal signs, rounding down is cutting off. -/
theorem fdiv_eq_tdiv_of_sign {x y : ℤ} (h : 0 ≤ x ∧ 0 ≤ y ∨ x ≤ 0 ∧ y ≤ 0) : x.fdiv y = x.tdiv y := by
  rcases h with ⟨hx, hy⟩ | ⟨hx, hy⟩
  · rw [Int.fdiv_eq_ediv_of_nonneg x hy, Int.tdiv_eq_ediv_of_nonneg hx]
  · rw [← Int.neg_fdiv_neg, Int.fdiv_eq_ediv_of_nonneg (-x) (by omega),
      ← Int.tdiv_eq_ediv_of_nonneg (by omega), Int.neg_tdiv, Int.tdiv_neg, neg_neg]

theorem truncated_div_eq_tdiv (x y : ℤ) : truncated ((x : ℚ) / y) = x.tdiv y := by
  unfold truncated
  split
  · rename_i h
    rw [floor_div_eq_fdiv]
    refine fdiv_eq_tdiv_of_sign ?_
    simpa [div_nonneg_iff] using h
  · rename_i h
    have hceil : ⌈(x : ℚ) / y⌉ = -⌊((-x : ℤ) : ℚ) / y⌋ := by
      rw [Int.cast_neg, neg_div, Int.floor_neg, neg_neg]
    have hsign : 0 ≤ -x ∧ 0 ≤ y ∨ -x ≤ 0 ∧ y ≤ 0 := by
      rcases div_neg_iff.mp (not_le.mp h) with ⟨hx, hy⟩ | ⟨hx, hy⟩
      · rw [Int.cast_pos] at hx
        rw [Int.cast_lt_zero] at hy
        omega
      · rw [Int.cast_lt_zero] at hx
        rw [Int.cast_pos] at hy
        omega
    rw [hceil, floor_div_eq_fdiv, fdiv_eq_tdiv_of_sign hsign, Int.neg_tdiv, neg_neg]

/-! ## 3. Division with words alone -/

/-- The quotient of two words, cut off towards zero, if there is one. -/
def quotient? (a b : Int64) : Option Int64 :=
  if b = 0 then none else word? (a.toInt.tdiv b.toInt)

/-- The remainder of two words. There is none where there is no quotient. -/
def remainder? (a b : Int64) : Option Int64 :=
  (quotient? a b).bind fun _ => word? (a.toInt.tmod b.toInt)

/-- A word less one, if that is a word. -/
def predecessor? (a : Int64) : Option Int64 := word? (a.toInt - 1)

/-- Division with words alone: the quotient is cut off, and lowered if it is not exact and the signs
    differ. Nothing comes of it if the remainder or the lowered quotient is no word. -/
def flooredByWords (a b : Int64) : Option (Except Fault Int64) :=
  if b = 0 then some (.error (.divisionByZero .div))
  else
    match quotient? a b with
    | none => some (.error (.overflow .div))
    | some q => do
      let r ← remainder? a b
      if r ≠ 0 ∧ decide (a < 0) ≠ decide (b < 0) then
        let lowered ← predecessor? q
        return .ok lowered
      else return .ok q

/-- A quotient of words is a word, but for one. -/
theorem inWord_quotient_iff {x y q r : ℤ} (hx : InWord x) (hy : InWord y)
    (hq : q.natAbs ≤ x.natAbs) (hdiv : y * q + r = x) (hr : r.natAbs < y.natAbs) :
    InWord q ↔ ¬ (x = -2 ^ 63 ∧ y = -1) := by
  unfold InWord at *
  constructor
  · rintro hword ⟨rfl, rfl⟩
    omega
  · intro hne
    by_contra hword
    obtain rfl : q = 2 ^ 63 := by omega
    omega

theorem natAbs_tmod_lt {y : ℤ} (hy : y ≠ 0) (x : ℤ) : (x.tmod y).natAbs < y.natAbs := by
  rw [Int.natAbs_tmod]
  exact Nat.mod_lt _ (Int.natAbs_pos.mpr hy)

theorem natAbs_fmod_lt {y : ℤ} (hy : y ≠ 0) (x : ℤ) : (x.fmod y).natAbs < y.natAbs := by
  have hlow := Int.emod_nonneg x hy
  have hhigh := Int.emod_lt x hy
  rw [Int.fmod_eq_emod]
  split
  · omega
  · rename_i h
    rw [not_or] at h
    have hne : x % y ≠ 0 := fun h0 => h.2 (Int.dvd_of_emod_eq_zero h0)
    omega

/-- Rounding down lowers a quotient that is cut off, if it is not exact and the signs differ. -/
theorem fdiv_eq_tdiv_sub {x y : ℤ} (hy : y ≠ 0) :
    x.fdiv y =
      x.tdiv y - if x.tmod y ≠ 0 ∧ decide (x < 0) ≠ decide (y < 0) then 1 else 0 := by
  have hdvd : y ∣ x ↔ x.tmod y = 0 := Int.dvd_iff_tmod_eq_zero
  rw [Int.fdiv_eq_tdiv]
  simp only [hdvd]
  by_cases hmod : x.tmod y = 0
  · simp [hmod]
  · rcases lt_or_gt_of_ne hy with hneg | hpos
    · have hsign := Int.sign_eq_neg_one_of_neg hneg
      by_cases hx : x < 0 <;> simp [hmod, hx, hneg, hsign, not_le.mpr, not_lt.mp]
    · have hsign := Int.sign_eq_one_of_pos hpos
      by_cases hx : x < 0 <;> simp [hmod, hx, hpos.le, hsign, not_le.mpr, not_lt.mp, not_lt.mpr]

section Words

variable {a b : Int64}

theorem toInt_ne_zero (hb : b ≠ 0) : b.toInt ≠ 0 := fun h => hb (Int64.toInt_inj.mp h)

theorem inWord_tdiv_iff (hb : b ≠ 0) :
    InWord (a.toInt.tdiv b.toInt) ↔ ¬ (a.toInt = -2 ^ 63 ∧ b.toInt = -1) :=
  inWord_quotient_iff (inWord_toInt a) (inWord_toInt b) (Int.natAbs_tdiv_le_natAbs _ _)
    (Int.mul_tdiv_add_tmod _ _) (natAbs_tmod_lt (toInt_ne_zero hb) _)

theorem inWord_fdiv_iff (hb : b ≠ 0) :
    InWord (a.toInt.fdiv b.toInt) ↔ ¬ (a.toInt = -2 ^ 63 ∧ b.toInt = -1) :=
  inWord_quotient_iff (inWord_toInt a) (inWord_toInt b) (Int.natAbs_fdiv_le_natAbs _ _)
    (Int.mul_fdiv_add_fmod _ _) (natAbs_fmod_lt (toInt_ne_zero hb) _)

theorem inWord_tmod (a : Int64) (hb : b ≠ 0) : InWord (a.toInt.tmod b.toInt) := by
  have hlt := natAbs_tmod_lt (toInt_ne_zero hb) a.toInt
  have hy := inWord_toInt b
  unfold InWord at *
  omega

theorem strictResult_div (hb : b ≠ 0) :
    strictResult .div [.number a, .number b] = exactly .div (a.toInt.fdiv b.toInt) := by
  simp [strictResult, binaryResult, arithmetic?, divided, hb]

theorem strictResult_mod (hb : b ≠ 0) :
    strictResult .mod [.number a, .number b] = exactly .mod (a.toInt.tmod b.toInt) := by
  simp [strictResult, binaryResult, arithmetic?, divided, hb]

/-- **Division with words alone always comes to its result**: neither the remainder nor the lowered
    quotient leaves the words. -/
theorem flooredByWords_eq (a b : Int64) :
    (flooredByWords a b).map (Except.map .number) =
      some (strictResult .div [.number a, .number b]) := by
  by_cases hb : b = 0
  · simp [flooredByWords, strictResult, binaryResult, arithmetic?, divided, hb, Except.map]
  rw [strictResult_div hb, flooredByWords, if_neg hb]
  cases hq : quotient? a b with
  | none =>
    rw [quotient?, if_neg hb, word?_eq_none_iff, inWord_tdiv_iff hb, ← inWord_fdiv_iff hb,
      ← word?_eq_none_iff] at hq
    simp [exactly, hq, Except.map]
  | some q =>
    -- the quotient is a word, so the remainder is one, and so is the quotient rounded down
    obtain ⟨r, hr⟩ := exists_word? (inWord_tmod a hb)
    have hrem : remainder? a b = some r := by rw [remainder?, hq, Option.bind_some, hr]
    rw [quotient?, if_neg hb] at hq
    have hword : InWord (a.toInt.fdiv b.toInt) := by
      rw [inWord_fdiv_iff hb, ← inWord_tdiv_iff hb, ← word?_eq_some_iff.mp hq]
      exact inWord_toInt q
    obtain ⟨w, hw⟩ := exists_word? hword
    have hfloor := fdiv_eq_tdiv_sub (x := a.toInt) (toInt_ne_zero hb)
    rw [← word?_eq_some_iff.mp hr, ← word?_eq_some_iff.mp hq] at hfloor
    have hcond : r.toInt ≠ 0 ∧ decide (a.toInt < 0) ≠ decide (b.toInt < 0) ↔
        r ≠ 0 ∧ decide (a < 0) ≠ decide (b < 0) := by
      simp only [Int64.lt_iff_toInt_lt, ne_eq, ← Int64.toInt_inj]
      exact Iff.rfl
    simp only [hrem, Option.bind_eq_bind, Option.bind_some]
    by_cases hlower : r ≠ 0 ∧ decide (a < 0) ≠ decide (b < 0)
    · rw [if_pos (hcond.mpr hlower)] at hfloor
      have hpred : predecessor? q = some w := by rw [predecessor?, ← hfloor, hw]
      rw [if_pos hlower, hpred, exactly_of_word? hw]
      rfl
    · rw [if_neg (mt hcond.mp hlower), sub_zero] at hfloor
      have hsame : word? (a.toInt.fdiv b.toInt) = some q := by rw [hfloor, word?_toInt]
      rw [if_neg hlower, exactly_of_word? hsame]
      rfl

end Words

/-! ## 4. Quotients and remainders of words -/

/-- `r` is what the division of two words comes to. -/
structure FloorDivision (a b : Int64) (r : Except Fault Value) : Prop where
  byZero : r = .error (.divisionByZero .div) ↔ b = 0
  overflow : r = .error (.overflow .div) ↔ a.toInt = -2 ^ 63 ∧ b.toInt = -1
  /-- In all other cases, the quotient rounded down. -/
  floor : b ≠ 0 → ¬ (a.toInt = -2 ^ 63 ∧ b.toInt = -1) →
    ∃ w : Int64, w.toInt = ⌊(a.toInt : ℚ) / b.toInt⌋ ∧ r = .ok (.number w)
  /-- Words are enough for it. -/
  byWords : (flooredByWords a b).map (Except.map .number) = some r

/-- `r` is what the remainder of two words comes to. -/
structure TruncatedRemainder (a b : Int64) (r : Except Fault Value) : Prop where
  byZero : r = .error (.divisionByZero .mod) ↔ b = 0
  /-- In all other cases, what is left by the quotient cut off towards zero. -/
  remainder : b ≠ 0 → ∃ w : Int64,
    w.toInt = a.toInt - b.toInt * truncated ((a.toInt : ℚ) / b.toInt) ∧ r = .ok (.number w)
  /-- Words are enough for it; without a quotient it is zero. -/
  byWords : b ≠ 0 → r = .ok (.number ((remainder? a b).getD 0))

theorem floorDivision (a b : Int64) :
    FloorDivision a b (strictResult .div [.number a, .number b]) := by
  by_cases hb : b = 0
  · subst hb
    exact ⟨by simp [strictResult, binaryResult, arithmetic?, divided],
      by simp [strictResult, binaryResult, arithmetic?, divided], fun h => absurd rfl h,
      flooredByWords_eq a 0⟩
  refine ⟨?_, ?_, fun _ hne => ?_, flooredByWords_eq a b⟩
  · rw [strictResult_div hb]
    rcases exact_exactly .div (a.toInt.fdiv b.toInt) with ⟨_, w, _, h⟩ | ⟨_, h⟩ <;> simp [h, hb]
  · rw [strictResult_div hb]
    rcases exact_exactly .div (a.toInt.fdiv b.toInt) with ⟨hword, w, _, h⟩ | ⟨hword, h⟩
    · simpa [h] using (inWord_fdiv_iff hb).mp hword
    · simpa [h] using mt (inWord_fdiv_iff hb).mpr hword
  · obtain ⟨w, hw⟩ := exists_word? ((inWord_fdiv_iff hb).mpr hne)
    exact ⟨w, by rw [floor_div_eq_fdiv, word?_eq_some_iff.mp hw],
      by rw [strictResult_div hb, exactly_of_word? hw]⟩

theorem truncatedRemainder (a b : Int64) :
    TruncatedRemainder a b (strictResult .mod [.number a, .number b]) := by
  by_cases hb : b = 0
  · subst hb
    exact ⟨by simp [strictResult, binaryResult, arithmetic?, divided], fun h => absurd rfl h,
      fun h => absurd rfl h⟩
  obtain ⟨w, hw⟩ := exists_word? (inWord_tmod a hb)
  have hresult : strictResult .mod [.number a, .number b] = .ok (.number w) := by
    rw [strictResult_mod hb, exactly_of_word? hw]
  refine ⟨by simp [hresult, hb], fun _ => ⟨w, ?_, hresult⟩, fun _ => ?_⟩
  · rw [truncated_div_eq_tdiv, ← Int.tmod_def, word?_eq_some_iff.mp hw]
  · rw [hresult, remainder?]
    cases hq : quotient? a b with
    | some q => simp [hw]
    | none =>
      -- the least word by minus one leaves nothing
      rw [quotient?, if_neg hb, word?_eq_none_iff, inWord_tdiv_iff hb, not_not] at hq
      rw [hq.1, hq.2] at hw
      have hzero : word? (Int.tmod (-2 ^ 63) (-1)) = some 0 := by decide
      rw [Option.some.inj (hw.symm.trans hzero)]
      rfl

/-! ## 5. Comparisons -/

/-- `r` is the answer to the question whether `p` holds. -/
def Decides (r : Except Fault Value) (p : Prop) : Prop :=
  ∃ t : Bool, r = .ok (.ofBool t) ∧ (t = true ↔ p)

/-- The code points of a text. -/
def codePoints (s : String) : List Nat := s.toList.map Char.toNat

theorem codePoints_lt_iff (s t : String) : codePoints s < codePoints t ↔ s < t := by
  have chars : ∀ cs ds : List Char, cs.map Char.toNat < ds.map Char.toNat ↔ cs < ds := by
    intro cs
    induction cs with
    | nil => intro ds; cases ds <;> simp
    | cons c cs ih =>
      intro ds
      cases ds with
      | nil => simp
      | cons d ds =>
        rw [List.map_cons, List.map_cons, List.cons_lt_cons_iff, List.cons_lt_cons_iff, ih,
          Char.toNat_inj]
        exact Iff.rfl
  rw [codePoints, codePoints, chars, String.lt_iff]

/-- Numbers are compared with numbers and strings with strings, by what they are. -/
def SameDatum (v w : Value) : Prop :=
  (∃ n, v = .number n ∧ w = .number n) ∨ ∃ s, v = .string s ∧ w = .string s

section Comparisons

variable (a b : Int64) (s t : String) (v w : Value)

theorem decides_ofBool {c : Bool} {p : Prop} (h : c = true ↔ p) : Decides (.ok (.ofBool c)) p :=
  ⟨c, rfl, h⟩

theorem decides_lt_number :
    Decides (strictResult .lt [.number a, .number b]) (a.toInt < b.toInt) :=
  decides_ofBool (decide_eq_true_iff.trans Int64.lt_iff_toInt_lt)

theorem decides_le_number :
    Decides (strictResult .le [.number a, .number b]) (a.toInt ≤ b.toInt) :=
  decides_ofBool (decide_eq_true_iff.trans Int64.le_iff_toInt_le)

theorem decides_lt_string :
    Decides (strictResult .lt [.string s, .string t]) (codePoints s < codePoints t) :=
  decides_ofBool (decide_eq_true_iff.trans (codePoints_lt_iff s t).symm)

theorem decides_le_string :
    Decides (strictResult .le [.string s, .string t]) (codePoints s < codePoints t ∨ s = t) := by
  refine decides_ofBool ?_
  rw [codePoints_lt_iff, Bool.not_eq_true', decide_eq_false_iff_not, not_lt, le_iff_lt_or_eq]

theorem decides_eq : Decides (strictResult .eq [v, w]) (SameDatum v w) := by
  refine decides_ofBool ?_
  cases v <;> cases w <;> simp [equalValues, SameDatum] <;> exact eq_comm

end Comparisons

/-! ## 6. Values that fit, and values that do not -/

/-- Numbers and strings that are put together, one of them a string. -/
def Concatenable (v w : Value) : Prop :=
  v.isFunction = false ∧ w.isFunction = false ∧ ((∃ s, v = .string s) ∨ ∃ s, w = .string s)

theorem strictResult_add_iff (v w : Value) :
    strictResult .add [v, w] = .ok (.string (v.display ++ w.display)) ↔ Concatenable v w := by
  have hnumber (x : Int) (s : String) : exactly .add x ≠ .ok (.string s) := by
    rcases exact_exactly .add x with ⟨_, w, _, h⟩ | ⟨_, h⟩ <;> simp [h]
  cases v <;> cases w <;>
    simp [strictResult, binaryResult, arithmetic?, textual?, unfitPair, unfit, Concatenable,
      Value.isFunction, Value.display, hnumber]

/-- `r` says that two values do not fit a primitive, and names one of them, a function if there is
    one. -/
def Mismatch (b : Builtin) (v w : Value) (r : Except Fault Value) : Prop :=
  ∃ u, (u = v ∨ u = w) ∧ (v.isFunction = true ∨ w.isFunction = true → u.isFunction = true) ∧
    r = .error (.typeMismatch b u.describe)

theorem mismatch_unfitPair (b : Builtin) (v w : Value) : Mismatch b v w (unfitPair b v w) := by
  refine ⟨culprit v w, ?_, fun h => ?_, rfl⟩
  · unfold culprit
    repeat' split
    all_goals simp
  · unfold culprit
    repeat' split
    all_goals simp_all

/-- **Values that do not fit a primitive are refused, and one of them is named.** -/
theorem strictResult_mismatch {b : Builtin} {v w : Value} (heq : b ≠ .eq)
    (hnumbers : ¬ ∃ m n, v = .number m ∧ w = .number n)
    (hadd : ¬ (b = .add ∧ Concatenable v w))
    (horder : ¬ ((b = .lt ∨ b = .le) ∧ ∃ s t, v = .string s ∧ w = .string t)) :
    Mismatch b v w (strictResult b [v, w]) := by
  have hunfit : strictResult b [v, w] = unfitPair b v w := by
    simp only [strictResult, binaryResult]
    split
    · exact absurd rfl heq
    · exact absurd ⟨_, _, rfl, rfl⟩ hnumbers
    · rename_i s t _
      have hnone : textual? b s t = none := by
        unfold textual?
        split
        · exact absurd ⟨rfl, rfl, rfl, .inl ⟨s, rfl⟩⟩ hadd
        · exact absurd ⟨.inl rfl, s, t, rfl, rfl⟩ horder
        · exact absurd ⟨.inr rfl, s, t, rfl, rfl⟩ horder
        · rfl
      rw [hnone, Option.getD_none]
    · exact absurd ⟨rfl, rfl, rfl, .inr ⟨_, rfl⟩⟩ hadd
    · exact absurd ⟨rfl, rfl, rfl, .inl ⟨_, rfl⟩⟩ hadd
    · rfl
  rw [hunfit]
  exact mismatch_unfitPair b v w

/-! ## 7. The table -/

/-- **Strict primitives are exact, or report a fault.**

    * Sums, differences and products of words are those of the integers if these are words, and an
      overflow otherwise. A quotient is rounded down, a remainder is what the quotient cut off
      towards zero leaves; both can be worked out with words alone.
    * Numbers and strings are put together as they show if one of them is a string.
    * Numbers are equal to numbers and strings to strings, and nothing else is. Strings are ordered by
      their code points, which is the order of their bytes.
    * All other pairs are refused, and one of the two is named, a function if there is one. -/
theorem strict_results_exact :
    (∀ a b : Int64,
      Exact .add (a.toInt + b.toInt) (strictResult .add [.number a, .number b]) ∧
      Exact .sub (a.toInt - b.toInt) (strictResult .sub [.number a, .number b]) ∧
      Exact .mul (a.toInt * b.toInt) (strictResult .mul [.number a, .number b]) ∧
      FloorDivision a b (strictResult .div [.number a, .number b]) ∧
      TruncatedRemainder a b (strictResult .mod [.number a, .number b]) ∧
      Decides (strictResult .lt [.number a, .number b]) (a.toInt < b.toInt) ∧
      Decides (strictResult .le [.number a, .number b]) (a.toInt ≤ b.toInt)) ∧
    strictResult .mod [.number Int64.minValue, .number (-1)] = .ok (.number 0) ∧
    (∀ v w : Value,
      (strictResult .add [v, w] = .ok (.string (v.display ++ w.display)) ↔ Concatenable v w) ∧
      Decides (strictResult .eq [v, w]) (SameDatum v w)) ∧
    (∀ s t : String,
      Decides (strictResult .lt [.string s, .string t]) (codePoints s < codePoints t) ∧
      Decides (strictResult .le [.string s, .string t]) (codePoints s < codePoints t ∨ s = t) ∧
      (codePoints s < codePoints t ↔ utf8 s.toList < utf8 t.toList)) ∧
    ∀ (b : Builtin) (v w : Value), b ≠ .eq →
      ¬ (∃ m n, v = .number m ∧ w = .number n) →
      ¬ (b = .add ∧ Concatenable v w) →
      ¬ ((b = .lt ∨ b = .le) ∧ ∃ s t, v = .string s ∧ w = .string t) →
      Mismatch b v w (strictResult b [v, w]) := by
  refine ⟨fun a b => ⟨exact_exactly _ _, exact_exactly _ _, exact_exactly _ _, floorDivision a b,
    truncatedRemainder a b, decides_lt_number a b, decides_le_number a b⟩, by decide,
    fun v w => ⟨strictResult_add_iff v w, decides_eq v w⟩,
    fun s t => ⟨decides_lt_string s t, decides_le_string s t, ?_⟩,
    fun b v w => strictResult_mismatch⟩
  rw [codePoints_lt_iff, utf8_lt_iff, String.lt_iff]

end CallByNeed
