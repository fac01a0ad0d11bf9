/-
  File:      CallByNeed/Proofs/Parser/Balance.lean
  Subject:   The scan for parentheses and quotes agrees with the reader.

  * `Balanced` -- the scan finds every partner; one law for each kind of token;
  * `exists_string_of_balanced` -- in such a text every string is closed;
  * `kept_balanced`, `balanced_of_whole` -- reading keeps it, so a text that is read is balanced;
  * `nesting_of_balanced`, `after_of_balanced` -- behind a balanced text, code goes on or a comment
    does; without comments, code does;
  * `close_at`, `close_offset_le` -- what the scan reports is a parenthesis of the text.
-/
import CallByNeed.Proofs.Layout
import CallByNeed.Proofs.Parser.Invariant

namespace CallByNeed

/-! ## 1. The scan, character by character -/

section Scan

variable {d o : Nat} {c : Char} {cs : List Char}

theorem imbalanceFrom_quote :
    imbalanceFrom .code d o ('"' :: cs) = imbalanceFrom .string d (o + 1) cs := by
  cases d <;> rfl

theorem imbalanceFrom_open :
    imbalanceFrom .code d o ('(' :: cs) = imbalanceFrom .code (d + 1) (o + 1) cs := by
  cases d <;> rfl

theorem imbalanceFrom_close_zero : imbalanceFrom .code 0 o (')' :: cs) = some (.close o) := rfl

theorem imbalanceFrom_close_succ :
    imbalanceFrom .code (d + 1) o (')' :: cs) = imbalanceFrom .code d (o + 1) cs := rfl

theorem imbalanceFrom_bare (h : Bare c) :
    imbalanceFrom .code d o (c :: cs) = imbalanceFrom .code d (o + c.utf8Size) cs := by
  obtain ⟨hopen, hclose, hquote⟩ := h
  cases d with
  | zero => exact (if_neg hquote).trans ((if_neg hopen).trans (if_neg hclose))
  | succ d => exact (if_neg hquote).trans ((if_neg hopen).trans (if_neg hclose))

theorem imbalanceFrom_string :
    imbalanceFrom .string d o (c :: cs) =
      if c = '\\' then imbalanceFrom .escape d (o + c.utf8Size) cs
      else if c = '"' then imbalanceFrom .code d (o + c.utf8Size) cs
      else imbalanceFrom .string d (o + c.utf8Size) cs := rfl

theorem imbalanceFrom_escape :
    imbalanceFrom .escape d o (c :: cs) = imbalanceFrom .string d (o + c.utf8Size) cs := rfl

theorem char_cases (c : Char) : c = '"' ∨ c = '(' ∨ c = ')' ∨ Bare c := by
  by_cases hquote : c = '"'
  · exact .inl hquote
  by_cases hopen : c = '('
  · exact .inr (.inl hopen)
  by_cases hclose : c = ')'
  · exact .inr (.inr (.inl hclose))
  · exact .inr (.inr (.inr ⟨hopen, hclose, hquote⟩))

/-- Whether every partner is found does not hang on where the text stands. -/
theorem imbalanceFrom_offset {n : Nesting} (o o' : Nat) :
    imbalanceFrom n d o cs = none ↔ imbalanceFrom n d o' cs = none := by
  induction cs generalizing n d o o' with
  | nil => cases n <;> cases d <;> exact Iff.rfl
  | cons c cs ih =>
    cases n with
    | code =>
      rcases char_cases c with rfl | rfl | rfl | hbare
      · rw [imbalanceFrom_quote, imbalanceFrom_quote]
        exact ih _ _
      · rw [imbalanceFrom_open, imbalanceFrom_open]
        exact ih _ _
      · cases d with
        | zero => simp [imbalanceFrom_close_zero]
        | succ d =>
          rw [imbalanceFrom_close_succ, imbalanceFrom_close_succ]
          exact ih _ _
      · rw [imbalanceFrom_bare hbare, imbalanceFrom_bare hbare]
        exact ih _ _
    | string =>
      rw [imbalanceFrom_string, imbalanceFrom_string]
      repeat' split
      all_goals exact ih _ _
    | escape =>
      rw [imbalanceFrom_escape, imbalanceFrom_escape]
      exact ih _ _

/-- A parenthesis without its partner stands where the scan reports it. -/
theorem close_at {n : Nesting} {k : Nat} (h : imbalanceFrom n d o cs = some (.close k)) :
    ∃ front back, cs = front ++ ')' :: back ∧ k = o + byteCount front := by
  induction cs generalizing n d o with
  | nil => cases n <;> cases d <;> cases h
  | cons c cs ih =>
    have further {n : Nesting} {d size : Nat} (hsize : c.utf8Size = size)
        (h : imbalanceFrom n d (o + size) cs = some (.close k)) :
        ∃ front back, c :: cs = front ++ ')' :: back ∧ k = o + byteCount front := by
      obtain ⟨front, back, rfl, hk⟩ := ih h
      refine ⟨c :: front, back, rfl, ?_⟩
      rw [byteCount_cons, hk]
      omega
    cases n with
    | code =>
      rcases char_cases c with rfl | rfl | rfl | hbare
      · exact further (by decide) (imbalanceFrom_quote ▸ h)
      · exact further (by decide) (imbalanceFrom_open ▸ h)
      · cases d with
        | zero =>
          cases h
          exact ⟨[], cs, rfl, rfl⟩
        | succ d => exact further (by decide) (imbalanceFrom_close_succ ▸ h)
      · exact further rfl (imbalanceFrom_bare hbare ▸ h)
    | string =>
      rw [imbalanceFrom_string] at h
      repeat' split at h
      all_goals exact further rfl h
    | escape =>
      rw [imbalanceFrom_escape] at h
      exact further rfl h

/-- What the scan reports lies in the text. -/
theorem close_offset_le {n : Nesting} {k : Nat} (h : imbalanceFrom n d o cs = some (.close k)) :
    k ≤ o + byteCount cs := by
  obtain ⟨front, back, rfl, rfl⟩ := close_at h
  rw [byteCount_append]
  omega

end Scan

/-! ## 2. Balanced texts -/

/-- Every parenthesis and every quote of a text finds its partner, where `depth` parentheses are
    open in front of it. -/
def Balanced (depth : Nat) (cs : List Char) : Prop := imbalanceFrom .code depth 0 cs = none

section Laws

variable {d : Nat} {c : Char} {cs body : List Char}

theorem balanced_iff (o : Nat) : Balanced d cs ↔ imbalanceFrom .code d o cs = none :=
  imbalanceFrom_offset 0 o

theorem balanced_nil : Balanced d [] ↔ d = 0 := by
  cases d with
  | zero => exact ⟨fun _ => rfl, fun _ => rfl⟩
  | succ d => exact ⟨nofun, nofun⟩

theorem balanced_open : Balanced d ('(' :: cs) ↔ Balanced (d + 1) cs := by
  rw [Balanced, imbalanceFrom_open, ← balanced_iff]

theorem balanced_close : Balanced (d + 1) (')' :: cs) ↔ Balanced d cs := by
  rw [Balanced, imbalanceFrom_close_succ, ← balanced_iff]

theorem not_balanced_close : ¬ Balanced 0 (')' :: cs) := by
  rw [Balanced, imbalanceFrom_close_zero]
  exact nofun

theorem balanced_bare {read : List Char} (h : ∀ ch ∈ read, Bare ch) :
    Balanced d (read ++ cs) ↔ Balanced d cs := by
  induction read with
  | nil => rfl
  | cons ch read ih =>
    rw [List.cons_append, Balanced, imbalanceFrom_bare (h ch List.mem_cons_self), ← balanced_iff]
    exact ih fun ch' hch' => h ch' (List.mem_cons_of_mem _ hch')

/-- A string does not count. -/
theorem balanced_string (h : StringText body) :
    Balanced d ('"' :: (body ++ '"' :: cs)) ↔ Balanced d cs := by
  have inside (o : Nat) : imbalanceFrom .string d o (body ++ '"' :: cs) = none ↔ Balanced d cs := by
    induction h generalizing o with
    | nil => exact (balanced_iff _).symm
    | escape ch _ ih => exact ih _
    | @plain ch _ hq hb _ ih =>
      rw [List.cons_append, imbalanceFrom_string, if_neg hb, if_neg hq]
      exact ih _
  rw [Balanced, imbalanceFrom_quote]
  exact inside _

/-- **In a balanced text every string is closed.** -/
theorem exists_string_of_balanced (h : Balanced d ('"' :: cs)) :
    ∃ body rest, StringText body ∧ cs = body ++ '"' :: rest := by
  -- behind a backslash, one more character comes first
  have closed : ∀ (cs : List Char) (d o : Nat),
      (imbalanceFrom .string d o cs = none →
        ∃ body rest, StringText body ∧ cs = body ++ '"' :: rest) ∧
      (imbalanceFrom .escape d o cs = none →
        ∃ ch body rest, StringText body ∧ cs = ch :: (body ++ '"' :: rest)) := by
    intro cs
    induction cs with
    | nil => exact fun d o => ⟨nofun, nofun⟩
    | cons c cs ih =>
      intro d o
      refine ⟨fun h => ?_, fun h => ?_⟩
      · rw [imbalanceFrom_string] at h
        split at h
        · rename_i hb
          obtain ⟨ch, body, rest, htext, rfl⟩ := (ih _ _).2 h
          exact ⟨'\\' :: ch :: body, rest, .escape ch htext, by rw [hb]; rfl⟩
        · split at h
          · rename_i hq
            exact ⟨[], cs, .nil, by rw [hq]; rfl⟩
          · rename_i hb hq
            obtain ⟨body, rest, htext, rfl⟩ := (ih _ _).1 h
            exact ⟨c :: body, rest, .plain hq hb htext, rfl⟩
      · rw [imbalanceFrom_escape] at h
        obtain ⟨body, rest, htext, rfl⟩ := (ih _ _).1 h
        exact ⟨c, body, rest, htext, rfl⟩
  rw [Balanced, imbalanceFrom_quote] at h
  exact (closed cs d 1).1 h

end Laws

/-! ## 3. Readers and the scan -/

/-- Every token keeps whether the text is balanced. -/
theorem kept_balanced (b : Prop) : Kept fun d c => Balanced d c.rest ↔ b where
  bare h hpast hbare := by
    rw [hpast.1, balanced_bare hbare] at h
    exact h
  enter h hpast := by
    rw [hpast.1, List.singleton_append, balanced_open] at h
    exact h
  leave h hpast := by
    rw [hpast.1, List.singleton_append, balanced_close] at h
    exact h
  string h htext hpast := by
    rw [hpast.1, List.cons_append, List.append_assoc, List.singleton_append,
      balanced_string htext] at h
    exact h

/-- **A program that is read is balanced.** -/
theorem balanced_of_whole {r : Reading} {c : Cursor} {e : Expr} (h : r.whole c = .ok e) :
    Balanced 0 c.rest := by
  obtain ⟨c', hline, hrest⟩ := Reading.whole_eq_ok.mp h
  have hkept := kept_balanced (Balanced 0 c.rest)
  have hend := hkept.spaces (hkept.keeps.line Iff.rfl hline).1
  rw [hrest] at hend
  exact hend.mp (balanced_nil.mpr rfl)

/-! ## 4. The scan and the blanking -/

/-- Where a scan stands behind a character. -/
def Nesting.step : Nesting → Char → Nesting
  | .code, c => if c = '"' then .string else .code
  | .string, c => if c = '\\' then .escape else if c = '"' then .code else .string
  | .escape, _ => .string

/-- What a scan of blanked text takes a region for: comments are blank there. -/
def Region.nesting : Region → Nesting
  | .code | .comment => .code
  | .string => .string
  | .escape => .escape

/-- A scan that finds every partner finds those behind the first character. -/
theorem imbalanceFrom_step {n : Nesting} {d o : Nat} {c : Char} {cs : List Char}
    (h : imbalanceFrom n d o (c :: cs) = none) :
    ∃ d' o', imbalanceFrom (n.step c) d' o' cs = none := by
  cases n with
  | code =>
    rcases char_cases c with rfl | rfl | rfl | hbare
    · exact ⟨_, _, imbalanceFrom_quote ▸ h⟩
    · exact ⟨_, _, imbalanceFrom_open ▸ h⟩
    · cases d with
      | zero => cases h
      | succ d => exact ⟨_, _, imbalanceFrom_close_succ ▸ h⟩
    · have hstep : Nesting.step .code c = .code := if_neg hbare.2.2
      exact ⟨_, _, hstep ▸ imbalanceFrom_bare hbare ▸ h⟩
  | string =>
    rw [imbalanceFrom_string] at h
    simp only [Nesting.step]
    repeat' split at h
    all_goals simp_all only [if_true, if_false]
    all_goals exact ⟨_, _, h⟩
  | escape => exact ⟨_, _, h⟩

/-- And those behind the first part of a text. -/
theorem imbalanceFrom_append {n : Nesting} {d o : Nat} {cs ds : List Char}
    (h : imbalanceFrom n d o (cs ++ ds) = none) :
    ∃ d' o', imbalanceFrom (cs.foldl Nesting.step n) d' o' ds = none := by
  induction cs generalizing n d o with
  | nil => exact ⟨d, o, h⟩
  | cons c cs ih =>
    obtain ⟨d', o', h'⟩ := imbalanceFrom_step h
    exact ih h'

/-- Blanking and scanning go through the same regions. -/
theorem Region.nesting_blanked (r : Region) (c : Char) :
    (r.blanked c).foldl Nesting.step r.nesting = (r.step c).nesting := by
  have spaces (k : Nat) : (List.replicate k ' ').foldl Nesting.step .code = .code := by
    induction k with
    | zero => rfl
    | succ k ih => exact ih
  cases r with
  | comment =>
    refine (spaces _).trans ?_
    simp only [Region.step]
    split <;> rfl
  | code =>
    by_cases hhash : c = '#'
    · subst hhash; decide
    by_cases hquote : c = '"'
    · subst hquote; decide
    simp only [Region.blanked, Region.step, hhash, hquote, if_false]
    split <;> simp [Region.nesting, Nesting.step, hquote]
  | string =>
    by_cases hslash : c = '\\'
    · subst hslash; decide
    by_cases hquote : c = '"'
    · subst hquote; decide
    simp only [Region.blanked, Region.step, hslash, hquote, if_false]
    split <;> simp [Region.nesting, Nesting.step, hslash, hquote]
  | escape =>
    simp only [Region.blanked]
    split <;> rfl

/-- **Behind a balanced text, code goes on or a comment does.** -/
theorem nesting_of_balanced {r : Region} {d o : Nat} {cs : List Char}
    (h : imbalanceFrom r.nesting d o (blankFrom r cs) = none) : (r.after cs).nesting = .code := by
  induction cs generalizing r d o with
  | nil => cases r <;> first | rfl | cases h
  | cons c cs ih =>
    rw [blankFrom_cons] at h
    obtain ⟨d', o', h'⟩ := imbalanceFrom_append h
    rw [r.nesting_blanked c] at h'
    exact ih h'

/-- Without `#` no comment begins. -/
theorem Region.after_ne_comment {r : Region} {cs : List Char} (hr : r ≠ .comment) (hcs : '#' ∉ cs) :
    r.after cs ≠ .comment := by
  induction cs generalizing r with
  | nil => exact hr
  | cons c cs ih =>
    refine ih ?_ fun hmem => hcs (List.mem_cons_of_mem _ hmem)
    have hc : c ≠ '#' := fun he => hcs (by simp [he])
    cases r <;> simp only [Region.step, if_neg hc] <;> (repeat' split) <;> simp_all

/-- **Behind a balanced text without comments, code goes on.** -/
theorem after_of_balanced {cs : List Char} (hcs : '#' ∉ cs) (h : Balanced 0 (blankText cs)) :
    Region.after .code cs = .code := by
  have hnesting := nesting_of_balanced (r := .code) h
  have hcomment := Region.after_ne_comment (r := .code) (by decide) hcs
  cases hr : Region.after .code cs with
  | code => rfl
  | comment => exact absurd hr hcomment
  | string | escape =>
    rw [hr] at hnesting
    cases hnesting

end CallByNeed
