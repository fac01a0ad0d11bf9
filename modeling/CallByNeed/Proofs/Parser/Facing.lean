/-
  File:      CallByNeed/Proofs/Parser/Facing.lean
  Subject:   What stands in the author's text where a token is read.

  A reading sees the text with its layout blanked. Outside strings, only layout and comments differ
  between the two, and both become spaces; so a token of the blanked text stands in the author's text
  as it is, and what is passed over between two tokens is layout and comments.

  * `Gap`, `Skips` -- layout and comments, and the text behind them;
  * `BracketedAt`, `ParamAt` -- an operator in parentheses and a parameter, in the author's text;
  * `dropSpaces_blankFrom`, `run_blankText`, `blankText_eq_cons`, `blankFrom_eq_string` -- pieces of
    a blanked text, and the pieces they come from;
  * `Faces` -- a cursor in front of a part of the author's text; one law for each kind of token.
-/
import CallByNeed.Proofs.Parser.Language
import CallByNeed.Proofs.Parser.Spots

namespace CallByNeed

/-! ## 1. Pieces of the author's text -/

/-- Layout and comments, up to where code goes on. -/
structure Gap (gap : List Char) : Prop where
  blank : ∀ ch ∈ blankText gap, ch = ' '
  code : Region.after .code gap = .code

/-- `s'` is `s` behind layout and comments. -/
def Skips (s s' : List Char) : Prop := ∃ gap, s = gap ++ s' ∧ Gap gap

/-- An operator in parentheses, perhaps with layout and comments inside. -/
def BracketedAt (op : String) (s s' : List Char) : Prop :=
  ∃ s₁ s₂ s₃, s = '(' :: s₁ ∧ Skips s₁ s₂ ∧ Longest isOperatorChar op s₂ s₃ ∧ Skips s₃ (')' :: s')

/-- The parameter of a lambda, if there is one. -/
def ParamAt (s s' : List Char) : Prop :=
  s = s' ∨ (∃ x, Longest isNameChar x s s') ∨ ∃ op, BracketedAt op s s'

theorem Longest.ne_nil {p : Char → Bool} {x : String} {s s' : List Char} (h : Longest p x s s') :
    s ≠ [] := by
  rintro rfl
  exact h.some h.run.symm

theorem Longest.spelled {p : Char → Bool} {x : String} {s s' : List Char} (h : Longest p x s s') :
    Spelled p x :=
  ⟨h.some, fun _ hch => List.mem_takeWhile_imp (h.run ▸ hch)⟩

theorem ParamAt.ne_nil {s s' : List Char} (h : ParamAt s s') (hne : s' ≠ []) : s ≠ [] := by
  rcases h with rfl | ⟨x, h⟩ | ⟨op, s₁, s₂, s₃, rfl, _⟩
  · exact hne
  · exact h.ne_nil
  · exact List.cons_ne_nil _ _

/-! ## 2. Pieces of a blanked text -/

theorem isPlainChar_of_isDigit {ch : Char} (h : ch.isDigit = true) : isPlainChar ch = true :=
  isPlainChar_of_name (isNameChar_of_isDigit h)

/-- A plain character stays, and code goes on behind it. -/
theorem blankText_plain {ch : Char} (h : isPlainChar ch = true) (s : List Char) :
    blankText (ch :: s) = ch :: blankText s := by
  obtain ⟨hlayout, hhash, hquote⟩ := isPlainChar_iff.mp h
  simp [blankText, Region.blanked, Region.step, hlayout, hhash, hquote]

/-- What is left of a character of code is the character, or a space. -/
theorem blanked_code (ch : Char) :
    Region.blanked .code ch = [ch] ∨ (Region.blanked .code ch = [' '] ∧
      (Region.step .code ch = .code ∨ Region.step .code ch = .comment)) := by
  by_cases h : isLayoutChar ch || ch == '#'
  · refine .inr ⟨if_pos h, ?_⟩
    have hquote : ch ≠ '"' := by
      rintro rfl
      revert h
      decide
    simp only [Region.step, if_neg hquote]
    split
    · exact .inr rfl
    · exact .inl rfl
  · exact .inl (if_neg h)

/-- **What a blanked text begins with, the text begins with**, unless it is a space. -/
theorem blankText_eq_cons {ch : Char} {s rest : List Char} (hch : ch ≠ ' ')
    (h : blankText s = ch :: rest) :
    ∃ s', s = ch :: s' ∧ rest = blankFrom (Region.step .code ch) s' := by
  cases s with
  | nil => cases h
  | cons d s =>
    rw [blankText, blankFrom_cons] at h
    rcases blanked_code d with hd | ⟨hd, _⟩
    · rw [hd] at h
      obtain ⟨rfl, rfl⟩ := List.cons.inj h
      exact ⟨s, rfl, rfl⟩
    · rw [hd] at h
      exact absurd (List.cons.inj h).1.symm hch

/-- **A run of an alphabet is the same in the text.** -/
theorem run_blankText {p : Char → Bool} (hp : ∀ ch, p ch = true → isPlainChar ch = true)
    (hspace : p ' ' = false) (s : List Char) :
    (blankText s).takeWhile p = s.takeWhile p ∧
      (blankText s).dropWhile p = blankText (s.dropWhile p) := by
  induction s with
  | nil => exact ⟨rfl, rfl⟩
  | cons ch s ih =>
    cases hch : p ch with
    | true =>
      rw [blankText_plain (hp ch hch)]
      simpa [hch] using ih
    | false =>
      -- neither the character nor a space in its place belongs to the run
      have hhead : ∀ d ∈ (blankText (ch :: s)).head?, p d = false := by
        intro d hd
        rw [blankText, blankFrom_cons] at hd
        rcases blanked_code ch with hb | ⟨hb, _⟩
        · rw [hb] at hd
          obtain rfl : ch = d := by simpa using hd
          exact hch
        · rw [hb] at hd
          obtain rfl : ' ' = d := by simpa using hd
          exact hspace
      rw [Cursor.takeWhile_of_head hhead, Cursor.dropWhile_of_head hhead]
      simp [hch]

theorem dropSpaces_append {cs : List Char} (h : ∀ ch ∈ cs, ch = ' ') (ds : List Char) :
    dropSpaces (cs ++ ds) = dropSpaces ds := by
  induction cs with
  | nil => rfl
  | cons ch cs ih =>
    rw [h ch List.mem_cons_self]
    exact ih fun d hd => h d (List.mem_cons_of_mem _ hd)

/-- **Spaces come from layout and comments.** The comment may go on up to the end of the text. -/
theorem dropSpaces_blankFrom {r : Region} (hr : r = .code ∨ r = .comment) (s : List Char) :
    ∃ gap s', s = gap ++ s' ∧ (∀ ch ∈ blankFrom r gap, ch = ' ') ∧
      (s' ≠ [] → r.after gap = .code) ∧ dropSpaces (blankFrom r s) = blankText s' := by
  induction s generalizing r with
  | nil => exact ⟨[], [], rfl, nofun, fun h => absurd rfl h, rfl⟩
  | cons d s ih =>
    -- one more character of the gap
    have further (hstep : r.step d = .code ∨ r.step d = .comment)
        (hblank : ∀ ch ∈ r.blanked d, ch = ' ') :
        ∃ gap s', d :: s = gap ++ s' ∧ (∀ ch ∈ blankFrom r gap, ch = ' ') ∧
          (s' ≠ [] → r.after gap = .code) ∧ dropSpaces (blankFrom r (d :: s)) = blankText s' := by
      obtain ⟨gap, s', rfl, hgap, hafter, hdrop⟩ := ih hstep
      refine ⟨d :: gap, s', rfl, ?_, hafter, ?_⟩
      · rw [blankFrom_cons]
        exact fun ch hch => (List.mem_append.mp hch).elim (hblank ch) (hgap ch)
      · rw [blankFrom_cons, dropSpaces_append hblank]
        exact hdrop
    rcases hr with rfl | rfl
    · rcases blanked_code d with hd | ⟨hd, hstep⟩
      · by_cases hspace : d = ' '
        · subst hspace
          exact further (.inl (by decide)) (by rw [hd]; simp)
        · refine ⟨[], d :: s, rfl, nofun, fun _ => rfl, ?_⟩
          rw [blankText, blankFrom_cons, hd]
          exact dropSpaces_cons hspace _
      · exact further hstep (by rw [hd]; simp)
    · refine further ?_ fun ch hch => List.eq_of_mem_replicate hch
      simp only [Region.step]
      split
      · exact .inl rfl
      · exact .inr rfl

/-- **A string comes from a string**, and code goes on behind its closing quote. -/
theorem blankFrom_eq_string {body : List Char} (htext : StringText body) {s rest : List Char}
    (h : blankFrom .string s = body ++ '"' :: rest) :
    ∃ inner s', s = inner ++ '"' :: s' ∧ rest = blankText s' ∧ byteCount inner = byteCount body := by
  -- one character in a string, and what is left of it
  have one {r : Region} (hr : r = .string ∨ r = .escape) {s : List Char} {ch : Char}
      {rest : List Char} (h : blankFrom r s = ch :: rest) :
      ∃ d s', s = d :: s' ∧ rest = blankFrom (r.step d) s' ∧ d.utf8Size = ch.utf8Size ∧
        (d = ch ∨ (ch = ' ' ∧ isLayoutChar d = true)) := by
    cases s with
    | nil => cases h
    | cons d s =>
      have hsize := byteCount_blanked r d
      have hblanked : r.blanked d = if isLayoutChar d then [' '] else [d] := by
        rcases hr with rfl | rfl <;> rfl
      rw [blankFrom_cons] at h
      rw [hblanked] at h hsize
      split at h
      · rename_i hlayout
        obtain ⟨rfl, rfl⟩ := List.cons.inj h
        rw [if_pos hlayout] at hsize
        exact ⟨d, s, rfl, rfl, hsize.symm, .inr ⟨rfl, hlayout⟩⟩
      · obtain ⟨rfl, rfl⟩ := List.cons.inj h
        exact ⟨d, s, rfl, rfl, rfl, .inl rfl⟩
  induction htext generalizing s with
  | nil =>
    obtain ⟨d, s', rfl, rfl, _, rfl | ⟨hspace, _⟩⟩ := one (.inl rfl) h
    · exact ⟨[], s', rfl, rfl, rfl⟩
    · exact absurd hspace (by decide)
  | @escape ch body _ ih =>
    obtain ⟨d, s₁, rfl, h₁, _, rfl | ⟨hspace, _⟩⟩ := one (.inl rfl) h
    · obtain ⟨d, s₂, rfl, h₂, hsize, _⟩ := one (.inr rfl) h₁.symm
      obtain ⟨inner, s', rfl, hrest, hcount⟩ := ih h₂.symm
      exact ⟨'\\' :: d :: inner, s', rfl, hrest, by simp only [byteCount_cons, hsize, hcount]⟩
    · exact absurd hspace (by decide)
  | @plain ch body hquote hslash _ ih =>
    obtain ⟨d, s₁, rfl, h₁, hsize, hd⟩ := one (.inl rfl) h
    have hstep : Region.step .string d = .string := by
      rcases hd with rfl | ⟨_, hlayout⟩
      · simp [Region.step, hquote, hslash]
      · have hdquote : d ≠ '"' := by rintro rfl; revert hlayout; decide
        have hdslash : d ≠ '\\' := by rintro rfl; revert hlayout; decide
        simp [Region.step, hdquote, hdslash]
    rw [hstep] at h₁
    obtain ⟨inner, s', rfl, hrest, hcount⟩ := ih h₁.symm
    exact ⟨d :: inner, s', rfl, hrest, by simp only [byteCount_cons, hsize, hcount]⟩

/-! ## 3. Cursors -/

/-- The cursor stands in front of the part `s` of the author's text. -/
structure Faces (source : Source) (c : Cursor) (s : List Char) : Prop where
  split : ∃ before, source.chars = before ++ s ∧ c.offset = byteCount before
  rest : c.rest = blankText s

namespace Faces

variable {source : Source} {c c' : Cursor} {s : List Char}

theorem moved {s' : List Char} (read : List Char) (h : Faces source c (read ++ s'))
    (hrest : c'.rest = blankText s') (hoffset : c'.offset = c.offset + byteCount read) :
    Faces source c' s' := by
  obtain ⟨⟨before, hchars, hbefore⟩, _⟩ := h
  refine ⟨⟨before ++ read, by rw [hchars, List.append_assoc], ?_⟩, hrest⟩
  rw [hoffset, hbefore, byteCount_append]
  omega

/-- Behind spaces, the cursor stands behind layout and comments. -/
theorem skipSpaces (h : Faces source c s) :
    ∃ s', Faces source c.skipSpaces s' ∧ (s' ≠ [] → Skips s s') := by
  obtain ⟨gap, s', rfl, hblank, hafter, hdrop⟩ := dropSpaces_blankFrom (.inl rfl) s
  have hrest : c.skipSpaces.rest = blankText s' := by
    rw [Cursor.rest_skipSpaces, h.rest]
    exact hdrop
  obtain ⟨read, hpast⟩ := c.skipSpaces_past
  have hoffset : byteCount read = byteCount gap := by
    have hcount := congrArg byteCount hpast.1
    rw [h.rest, hrest, blankText, blankText, byteCount_append, byteCount_blankFrom,
      byteCount_blankFrom, byteCount_append] at hcount
    omega
  exact ⟨s', h.moved _ hrest (by rw [hpast.2, hoffset]), fun hne => ⟨gap, rfl, hblank, hafter hne⟩⟩

theorem run? {p : Char → Bool} (hp : ∀ ch, p ch = true → isPlainChar ch = true)
    (hspace : p ' ' = false) {x : String} (h : Faces source c s) (hx : c.run? p = some (x, c')) :
    ∃ s', Faces source c' s' ∧ Longest p x s s' := by
  obtain ⟨hrun, hrest, hne⟩ := Cursor.run?_longest hx
  obtain ⟨htake, hdrop⟩ := run_blankText hp hspace s
  rw [h.rest, htake] at hrun
  rw [h.rest, hdrop] at hrest
  have hs : s = x.toList ++ s.dropWhile p := by rw [← hrun, List.takeWhile_append_dropWhile]
  rw [hs] at h
  exact ⟨_, h.moved _ hrest.symm (Cursor.run?_eq_some hx).1.2, hrun, rfl, hne⟩

theorem operator? {x : String} (h : Faces source c s) (hx : c.operator? = some (x, c')) :
    ∃ s', Faces source c' s' ∧ Longest isOperatorChar x s s' :=
  h.run? (fun _ => isPlainChar_of_operator) (by decide) hx

theorem word? {x : String} (h : Faces source c s) (hx : c.word? = some (x, c')) :
    ∃ s', Faces source c' s' ∧ Longest isNameChar x s s' :=
  h.run? (fun _ => isPlainChar_of_name) (by decide) hx

theorem eat? {ch : Char} (hplain : isPlainChar ch = true) (hspace : ch ≠ ' ')
    (h : Faces source c s) (he : c.eat? ch = some c') : ∃ s', Faces source c' s' ∧ s = ch :: s' := by
  obtain ⟨hhead, hoffset⟩ := Cursor.eat?_eq_some.mp he
  rw [h.rest] at hhead
  obtain ⟨s', rfl, hrest⟩ := blankText_eq_cons hspace hhead
  obtain ⟨_, hhash, hquote⟩ := isPlainChar_iff.mp hplain
  have hstep : Region.step .code ch = .code := by simp [Region.step, hhash, hquote]
  rw [hstep] at hrest
  exact ⟨s', h.moved [ch] hrest hoffset, rfl⟩

/-- A string, from its first quote on. -/
theorem string {b : Cursor} {body : List Char} (h : Faces source c s) (hq : c.eat? '"' = some b)
    (hs : b.stringBody = .ok (body, c')) : ∃ s', Faces source c' s' ∧ ∃ s₁, s = '"' :: s₁ := by
  obtain ⟨htext, hpast⟩ := Cursor.stringBody_eq_ok hs
  obtain ⟨hrest, hoffset⟩ := Cursor.eat?_eq_some.mp hq
  rw [h.rest] at hrest
  obtain ⟨s₁, rfl, hb⟩ := blankText_eq_cons (by decide) hrest
  have hstring : blankFrom .string s₁ = body ++ '"' :: c'.rest := by
    have hbody := hpast.1
    rw [List.append_assoc] at hbody
    exact hb.symm.trans hbody
  obtain ⟨inner, s', rfl, hrest', hcount⟩ := blankFrom_eq_string htext hstring
  have hwhole : Faces source c (('"' :: (inner ++ ['"'])) ++ s') := by simpa using h
  refine ⟨s', hwhole.moved _ hrest' ?_, _, rfl⟩
  rw [hpast.2, hoffset]
  simp only [byteCount_append, byteCount_cons, byteCount_nil, hcount]
  omega

theorem sign (h : Faces source c s) : ∃ s', Faces source c.sign.2 s' ∧ s = c.sign.1 ++ s' := by
  obtain ⟨hsign, hrest⟩ := c.sign_cases
  have one {ch : Char} (hch : c.sign.1 = [ch]) (hplain : isPlainChar ch = true) (hspace : ch ≠ ' ') :
      ∃ s', Faces source c.sign.2 s' ∧ s = c.sign.1 ++ s' := by
    have hpast := c.sign_past
    rw [hch] at hpast
    rw [hch]
    exact h.eat? hplain hspace (Cursor.eat?_eq_some.mpr hpast)
  rcases hsign with hnone | hplus | hminus
  · have hoffset := c.sign_past.2
    rw [hnone] at hrest hoffset
    rw [hnone]
    exact ⟨s, h.moved [] (hrest.symm.trans h.rest) hoffset, rfl⟩
  · exact one hplus (by decide) (by decide)
  · exact one hminus (by decide) (by decide)

theorem numeral? {numeral : List Char} (h : Faces source c s)
    (hn : c.numeral? = some (numeral, c')) :
    ∃ s', Faces source c' s' ∧ ∃ sign s₁ digits, IsSign sign ∧ s = sign ++ s₁ ∧
      Longest Char.isDigit digits s₁ s' ∧ numeral = sign ++ digits.toList := by
  obtain ⟨s₁, hfaces, hs⟩ := h.sign
  rw [Cursor.numeral?_eq] at hn
  split at hn
  · cases hn
  · rename_i hne
    cases hn
    have hrun : c.sign.2.run? Char.isDigit =
        some (String.ofList (c.sign.2.span Char.isDigit).1, (c.sign.2.span Char.isDigit).2) := by
      rw [Cursor.run?_eq, if_neg hne]
    obtain ⟨s', hfaces', hlongest⟩ := hfaces.run? (fun _ => isPlainChar_of_isDigit) (by decide) hrun
    exact ⟨s', hfaces', _, s₁, _, c.sign_cases.1, hs, hlongest, by simp⟩

theorem bracketedOperator? {op : String} (h : Faces source c s)
    (hop : c.bracketedOperator? = some (op, c')) :
    ∃ s', Faces source c' s' ∧ BracketedAt op s s' := by
  simp only [Cursor.bracketedOperator?, Option.bind_eq_bind, Option.bind_eq_some_iff] at hop
  obtain ⟨inner, hopen, ⟨x, behind⟩, hrun, after, hclose, hr⟩ := hop
  cases hr
  obtain ⟨s₁, h₁, hs⟩ := h.eat? (by decide) (by decide) hopen
  obtain ⟨s₂, h₂, hgap⟩ := h₁.skipSpaces
  obtain ⟨s₃, h₃, hlongest⟩ := h₂.operator? hrun
  obtain ⟨s₄, h₄, hgap'⟩ := h₃.skipSpaces
  obtain ⟨s', h', rfl⟩ := h₄.eat? (by decide) (by decide) hclose
  exact ⟨s', h', s₁, s₂, s₃, hs, hgap hlongest.ne_nil, hlongest, hgap' (by simp)⟩

theorem param (h : Faces source c s) :
    ∃ s', Faces source (Reading.param c).2 s' ∧ ParamAt s s' := by
  unfold Reading.param
  cases hop : c.bracketedOperator? with
  | some t =>
    obtain ⟨s', h', hbracketed⟩ := h.bracketedOperator? hop
    exact ⟨s', h', .inr (.inr ⟨_, hbracketed⟩)⟩
  | none =>
    cases hw : c.word? with
    | some t =>
      obtain ⟨s', h', hword⟩ := h.word? hw
      exact ⟨s', h', .inr (.inl ⟨_, hword⟩)⟩
    | none => exact ⟨s, h, .inl rfl⟩

/-- What stands between a backslash and the dot or operator behind its parameter. -/
theorem binder (h : Faces source c s) :
    ∃ s', Faces source (Reading.param c.skipSpaces).2.skipSpaces s' ∧
      (s' ≠ [] → ∃ s₁ s₂, Skips s s₁ ∧ ParamAt s₁ s₂ ∧ Skips s₂ s') := by
  obtain ⟨s₁, h₁, hgap₁⟩ := h.skipSpaces
  obtain ⟨s₂, h₂, hparam⟩ := h₁.param
  obtain ⟨s', h', hgap₂⟩ := h₂.skipSpaces
  refine ⟨s', h', fun hne => ?_⟩
  have hskips := hgap₂ hne
  have hne₂ : s₂ ≠ [] := by
    obtain ⟨gap, rfl, _⟩ := hskips
    exact List.append_ne_nil_of_right_ne_nil _ hne
  exact ⟨s₁, s₂, hgap₁ (hparam.ne_nil hne₂), hparam, hskips⟩

end Faces

end CallByNeed
