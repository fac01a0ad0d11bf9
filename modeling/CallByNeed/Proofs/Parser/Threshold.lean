/-
  File:      CallByNeed/Proofs/Parser/Threshold.lean
  Subject:   The levels that a program needs.

  A reading that is out of levels failed in a line with none left, and each line on the way there
  begins further on in the text. So every text has levels enough, and from the first limit that is
  enough on the limit plays no part. A definition costs three levels for what stands under it, and
  one for its body.

  * `Reading.term?_tooDeep`, `Reading.line_tooDeep` -- where the levels give out, step by step;
  * `Threshold`, `exists_threshold`, `threshold_of_edge` -- the first limit that is enough;
  * `Reading.Needs`, `Reading.needs_of_threshold`, `Reading.needs_layer` -- the levels of a line, of a
    program that stands in parentheses, and of a layer around it;
  * `wrappedLevels`, `threshold_wrapped` -- all layers;
  * `parse_threshold` -- programs with and without definitions.
-/
import CallByNeed.Proofs.Parser.Containment
import Mathlib.Data.Nat.Find

namespace CallByNeed

/-! ## 1. Where the levels give out -/

namespace Reading

variable {r : Reading} {line : LineReader} {term : TermReader} {c : Cursor} {l : Nat} {p : Pos}

theorem lineOr_tooDeep {x : Expectation} (h : r.lineOr line c x = .error ⟨.tooDeep l, p⟩) :
    line c = .error ⟨.tooDeep l, p⟩ := by
  rw [lineOr, bind_eq_error] at h
  rcases h with h | ⟨⟨o, c₁⟩, _, h⟩
  · exact h
  · cases o <;> cases h

theorem punctuation_not_tooDeep {ch : Char} {x : Expectation} :
    r.punctuation c ch x ≠ .error ⟨.tooDeep l, p⟩ := by
  intro h
  rw [punctuation] at h
  split at h <;> cases h

theorem group_tooDeep (h : r.group line c = .error ⟨.tooDeep l, p⟩) :
    line c = .error ⟨.tooDeep l, p⟩ := by
  simp only [group, bind_eq_error] at h
  rcases h with h | ⟨t, _, h | ⟨c₁, _, h⟩⟩
  · exact lineOr_tooDeep h
  · exact absurd h punctuation_not_tooDeep
  · cases h

theorem lambda_tooDeep {start : Pos} (hline : LineReader.Advances line)
    (h : r.lambda line start c = .error ⟨.tooDeep l, p⟩) :
    ∃ c₁ read, c.Past read c₁ ∧ line c₁ = .error ⟨.tooDeep l, p⟩ := by
  obtain ⟨blanks, hblanks⟩ := c.skipSpaces_past
  obtain ⟨name, hname⟩ := param_past c.skipSpaces
  obtain ⟨blanks', hblanks'⟩ := (param c.skipSpaces).2.skipSpaces_past
  have hhead := hblanks.trans (hname.trans hblanks')
  simp only [lambda] at h
  split at h
  · rename_i c₁ hdot
    simp only [bind_eq_error] at h
    rcases h with h | ⟨t, _, h⟩
    · exact ⟨c₁, _, hhead.trans (Cursor.eat?_eq_some.mp hdot), lineOr_tooDeep h⟩
    · cases h
  · split at h
    · cases h
    · rename_i op c₁ hop
      have hvalue := hhead.trans (Cursor.run?_eq_some hop).1
      simp only [bind_eq_error] at h
      rcases h with h | ⟨⟨value, c₂⟩, hread, h | ⟨c₃, hsemi, h | ⟨t, _, h⟩⟩⟩
      · exact ⟨c₁, _, hvalue, lineOr_tooDeep h⟩
      · exact absurd h punctuation_not_tooDeep
      · obtain ⟨read, hpast⟩ := hline _ _ _ (lineOr_eq_ok.mp hread)
        obtain ⟨blanks'', hblanks''⟩ := c₂.skipSpaces_past
        have hsemi := Cursor.eat?_eq_some.mp (punctuation_eq_ok.mp hsemi)
        exact ⟨c₃, _, hvalue.trans (hpast.trans (hblanks''.trans hsemi)), lineOr_tooDeep h⟩
      · cases h

/-- **A term that is out of levels is so in a line further on.** -/
theorem term?_tooDeep (hline : LineReader.Advances line)
    (h : r.term? line c = .error ⟨.tooDeep l, p⟩) :
    ∃ c₁ : Cursor, c₁.rest.length < c.rest.length ∧ line c₁ = .error ⟨.tooDeep l, p⟩ := by
  cases ho : c.eat? '(' with
  | some c₁ =>
    rw [term?_open ho] at h
    split at h
    · cases h
    · exact ⟨c₁, (Cursor.eat?_eq_some.mp ho).length_lt (by simp), group_tooDeep h⟩
  | none =>
  cases ha : c.eat? '@' with
  | some c₁ =>
    rw [term?_at ha, builtin] at h
    split at h <;> cases h
  | none =>
  cases hb : c.eat? '\\' with
  | some c₁ =>
    rw [term?_backslash hb] at h
    obtain ⟨c₂, read, hpast, hdeep⟩ := lambda_tooDeep hline h
    exact ⟨c₂, ((Cursor.eat?_eq_some.mp hb).trans hpast).length_lt (by simp), hdeep⟩
  | none =>
  cases hq : c.eat? '"' with
  | some c₁ =>
    rw [term?_quote hq, string] at h
    split at h <;> cases h
  | none =>
    rw [term?_plain ho ha hb hq, plain] at h
    repeat' split at h
    all_goals cases h

theorem operands_tooDeep (hterm : TermReader.Advances term) {chars : List Char}
    {done : List (Joint × Expr)} (h : r.operands term chars done c = .error ⟨.tooDeep l, p⟩) :
    ∃ c₁ read, c.Past read c₁ ∧ term c₁ = .error ⟨.tooDeep l, p⟩ := by
  induction chars generalizing done c with
  | nil => cases h
  | cons _ chars ih =>
    obtain ⟨read, hread⟩ := r.operand_past c
    simp only [operands] at h
    split at h
    · rename_i ht
      cases h
      exact ⟨_, read, hread, ht⟩
    · rename_i operand c₁ ht
      obtain ⟨read₁, _, hread₁⟩ := hterm _ _ _ ht
      obtain ⟨c₂, read₂, hread₂, hdeep⟩ := ih h
      exact ⟨c₂, _, hread.trans (hread₁.trans hread₂), hdeep⟩
    · split at h <;> cases h

theorem flatLine_tooDeep (hterm : TermReader.Advances term)
    (h : r.flatLine term c = .error ⟨.tooDeep l, p⟩) :
    ∃ c₁ read, c.Past read c₁ ∧ term c₁ = .error ⟨.tooDeep l, p⟩ := by
  obtain ⟨blanks, hblanks⟩ := c.skipSpaces_past
  simp only [flatLine, bind_eq_error] at h
  rcases h with h | ⟨first, hfirst, h | ⟨t, _, h⟩⟩
  · exact ⟨_, blanks, hblanks, h⟩
  · obtain ⟨c₁, read, hread, hdeep⟩ := operands_tooDeep hterm h
    cases first with
    | none => exact ⟨c₁, _, hblanks.trans hread, hdeep⟩
    | some t =>
      obtain ⟨read₁, _, hread₁⟩ := hterm _ _ _ hfirst
      exact ⟨c₁, _, hblanks.trans (hread₁.trans hread), hdeep⟩
  · cases h

/-- **A line that is out of levels names its limit, and has more characters than levels.** -/
theorem line_tooDeep {n : Nat} (h : r.line n c = .error ⟨.tooDeep l, p⟩) :
    l = r.limit ∧ n ≤ c.rest.length := by
  induction n generalizing c with
  | zero =>
    cases h
    exact ⟨rfl, Nat.zero_le _⟩
  | succ n ih =>
    rw [line, bind_eq_error] at h
    rcases h with h | ⟨t, _, h⟩
    · obtain ⟨c₁, read, hread, hterm⟩ := flatLine_tooDeep (term?_advances (r.line_advances n)) h
      obtain ⟨c₂, hlt, hline⟩ := term?_tooDeep (r.line_advances n) hterm
      obtain ⟨hlimit, hle⟩ := ih hline
      have hlength := congrArg List.length hread.1
      rw [List.length_append] at hlength
      exact ⟨hlimit, by omega⟩
    · cases h

end Reading

/-! ## 2. The first limit that is enough -/

/-- `t` is the first limit that is enough for a program under its definitions: with less, the reading
    is out of levels; from there on it always gives `result`. -/
structure Threshold (source : Source) (defs : List Definition) (t : Nat) (result : Parsed Expr) :
    Prop where
  refused : ∀ d < t, ∃ p, parse source defs d = .error ⟨.tooDeep d, p⟩
  settled : ∀ d, t ≤ d → parse source defs d = result
  within : ¬ result.TooDeep

theorem Reading.whole_tooDeep {r : Reading} {c : Cursor} {l : Nat} {p : Pos} :
    r.whole c = .error ⟨.tooDeep l, p⟩ ↔ r.line r.limit c = .error ⟨.tooDeep l, p⟩ := by
  rw [whole, bind_eq_error]
  constructor
  · rintro (h | ⟨t, _, h⟩)
    · exact h
    · dsimp only at h
      split at h <;> cases h
  · exact .inl

theorem Reading.whole_limits (source : Source) (d k : Nat) (c : Cursor) :
    (⟨source, d + k⟩ : Reading).whole c = (⟨source, d⟩ : Reading).whole c ∨
      ((⟨source, d⟩ : Reading).whole c).TooDeep := by
  rcases line_limits source d (d + k) d k c with heq | ⟨l, p, hdeep⟩
  · left
    rw [whole, whole, heq]
    rfl
  · exact .inr ⟨l, p, whole_tooDeep.mpr hdeep⟩

section Limits

variable {source : Source} {defs : List Definition}

/-- A program is refused before any level is used, or read as one text. -/
theorem parse_cases (source : Source) (defs : List Definition) :
    (∃ result : Parsed Expr, ¬ result.TooDeep ∧ ∀ d, parse source defs d = result) ∨
      ∃ c : Cursor, c.rest = (prepare source.chars defs).text ∧
        ∀ d, parse source defs d = (⟨source, d⟩ : Reading).whole c := by
  cases defs with
  | nil =>
    refine .inr ⟨_, ?_, parse_nil source⟩
    simp [prepare, opening, closing, Prepared.text, blankText]
  | cons d ds =>
    cases hscan : (⟨source, 0⟩ : Reading).balanced (blankText source.chars) with
    | ok u =>
      refine .inr ⟨⟨(prepare source.chars (d :: ds)).text,
        -((prepare source.chars (d :: ds)).offset : Int)⟩, rfl, fun depth => ?_⟩
      rw [parse_cons, show (⟨source, depth⟩ : Reading).balanced _ = .ok u from hscan]
      rfl
    | error e =>
      refine .inl ⟨.error e, ?_, fun depth => ?_⟩
      · rintro ⟨l, p, ⟨⟩⟩
        unfold Reading.balanced at hscan
        split at hscan <;> cases hscan
      · rw [parse_cons, show (⟨source, depth⟩ : Reading).balanced _ = .error e from hscan]
        rfl

/-- A program that stays within its levels does not see how many there are. -/
theorem parse_limits (source : Source) (defs : List Definition) (d k : Nat) :
    parse source defs (d + k) = parse source defs d ∨ (parse source defs d).TooDeep := by
  rcases parse_cases source defs with ⟨result, _, h⟩ | ⟨c, _, h⟩
  · rw [h, h]
    exact .inl rfl
  · rw [h, h]
    exact Reading.whole_limits source d k c

/-- Where the levels give out, the fault names the limit. -/
theorem parse_tooDeep {d : Nat} (h : (parse source defs d).TooDeep) :
    ∃ p, parse source defs d = .error ⟨.tooDeep d, p⟩ := by
  obtain ⟨l, p, h⟩ := h
  rcases parse_cases source defs with ⟨result, hwithin, hresult⟩ | ⟨c, _, hwhole⟩
  · exact absurd ⟨l, p, (hresult d).symm.trans h⟩ hwithin
  · have hline := Reading.whole_tooDeep.mp ((hwhole d).symm.trans h)
    obtain ⟨rfl, _⟩ := Reading.line_tooDeep hline
    exact ⟨p, h⟩

/-- More levels than characters are enough. -/
theorem enough_of_length_lt {d : Nat} (h : (prepare source.chars defs).text.length < d) :
    ¬ (parse source defs d).TooDeep := by
  rcases parse_cases source defs with ⟨result, hwithin, hresult⟩ | ⟨c, hrest, hwhole⟩
  · exact hresult d ▸ hwithin
  · rintro ⟨l, p, hdeep⟩
    have hline := Reading.whole_tooDeep.mp ((hwhole _).symm.trans hdeep)
    have hle : d ≤ c.rest.length := (Reading.line_tooDeep hline).2
    rw [hrest] at hle
    omega

/-- **A limit that is enough, where one less is not, is the threshold.** -/
theorem threshold_of_edge {t : Nat} (hwithin : ¬ (parse source defs t).TooDeep)
    (hedge : ∀ d, d + 1 = t → (parse source defs d).TooDeep) :
    Threshold source defs t (parse source defs t) where
  refused d hd := by
    obtain ⟨k, rfl⟩ : ∃ k, t = d + k + 1 := ⟨t - d - 1, by omega⟩
    refine parse_tooDeep ?_
    rcases parse_limits source defs d k with heq | hdeep
    · exact heq ▸ hedge (d + k) rfl
    · exact hdeep
  settled d hd := by
    obtain ⟨k, rfl⟩ := Nat.le.dest hd
    exact (parse_limits source defs t k).resolve_right hwithin
  within := hwithin

/-- **Every program has a threshold.** -/
theorem exists_threshold (source : Source) (defs : List Definition) :
    ∃ t result, Threshold source defs t result := by
  classical
  have hfirst : ∃ d, ¬ (parse source defs d).TooDeep := ⟨_, enough_of_length_lt (Nat.lt_succ_self _)⟩
  refine ⟨Nat.find hfirst, _, threshold_of_edge (Nat.find_spec hfirst) fun d hd => ?_⟩
  exact not_not.mp (Nat.find_min hfirst (by omega))

/-- It has only one. -/
theorem Threshold.unique {t t' : Nat} {result result' : Parsed Expr}
    (h : Threshold source defs t result) (h' : Threshold source defs t' result') : t = t' := by
  have hle {t t' : Nat} {result result' : Parsed Expr} (h : Threshold source defs t result)
      (h' : Threshold source defs t' result') : t' ≤ t := by
    by_contra hlt
    obtain ⟨p, hdeep⟩ := h'.refused t (by omega)
    exact h.within ⟨t, p, (h.settled t (Nat.le_refl t)).symm.trans hdeep⟩
  exact Nat.le_antisymm (hle h' h) (hle h h')

end Limits

/-! ## 3. The levels of a layer -/

/-- A line at `c` needs `t` levels. With them it goes up to `rest`. -/
structure Reading.Needs (r : Reading) (c : Cursor) (rest : List Char) (t : Nat) : Prop where
  deep : ∀ n < t, (r.line n c).TooDeep
  read : ∀ n, t ≤ n → ∃ e o, r.line n c = .ok (some e, ⟨rest, o⟩)

namespace Reading

variable {r : Reading} {c : Cursor} {rest : List Char} {t : Nat}

theorem needs_of_edge (hread : ∃ e o, r.line t c = .ok (some e, ⟨rest, o⟩))
    (hedge : ∀ n, n + 1 = t → (r.line n c).TooDeep) : r.Needs c rest t where
  deep n hn := by
    obtain ⟨k, rfl⟩ : ∃ k, t = n + k + 1 := ⟨t - n - 1, by omega⟩
    rcases r.line_deeper n k c with heq | hdeep
    · exact heq ▸ hedge (n + k) rfl
    · exact hdeep
  read n hn := by
    obtain ⟨e, o, hline⟩ := hread
    obtain ⟨k, rfl⟩ := Nat.le.dest hn
    rcases r.line_deeper t k c with heq | ⟨l, p, hdeep⟩
    · exact ⟨e, o, heq.trans hline⟩
    · cases hline.symm.trans hdeep

theorem Needs.pos (h : r.Needs c rest t) : 0 < t := by
  rcases Nat.eq_zero_or_pos t with rfl | hpos
  · obtain ⟨e, o, hline⟩ := h.read 0 (Nat.le_refl 0)
    cases hline
  · exact hpos

/-- Parentheses around a line that ends there are no operator's name. -/
theorem Needs.bracketedOperator? {cs : List Char} {o : Int} (h : r.Needs ⟨cs, o + 1⟩ rest t) :
    (⟨'(' :: cs, o⟩ : Cursor).bracketedOperator? = none := by
  obtain ⟨e, o', hline⟩ := h.read t (Nat.le_refl t)
  exact bracketedOperator?_of_line (Cursor.eat?_cons (by decide) o) hline

/-- A text is out of levels wherever it is put in front of a parenthesis, or nowhere. -/
theorem line_elsewhere_tooDeep {size d n : Nat} (h : Within size d c) (hdeep : (r.line n c).TooDeep)
    (r' : Reading) (more : List Char) (shift : Int) :
    (r'.line n (c.placed (')' :: more) shift)).TooDeep := by
  have hK : InStep (.placed size more shift (fun p => ⟨r'.source, p.offset + shift⟩)
      fun e e' => (∃ l, e.fault = .tooDeep l) → ∃ l, e'.fault = .tooDeep l) r r' 0 :=
    placed_inStep (fun _ => rfl) (fun _ _ _ _ _ => by rintro ⟨l, ⟨⟩⟩)
      (fun _ _ f _ hf => by rintro ⟨l, rfl⟩; rcases hf with hf | ⟨t, hf⟩ <;> cases hf)
      fun _ _ _ _ => ⟨_, rfl⟩
  obtain ⟨l, p, hdeep⟩ := hdeep
  have hout := hK.line n d c _ ⟨rfl, h⟩
  rw [Nat.add_zero, hdeep] at hout
  revert hout
  generalize r'.line n (c.placed (')' :: more) shift) = y
  intro hout
  cases hout with
  | @error _ e' he =>
    obtain ⟨l', hfault⟩ := he ⟨l, rfl⟩
    exact ⟨l', e'.pos, by rw [← hfault]⟩
  | waived he => exact he.elim

/-- **A program needs as many levels in parentheses, wherever they stand, as it needs alone.** -/
theorem needs_of_threshold {source : Source} {u : Expr} (h : Threshold source [] t (.ok u))
    (r : Reading) (rest : List Char) (o : Int) :
    r.Needs ⟨blankText source.chars ++ ')' :: rest, o⟩ (')' :: rest) t := by
  have hparse := h.settled t (Nat.le_refl t)
  rw [parse_nil] at hparse
  have hwithin := within_program (balanced_of_whole hparse)
  have hplaced : (⟨blankText source.chars, 0⟩ : Cursor).placed (')' :: rest) o =
      ⟨blankText source.chars ++ ')' :: rest, o⟩ := by
    rw [Cursor.placed, Int.zero_add]
  refine needs_of_edge ?_ fun n hn => ?_
  · obtain ⟨c', hline, hrest⟩ := whole_eq_ok.mp hparse
    rw [line_skipSpaces hline] at hrest
    obtain ⟨e, hread, _⟩ := line_elsewhere hwithin hline r rest o
    rw [hplaced, Cursor.placed, hrest, List.nil_append] at hread
    exact ⟨e, _, hread⟩
  · obtain ⟨p, hdeep⟩ := h.refused n (by omega)
    rw [parse_nil] at hdeep
    rw [← hplaced]
    exact line_elsewhere_tooDeep hwithin ⟨n, p, whole_tooDeep.mp hdeep⟩ r rest o

/-- **A layer needs three levels more than its inside, and one more than its body.** -/
theorem needs_layer {x : String} (hx : ParamName x) {inner body : List Char} {b : Nat} {o : Int}
    (hstop : Stops rest)
    (hinner : r.Needs ⟨inner ++ ')' :: behind body rest, layerInside x o + 1⟩
      (')' :: behind body rest) t)
    (hbody : ∀ o, r.Needs ⟨body ++ ')' :: rest, o⟩ (')' :: rest) b) :
    r.Needs ⟨layer x inner body rest, o⟩ rest (max (3 + t) (1 + b)) := by
  have hpos := hinner.pos
  have hread {m : Nat} (hm : t ≤ m) : ∃ u o₁, r.term? (r.line m)
      ⟨'(' :: (inner ++ ')' :: behind body rest), layerInside x o⟩ =
        .ok (some (u, ⟨behind body rest, o₁⟩)) := by
    obtain ⟨u, o₁, hline⟩ := hinner.read m hm
    exact ⟨u, _, term?_group hline⟩
  refine needs_of_edge ?_ fun n hn => ?_
  · obtain ⟨m, hm⟩ : ∃ m, max (3 + t) (1 + b) = m + 3 := ⟨max (3 + t) (1 + b) - 3, by omega⟩
    obtain ⟨u, o₁, hterm⟩ := hread (m := m) (by omega)
    obtain ⟨e, o₂, hline⟩ := (hbody (o₁ + 1 + 1)).read (m + 2) (by omega)
    rw [hm]
    exact ⟨_, _, line_layer hx hstop hterm hline⟩
  · obtain ⟨m, rfl⟩ : ∃ m, n = m + 3 := ⟨n - 3, by omega⟩
    rcases Nat.lt_or_ge m t with hlt | hle
    · -- the inside is out of levels
      obtain ⟨l, p, hdeep⟩ := hinner.deep m hlt
      exact ⟨l, p, line_layer_error hx (term?_group_error hinner.bracketedOperator? hdeep)⟩
    · -- the inside is read, so it is the body
      obtain ⟨u, o₁, hterm⟩ := hread hle
      obtain ⟨l, p, hdeep⟩ := (hbody (o₁ + 1 + 1)).deep (m + 2) (by omega)
      exact ⟨l, p, line_layer_body_error hx hterm (hbody _).bracketedOperator? hdeep⟩

end Reading

/-! ## 4. All layers -/

/-- The levels that a program needs under definitions, if alone it needs `t` and their bodies need
    `bs`, outermost first: the most of what the program needs, three levels further in for each
    definition, and what each body needs. -/
def wrappedLevels (t : Nat) (bs : List Nat) : Nat :=
  (bs.mapIdx fun i b => 3 * i + 1 + b).foldr max (3 * bs.length + t)

theorem wrappedLevels_nil (t : Nat) : wrappedLevels t [] = t := by
  rw [wrappedLevels, List.mapIdx_nil, List.foldr_nil, List.length_nil, Nat.mul_zero, Nat.zero_add]

theorem wrappedLevels_cons (t b : Nat) (bs : List Nat) :
    wrappedLevels t (b :: bs) = max (3 + wrappedLevels t bs) (1 + b) := by
  have further (ns : List Nat) (x : Nat) :
      (ns.map (3 + ·)).foldr max (3 + x) = 3 + ns.foldr max x := by
    induction ns with
    | nil => rfl
    | cons n ns ih =>
      rw [List.map_cons, List.foldr_cons, List.foldr_cons, ih]
      omega
  have hshift : (bs.mapIdx fun i b => 3 * (i + 1) + 1 + b) =
      (bs.mapIdx fun i b => 3 * i + 1 + b).map (3 + ·) := by
    refine List.ext_getElem (by simp) fun i _ _ => ?_
    simp only [List.getElem_mapIdx, List.getElem_map]
    omega
  have hstart : 3 * (b :: bs).length + t = 3 + (3 * bs.length + t) := by
    rw [List.length_cons]
    omega
  rw [wrappedLevels, List.mapIdx_cons, List.foldr_cons, hshift, hstart, further, ← wrappedLevels]
  omega

/-- The definition is named, and its body has no comment and needs `b` levels. -/
def Definition.Needs (d : Definition) (b : Nat) : Prop :=
  d.Named ∧ '#' ∉ d.body.toList ∧ ∃ name e, Threshold ⟨name, d.body⟩ [] b (.ok e)

theorem Definition.Needs.proper {d : Definition} {b : Nat} (h : d.Needs b) : d.Proper := by
  obtain ⟨⟨x, hx, hname⟩, hcomment, name, e, hbody⟩ := h
  exact ⟨⟨x, e, hx, hname, name, b, hbody.settled b (Nat.le_refl b)⟩, hcomment⟩

namespace Reading

variable {r : Reading} {program : List Char} {t : Nat}

/-- One more definition around a text. -/
theorem needs_definition {d : Definition} {b : Nat} (hd : d.Needs b) {ds : List Definition}
    (hinner : ∀ more, r.Needs ⟨wrapText ds program ++ ')' :: more, -(byteCount (opening ds) : Int)⟩
      (')' :: more) t) {rest : List Char} (hstop : Stops rest) :
    r.Needs ⟨wrapText (d :: ds) program ++ rest, -(byteCount (opening (d :: ds)) : Int)⟩ rest
      (max (3 + t) (1 + b)) := by
  obtain ⟨⟨x, hx, hname⟩, _, name, e, hbody⟩ := hd
  rw [wrapText_cons hname]
  refine needs_layer hx hstop ?_ fun o => needs_of_threshold hbody r rest o
  rw [layerInside_opening hname, Int.sub_add_cancel]
  exact hinner _

/-- **The levels of a program under definitions.** -/
theorem needs_wrapped (hcore : ∀ more, r.Needs ⟨program ++ ')' :: more, 0⟩ (')' :: more) t)
    {defs : List Definition} {bs : List Nat} (hdefs : List.Forall₂ Definition.Needs defs bs)
    (more : List Char) :
    r.Needs ⟨wrapText defs program ++ ')' :: more, -(byteCount (opening defs) : Int)⟩ (')' :: more)
      (wrappedLevels t bs) := by
  induction hdefs generalizing more with
  | nil =>
    rw [wrappedLevels_nil]
    exact hcore more
  | cons hd _ ih =>
    rw [wrappedLevels_cons]
    exact needs_definition hd ih (Stops.close more)

end Reading

/-- **The levels that a definition costs.** A program that needs `t` levels alone needs three more for
    each definition around it, or as many as the bodies need where they stand. -/
theorem threshold_wrapped {source : Source} {defs : List Definition} {bs : List Nat} {t : Nat}
    {u : Expr} (h : Threshold source [] t (.ok u)) (hdefs : List.Forall₂ Definition.Needs defs bs) :
    ∃ e, Threshold source defs (wrappedLevels t bs) (.ok e) := by
  have hproper := ((List.forall₂_and_left _ _).mp (hdefs.imp fun d b hd => ⟨hd.proper, hd⟩)).1
  cases hdefs with
  | nil =>
    refine ⟨u, ?_⟩
    rw [wrappedLevels_nil]
    exact h
  | @cons d b ds bs hd hds =>
    have hbal := balanced_of_whole (parse_nil source t ▸ h.settled t (Nat.le_refl t))
    have hlayers (depth : Nat) : parse source (d :: ds) depth = _ :=
      parse_layers hproper (List.cons_ne_nil d ds) hbal
    have hneeds (depth : Nat) := Reading.needs_definition hd
      (Reading.needs_wrapped (Reading.needs_of_threshold h ⟨source, depth⟩ · 0) hds) Stops.nil
    simp only [← wrappedLevels_cons, List.append_nil] at hneeds
    obtain ⟨e, o, hline⟩ := (hneeds _).read _ (Nat.le_refl _)
    have hread : parse source (d :: ds) (wrappedLevels t (b :: bs)) = .ok e :=
      (hlayers _).trans (Reading.whole_eq_ok.mpr ⟨_, hline, rfl⟩)
    refine ⟨e, hread ▸ threshold_of_edge ?_ fun depth hdepth => ?_⟩
    · rintro ⟨l, p, hdeep⟩
      cases hread.symm.trans hdeep
    · obtain ⟨l, p, hdeep⟩ := (hneeds depth).deep depth (by omega)
      exact ⟨l, p, (hlayers depth).trans (Reading.whole_tooDeep.mpr hdeep)⟩

/-! ## 5. Programs -/

/-- **The limit on levels is a threshold, and definitions cost a known part of it.** For every program
    and all definitions there is one limit below which the reading is out of levels, and from which
    on the limit plays no part. A definition costs three levels for everything under it, and one for
    its body. -/
theorem parse_threshold :
    (∀ source defs, ∃! t, ∃ result, Threshold source defs t result) ∧
    ∀ source defs t u bs, Threshold source [] t (.ok u) → List.Forall₂ Definition.Needs defs bs →
      ∃ e, Threshold source defs (wrappedLevels t bs) (.ok e) := by
  refine ⟨fun source defs => ?_, fun source defs t u bs h hdefs => threshold_wrapped h hdefs⟩
  obtain ⟨t, result, h⟩ := exists_threshold source defs
  exact ⟨t, ⟨result, h⟩, fun t' ⟨result', h'⟩ => h'.unique h⟩

/-- A program that needs one level, under a definition whose body needs three and one whose body
    needs four: the second one sets the threshold. -/
theorem parse_threshold_two :
    ∃ e, Threshold ⟨"main", "x"⟩ [⟨"(+)", "\\l.\\r. @add l r"⟩, ⟨"x", "(((1)))"⟩] 8 (.ok e) := by
  -- it is enough to try a limit and one less
  have tried (text : String) (t : Nat) (hread : (parse ⟨"main", text⟩ [] (t + 1)).toBool = true)
      (hdeep : ∃ p, parse ⟨"main", text⟩ [] t = .error ⟨.tooDeep t, p⟩) :
      ∃ e, Threshold ⟨"main", text⟩ [] (t + 1) (.ok e) := by
    cases hparse : parse ⟨"main", text⟩ [] (t + 1) with
    | error fault =>
      rw [hparse] at hread
      cases hread
    | ok e =>
      refine ⟨e, hparse ▸ threshold_of_edge ?_ fun d hd => ?_⟩
      · rintro ⟨l, p, h⟩
        cases hparse.symm.trans h
      · obtain rfl := Nat.succ.inj hd
        exact ⟨d, hdeep⟩
  obtain ⟨u, hu⟩ := tried "x" 0 (by decide +kernel) ⟨_, rfl⟩
  obtain ⟨b₁, hb₁⟩ := tried "\\l.\\r. @add l r" 2 (by decide +kernel) ⟨_, rfl⟩
  obtain ⟨b₂, hb₂⟩ := tried "(((1)))" 3 (by decide +kernel) ⟨_, rfl⟩
  have hplus : Definition.Needs ⟨"(+)", "\\l.\\r. @add l r"⟩ 3 :=
    ⟨⟨"+", by decide +kernel, by decide +kernel⟩, by decide +kernel, "main", b₁, hb₁⟩
  have hx : Definition.Needs ⟨"x", "(((1)))"⟩ 4 :=
    ⟨⟨"x", by decide +kernel, by decide +kernel⟩, by decide +kernel, "main", b₂, hb₂⟩
  exact parse_threshold.2 _ _ _ u [3, 4] hu (.cons hplus (.cons hx .nil))

end CallByNeed
