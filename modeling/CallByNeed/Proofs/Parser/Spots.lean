/-
  File:      CallByNeed/Proofs/Parser/Spots.lean
  Subject:   The places that a reading names lie between two characters of the author's text.

  A character of a comment becomes as many spaces as it has bytes, so a place between two spaces may
  lie inside a character of the author's text. A reading stops in front of something that is no
  space, or behind it, or at an end of the text. There both texts have a boundary.

  * `Edge`, `exists_split_of_edge` -- where no two spaces meet, the text before blanking can be
    split too;
  * `Spot`, `Link.spots`, `spots_inStep` -- such a cursor, kept by every token;
  * `Pos.OnBoundary` -- a place outside its text or between two characters of it;
  * `parse_onBoundary` -- so is every place in a tree, and the place of every fault.
-/
import CallByNeed.Proofs.Bytewise.Slice
import CallByNeed.Proofs.Layout
import CallByNeed.Proofs.Parser.Seam

namespace CallByNeed

/-! ## 1. Where no two spaces meet -/

/-- The end of one text and the beginning of another are not both spaces. -/
def Edge (front back : List Char) : Prop :=
  ∀ a ∈ front.getLast?, ∀ b ∈ back.head?, a = ' ' → b ≠ ' '

theorem edge_of_head {front back : List Char} (h : ∀ b ∈ back.head?, b ≠ ' ') : Edge front back :=
  fun _ _ b hb _ => h b hb

theorem edge_of_last {front back : List Char} (h : ∀ a ∈ front.getLast?, a ≠ ' ') :
    Edge front back :=
  fun a ha _ _ he => absurd he (h a ha)

/-- What is left of one character is a single character, or it is spaces only. -/
theorem blanked_cases (r : Region) (c : Char) :
    (∃ d, r.blanked c = [d]) ∨ ∀ d ∈ r.blanked c, d = ' ' := by
  cases r with
  | comment => exact .inr fun d hd => List.eq_of_mem_replicate hd
  | code =>
    unfold Region.blanked
    dsimp only
    split <;> exact .inl ⟨_, rfl⟩
  | string | escape =>
    unfold Region.blanked
    dsimp only
    split <;> exact .inl ⟨_, rfl⟩

/-- Where no two spaces meet, what is left of one character is not split. -/
theorem blanked_whole {r : Region} {c : Char} {front more back : List Char}
    (h : r.blanked c = front ++ more) (hedge : Edge front (more ++ back)) :
    front = [] ∨ more = [] := by
  by_contra hsplit
  obtain ⟨hfront, hmore⟩ := not_or.mp hsplit
  obtain ⟨b, bs, rfl⟩ := List.exists_cons_of_ne_nil hmore
  rcases blanked_cases r c with ⟨e, he⟩ | hspaces
  · rw [he] at h
    have hlength := congrArg List.length h
    have hpos := List.length_pos_iff.mpr hfront
    simp only [List.length_append, List.length_cons, List.length_nil] at hlength
    omega
  · rw [h] at hspaces
    have ha : front.getLast hfront = ' ' :=
      hspaces _ (List.mem_append_left _ (List.getLast_mem hfront))
    have hb : b = ' ' := hspaces b (by simp)
    exact hedge _ (List.getLast?_eq_some_getLast hfront) b rfl ha hb

/-- **Where no two spaces meet in a blanked text, the text can be split.** -/
theorem exists_split_of_edge {r : Region} {cs front back : List Char}
    (h : blankFrom r cs = front ++ back) (hedge : Edge front back) :
    ∃ before after, cs = before ++ after ∧ byteCount before = byteCount front := by
  induction cs generalizing r front with
  | nil =>
    obtain ⟨rfl, _⟩ := List.append_eq_nil_iff.mp h.symm
    exact ⟨[], [], rfl, rfl⟩
  | cons c cs ih =>
    rw [blankFrom_cons] at h
    rcases List.append_eq_append_iff.mp h with ⟨as, hfront, hrest⟩ | ⟨as, hblanked, hback⟩
    · -- the front goes on behind what is left of `c`
      by_cases has : as = []
      · subst has
        rw [List.append_nil] at hfront
        exact ⟨[c], cs, rfl, by rw [hfront, byteCount_blanked]; rfl⟩
      · have hedge' : Edge as back := by
          intro a ha
          refine hedge a ?_
          rwa [hfront, List.getLast?_append_of_ne_nil _ has]
        obtain ⟨before, after, rfl, hcount⟩ := ih hrest hedge'
        refine ⟨c :: before, after, rfl, ?_⟩
        rw [hfront, byteCount_append, byteCount_blanked, byteCount_cons, hcount]
    · -- the front ends inside what is left of `c`, so at one of its ends
      rw [hback] at hedge
      rcases blanked_whole hblanked hedge with rfl | rfl
      · exact ⟨[], c :: cs, rfl, rfl⟩
      · rw [List.append_nil] at hblanked
        exact ⟨[c], cs, rfl, by rw [← hblanked, byteCount_blanked]; rfl⟩

/-! ## 2. Cursors -/

/-- The cursor stands in `text`, of which `front` bytes are in front of the author's part, and not
    between two spaces. -/
def Spot (text : List Char) (front : Nat) (c : Cursor) : Prop :=
  ∃ read, text = read ++ c.rest ∧ c.offset = byteCount read - front ∧ Edge read c.rest

/-- The place of such a cursor. -/
def Spotted (text : List Char) (front : Nat) (source : Source) (p : Pos) : Prop :=
  ∃ c, Spot text front c ∧ p = ⟨source, c.offset⟩

section Spot

variable {text : List Char} {front : Nat} {c c' : Cursor} {read : List Char}

theorem Spot.moved (h : Spot text front c) (hpast : c.Past read c')
    (hedge : ∀ before, Edge (before ++ read) c'.rest) : Spot text front c' := by
  obtain ⟨before, htext, hoffset, _⟩ := h
  refine ⟨before ++ read, by rw [htext, hpast.1, List.append_assoc], ?_, hedge before⟩
  rw [hpast.2, hoffset, byteCount_append]
  omega

/-- Behind a token there is no space in front of the cursor. -/
theorem Spot.token (h : Spot text front c) (hpast : c.Past read c') (hne : read ≠ [])
    (hlast : ∀ ch ∈ read.getLast?, ch ≠ ' ') : Spot text front c' := by
  refine h.moved hpast fun before => edge_of_last fun a ha => ?_
  rw [List.getLast?_append_of_ne_nil _ hne] at ha
  exact hlast a ha

theorem Spot.spaces (h : Spot text front c) : Spot text front c.skipSpaces :=
  h.moved (c.span_past _) fun _ => edge_of_head c.skipSpaces_head

theorem Spot.character {ch : Char} (h : Spot text front c) (hch : ch ≠ ' ')
    (he : c.eat? ch = some c') : Spot text front c' := by
  refine h.token (Cursor.eat?_eq_some.mp he) (by simp) fun d hd => ?_
  rw [← Option.some.inj (Option.mem_def.mp hd)]
  exact hch

theorem Spot.run {p : Char → Bool} {x : String} (h : Spot text front c) (hp : p ' ' = false)
    (hx : c.run? p = some (x, c')) : Spot text front c' := by
  obtain ⟨hpast, hne, hall⟩ := Cursor.run?_eq_some hx
  refine h.token hpast hne fun ch hch he => ?_
  rw [← he, hall ch (List.mem_of_getLast? hch)] at hp
  cases hp

theorem Spot.numeral {n : List Char} (h : Spot text front c) (hn : c.numeral? = some (n, c')) :
    Spot text front c' := by
  obtain ⟨hpast, hne⟩ := Cursor.numeral?_eq_some hn
  refine h.token hpast hne fun ch hch he => ?_
  rw [Cursor.numeral?_eq] at hn
  split at hn
  · cases hn
  · rename_i hdigits
    cases hn
    rw [List.getLast?_append_of_ne_nil _ hdigits] at hch
    have hdigit := List.mem_takeWhile_imp (List.mem_of_getLast? hch)
    rw [he] at hdigit
    revert hdigit
    decide

/-- Behind a string there is its quote. -/
theorem Spot.quoted {body : List Char} (h : Spot text front c)
    (hpast : c.Past ('"' :: (body ++ ['"'])) c') : Spot text front c' := by
  refine h.token hpast (by simp) fun ch hch => ?_
  rw [← List.cons_append, List.getLast?_concat] at hch
  rw [← Option.some.inj (Option.mem_def.mp hch)]
  decide

/-- A string without its second quote ends with the text. -/
theorem Spot.unterminated {b stop : Cursor} (h : Spot text front c) (hb : c.eat? '"' = some b)
    (hs : b.stringBody = .error stop) : Spot text front stop := by
  obtain ⟨_, rfl⟩ := quoteEnd_open hs
  have hrest : b.Past b.rest ⟨[], b.offset + byteCount b.rest⟩ := ⟨(List.append_nil _).symm, rfl⟩
  exact h.moved ((Cursor.eat?_eq_some.mp hb).trans hrest) fun _ => edge_of_head nofun

theorem Spot.pos (h : Spot text front c) (r : Reading) : Spotted text front r.source (r.pos c) :=
  ⟨c, h, rfl⟩

end Spot

/-! ## 3. Lines -/

/-- A reading with itself, its cursors at spots, and so its places. -/
def Link.spots (text : List Char) (front : Nat) (source : Source) : Link where
  cursor _ c c' := c' = c ∧ Spot text front c
  place p p' := p' = p ∧ Spotted text front source p
  tree e e' := e' = e ∧ e.Each (Spotted text front source)
  fault e e' := e' = e ∧ Spotted text front source e.pos
  waived _ := False

/-- **Every token ends at a spot.** -/
theorem spots_inStep (text : List Char) (front : Nat) (r : Reading) :
    InStep (.spots text front r.source) r r 0 where
  spaces := fun ⟨hc, h⟩ => ⟨by rw [hc], h.spaces⟩
  operator := by
    intro d c c' ⟨hc, h⟩
    subst hc
    exact rel_along fun t ht => ⟨rfl, rfl, h.run (by decide) ht⟩
  word := by
    intro d c c' ⟨hc, h⟩
    subst hc
    exact rel_along fun t ht => ⟨rfl, rfl, h.run (by decide) ht⟩
  numeral := by
    intro d c c' ⟨hc, h⟩
    subst hc
    exact rel_along fun t ht => ⟨rfl, rfl, h.numeral ht⟩
  symbol := by
    intro d c c' ch ⟨hc, h⟩ hch
    subst hc
    have hne : ch ≠ ' ' := by
      intro he
      rw [he] at hch
      revert hch
      decide
    exact rel_along fun c₁ he => ⟨rfl, h.character hne he⟩
  enter := by
    intro d c c' ⟨hc, h⟩
    subst hc
    exact rel_along fun c₁ he => ⟨rfl, h.character (by decide) he⟩
  leave := by
    intro d c c' ⟨hc, h⟩
    subst hc
    exact rel_along fun c₁ he => ⟨rfl, h.character (by decide) he⟩
  string := by
    intro d c c' ⟨hc, h⟩
    subst hc
    refine rel_along fun b hb => ?_
    unfold Reading.string
    cases hs : b.stringBody with
    | error stop => exact .error ⟨rfl, (h.unterminated hb hs).pos r⟩
    | ok t =>
      obtain ⟨_, hpast⟩ := Cursor.stringBody_eq_ok hs
      have hwhole := (Cursor.eat?_eq_some.mp hb).trans hpast
      exact .ok (.some ⟨⟨rfl, h.pos r⟩, rfl, h.quoted hwhole⟩)
  pos := fun ⟨hc, h⟩ => ⟨by rw [hc], h.pos r⟩
  start := fun ⟨he, h⟩ => ⟨by rw [he], Expr.each_pos h⟩
  number := fun ⟨hp, h⟩ => ⟨by rw [hp], h⟩
  name := fun ⟨hp, h⟩ _ => ⟨by rw [hp], h⟩
  builtin := fun ⟨hp, h⟩ _ => ⟨by rw [hp], h⟩
  lambda := fun ⟨hp, h⟩ _ ⟨hb, hbody⟩ => ⟨by rw [hp, hb], h, hbody⟩
  apply := fun ⟨hp, h⟩ ⟨hf, hfunc⟩ ⟨ha, harg⟩ => ⟨by rw [hp, hf, ha], h, hfunc, harg⟩
  missing := fun ⟨hc, h⟩ _ _ _ => ⟨by rw [hc], h.pos r⟩
  badToken := fun ⟨hc, h⟩ _ => ⟨by rw [hc], h.pos r⟩
  deep := fun ⟨hc, h⟩ => by
    rw [hc]
    exact .error ⟨rfl, h.pos r⟩

section Lines

variable {text : List Char} {front : Nat} {r : Reading} {c : Cursor}

theorem Spot.line (h : Spot text front c) (n : Nat) :
    (∃ x c', r.line n c = .ok (x, c') ∧ Spot text front c' ∧
        ∀ e, x = some e → e.Each (Spotted text front r.source)) ∨
      ∃ e, r.line n c = .error e ∧ Spotted text front r.source e.pos := by
  have hout := (spots_inStep text front r).line n 0 c c ⟨rfl, h⟩
  rw [Nat.add_zero] at hout
  cases hline : r.line n c with
  | error e =>
    rw [hline] at hout
    cases hout with
    | error he => exact .inr ⟨e, rfl, he.2⟩
    | waived hw => exact hw.elim
  | ok t =>
    rw [hline] at hout
    obtain ⟨x, c'⟩ := t
    cases hout with
    | ok hl =>
      obtain ⟨hrel, _, hspot⟩ := hl
      refine .inl ⟨x, c', rfl, hspot, fun e he => ?_⟩
      rw [he] at hrel
      cases hrel with
      | some ht => exact ht.2

theorem Spot.whole_ok (h : Spot text front c) {e : Expr} (he : r.whole c = .ok e) :
    e.Each (Spotted text front r.source) := by
  obtain ⟨c₁, hok, _⟩ := Reading.whole_eq_ok.mp he
  rcases h.line r.limit with ⟨x, c', hline, _, htree⟩ | ⟨fault, hline, _⟩
  · cases hline.symm.trans hok
    exact htree e rfl
  · cases hline.symm.trans hok

theorem Spot.whole_error (h : Spot text front c) {e : At ParseFault} (he : r.whole c = .error e) :
    Spotted text front r.source e.pos := by
  unfold Reading.whole at he
  rcases h.line r.limit with ⟨x, c', hline, hspot, _⟩ | ⟨fault, hline, hfault⟩
  · have hplace := hspot.spaces.pos r
    rw [hline] at he
    dsimp only [bind, Except.bind] at he
    split at he
    · exact Except.error.inj he ▸ hplace
    · exact Except.error.inj he ▸ hplace
    · cases he
  · rw [hline] at he
    exact Except.error.inj he ▸ hfault

end Lines

/-! ## 4. The author's text -/

/-- A place outside its text, or between two characters of it. -/
def Pos.OnBoundary (p : Pos) : Prop :=
  p.offset < 0 ∨ p.source.size < p.offset ∨
    ∃ before after, p.source.chars = before ++ after ∧ byteCount before = p.offset

/-- Two ways to split a text, of which the first ends no later, by bytes. -/
theorem append_of_byteCount_le {a b a' b' : List Char} (h : a ++ b = a' ++ b')
    (hle : byteCount a ≤ byteCount a') : ∃ m, a' = a ++ m ∧ b = m ++ b' := by
  rcases List.append_eq_append_iff.mp h with ⟨m, ha', hb⟩ | ⟨m, ha, hb'⟩
  · exact ⟨m, ha', hb⟩
  · rw [ha, byteCount_append] at hle
    obtain rfl : m = [] := byteCount_eq_zero (by omega)
    refine ⟨[], ?_, ?_⟩
    · rw [ha, List.append_nil, List.append_nil]
    · rw [hb', List.nil_append, List.nil_append]

/-- **A spot in the prepared text is a boundary of the author's text, if it lies there.** -/
theorem Spot.onBoundary {source : Source} {defs : List Definition} {c : Cursor}
    (h : Spot (prepare source.chars defs).text (prepare source.chars defs).offset c) :
    Pos.OnBoundary ⟨source, c.offset⟩ := by
  obtain ⟨read, htext, hoffset, hedge⟩ := h
  by_cases hneg : c.offset < 0
  · exact .inl hneg
  by_cases hbeyond : source.size < c.offset
  · exact .inr (.inl hbeyond)
  refine .inr (.inr ?_)
  -- the spot lies between the part in front of the program and the part behind it
  have hprogram : byteCount (blankText source.chars) = source.size := byteCount_blankFrom _ _
  rw [Prepared.offset] at hoffset
  rw [Prepared.text, List.append_assoc] at htext
  obtain ⟨own, hread, hrest⟩ := append_of_byteCount_le htext (by omega)
  have hown : (byteCount own : Int) = c.offset := by
    rw [hoffset, hread, byteCount_append]
    omega
  obtain ⟨further, hsplit, hback⟩ := append_of_byteCount_le hrest.symm (by
    show byteCount own ≤ byteCount (blankText source.chars)
    omega)
  have hedge' : Edge own further := by
    intro a ha b hb
    refine hedge a ?_ b ?_
    · rw [hread, List.getLast?_append, Option.mem_def.mp ha]
      rfl
    · rw [hback, List.head?_append, Option.mem_def.mp hb]
      rfl
  obtain ⟨before, after, hchars, hcount⟩ := exists_split_of_edge hsplit hedge'
  exact ⟨before, after, hchars, by rw [hcount]; exact hown⟩

theorem Spotted.onBoundary {source : Source} {defs : List Definition} {p : Pos}
    (h : Spotted (prepare source.chars defs).text (prepare source.chars defs).offset source p) :
    p.source = source ∧ p.OnBoundary := by
  obtain ⟨c, hspot, rfl⟩ := h
  exact ⟨rfl, hspot.onBoundary⟩

theorem onBoundary_end (source : Source) : Pos.OnBoundary ⟨source, source.size⟩ :=
  .inr (.inr ⟨source.chars, [], (List.append_nil _).symm, rfl⟩)

/-- A program whose parentheses and quotes do not match is refused at such a place, too. -/
theorem balanced_onBoundary {r : Reading} {e : At ParseFault}
    (h : r.balanced (blankText r.source.chars) = .error e) :
    e.pos.source = r.source ∧ e.pos.OnBoundary := by
  unfold Reading.balanced at h
  dsimp only at h
  split at h
  · cases h
  · rename_i offset hclose
    obtain rfl := Except.error.inj h
    obtain ⟨front, back, hsplit, hoffset⟩ := close_at hclose
    have hedge : Edge front (')' :: back) := edge_of_head fun b hb => by
      rw [← Option.some.inj (Option.mem_def.mp hb)]
      decide
    obtain ⟨before, after, hchars, hcount⟩ := exists_split_of_edge hsplit hedge
    refine ⟨rfl, .inr (.inr ⟨before, after, hchars, ?_⟩)⟩
    show (byteCount before : Int) = offset
    omega
  · obtain rfl := Except.error.inj h
    exact ⟨rfl, onBoundary_end _⟩
  · obtain rfl := Except.error.inj h
    exact ⟨rfl, onBoundary_end _⟩

/-- **Places lie on boundaries.** Every place in the tree of a program, and the place of every
    fault, counts in the author's text, and lies outside it or between two characters of it. -/
theorem parse_onBoundary (source : Source) (defs : List Definition) (maxDepth : Nat) :
    (∀ e, parse source defs maxDepth = .ok e →
      e.Each fun p => p.source = source ∧ p.OnBoundary) ∧
    ∀ e, parse source defs maxDepth = .error e → e.pos.source = source ∧ e.pos.OnBoundary := by
  let prepared := prepare source.chars defs
  let reading : Reading := ⟨source, maxDepth⟩
  have hstart : Spot prepared.text prepared.offset ⟨prepared.text, -(prepared.offset : Int)⟩ :=
    ⟨[], rfl, by simp, fun _ ha => by cases ha⟩
  have hok {e : Expr} (he : reading.whole ⟨prepared.text, -(prepared.offset : Int)⟩ = .ok e) :
      e.Each fun p => p.source = source ∧ p.OnBoundary :=
    Expr.each_imp (fun _ hp => hp.onBoundary) (hstart.whole_ok he)
  have herror {e : At ParseFault}
      (he : reading.whole ⟨prepared.text, -(prepared.offset : Int)⟩ = .error e) :
      e.pos.source = source ∧ e.pos.OnBoundary :=
    (hstart.whole_error he).onBoundary
  cases defs with
  | nil => exact ⟨fun e he => hok he, fun e he => herror he⟩
  | cons d ds =>
    rw [parse_cons]
    cases hbalanced : (⟨source, maxDepth⟩ : Reading).balanced (blankText source.chars) with
    | ok _ => exact ⟨fun e he => hok he, fun e he => herror he⟩
    | error fault =>
      refine ⟨nofun, fun e he => ?_⟩
      obtain rfl := Except.error.inj he
      exact balanced_onBoundary hbalanced

end CallByNeed
