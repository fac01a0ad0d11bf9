/-
  File:      CallByNeed/Proofs/Parser/Containment.lean
  Subject:   A program cannot break out of its prelude.

  Around a program stand its definitions, layer by layer. A layer reads as the definition applied
  to its body, if what it encloses reads as a term; else it fails as what it encloses fails. The
  innermost layer encloses the program in parentheses.

  * `Definition.Binds`, `Definition.Named`, `Definition.Proper` -- definitions that can stand in a
    prelude;
  * `Nests` -- the tree of a program under its definitions;
  * `Definition.Ended`, `blank_closing_cons` -- no comment is open behind a body;
  * `wrapText`, `prepare_text` -- the text around a program, layer by layer;
  * `Reading.line_layer`, `Reading.line_layer_error`, `Reading.line_definition` -- one layer;
  * `Reading.wrapped_ok`, `Reading.wrapped_error` -- all of them;
  * `parse_wrapped`, `parse_unbalanced` -- a program with and without definitions;
  * `parse_contained` -- what the definitions and the program can be sure of.
-/
import CallByNeed.Proofs.Parser.Seam

namespace CallByNeed

/-! ## 1. Definitions and the trees they make -/

/-- What a definition binds: its name is the text of `x`, and its body alone reads as `b`. -/
structure Definition.Binds (d : Definition) (x : String) (b : Expr) : Prop where
  param : ParamName x
  name : d.name = Expr.nameText x
  body : ∃ name depth, parse ⟨name, d.body⟩ [] depth = .ok b

/-- A definition is named by a word or by an operator in parentheses. -/
def Definition.Named (d : Definition) : Prop := ∃ x, ParamName x ∧ d.name = Expr.nameText x

/-- A definition that can stand in a prelude: it is named by a word or by an operator in parentheses,
    and its body can be read and has no comment. -/
structure Definition.Proper (d : Definition) : Prop where
  binds : ∃ x b, d.Binds x b
  noComment : '#' ∉ d.body.toList

theorem Definition.Proper.named {d : Definition} (h : d.Proper) : d.Named := by
  obtain ⟨x, b, hd⟩ := h.binds
  exact ⟨x, hd.param, hd.name⟩

/-- It is enough to try. -/
theorem Definition.proper_of_checks {d : Definition} {x : String}
    (h : ParamName x ∧ d.name = Expr.nameText x ∧
      (parse ⟨"", d.body⟩ [] defaultDepth).toBool = true ∧ '#' ∉ d.body.toList) : d.Proper := by
  obtain ⟨hx, hname, hbody, hcomment⟩ := h
  cases hparse : parse ⟨"", d.body⟩ [] defaultDepth with
  | error e =>
    rw [hparse] at hbody
    cases hbody
  | ok b => exact ⟨⟨x, b, hx, hname, _, _, hparse⟩, hcomment⟩

/-- A place outside the author's text. -/
def Outside (source : Source) (p : Pos) : Prop := p.offset < 0 ∨ source.size < p.offset

/-- `e` is the program `u` under the definitions, outermost first. The program stands in it as it is;
    everything around it stands outside the author's text. -/
inductive Nests (source : Source) : List Definition → Expr → Expr → Prop where
  | program (u : Expr) : Nests source [] u u
  | definition {d : Definition} {ds : List Definition} {x : String} {u e b b' : Expr} {p q : Pos}
      (hd : d.Binds x b) (hinner : Nests source ds u e) (hbody : b'.sameShape b = true)
      (hp : Outside source p) (hq : Outside source q) (hb : b'.Each (Outside source)) :
      Nests source (d :: ds) u (.apply p (.lambda q x e) b')

/-! ## 2. The text around a program -/

/-- The text of a program under its definitions. -/
def wrapText : List Definition → List Char → List Char
  | [], program => program
  | d :: ds, program =>
    '(' :: '\\' :: (d.name.toList ++ '.' :: '(' :: (wrapText ds program ++
      ')' :: ')' :: '(' :: (blankText d.body.toList ++ [')'])))

theorem opening_cons (d : Definition) (ds : List Definition) :
    opening (d :: ds) = '(' :: '\\' :: (d.name.toList ++ '.' :: '(' :: opening ds) := by
  simp [opening]

theorem closing_cons (d : Definition) (ds : List Definition) :
    closing (d :: ds) = closing ds ++ ([')', ')', '('] ++ d.body.toList ++ [')']) := by
  simp [closing]

/-- What a body alone reads as. -/
theorem Definition.Binds.line {d : Definition} {x : String} {b : Expr} (h : d.Binds x b) :
    ∃ (r : Reading) (c : Cursor), Balanced 0 (blankText d.body.toList) ∧ c.rest = [] ∧
      r.line r.limit ⟨blankText d.body.toList, 0⟩ = .ok (some b, c) := by
  obtain ⟨name, depth, hparse⟩ := h.body
  rw [parse_nil] at hparse
  obtain ⟨c, hline, hrest⟩ := Reading.whole_eq_ok.mp hparse
  rw [Reading.line_skipSpaces hline] at hrest
  exact ⟨_, c, balanced_of_whole hparse, hrest, hline⟩

/-- Blanking leaves the names as they are. -/
theorem clean_opening {defs : List Definition} (hdefs : ∀ d ∈ defs, d.Named) :
    Clean (opening defs) := by
  induction defs with
  | nil => exact .nil
  | cons d ds ih =>
    obtain ⟨x, hx, hname⟩ := hdefs d List.mem_cons_self
    have front : Clean ['(', '\\'] := clean_of_plain (by decide)
    have dot : Clean ['.', '('] := clean_of_plain (by decide)
    have h := front.append ((clean_nameText hx).append
      (dot.append (ih fun d' hd' => hdefs d' (List.mem_cons_of_mem _ hd'))))
    rw [opening_cons, hname]
    simpa using h

/-- Behind the body of a definition code goes on: no comment is open there. -/
def Definition.Ended (d : Definition) : Prop := Region.after .code d.body.toList = .code

theorem Definition.Proper.ended {d : Definition} (h : d.Proper) : d.Ended := by
  obtain ⟨x, b, hbinds⟩ := h.binds
  obtain ⟨r, c, hbalanced, _⟩ := hbinds.line
  exact after_of_balanced h.noComment hbalanced

/-- The bodies are blanked one by one. -/
theorem blank_closing_cons {d : Definition} (hd : d.Ended) {ds : List Definition}
    (hds : Region.after .code (closing ds) = .code) :
    blankText (closing (d :: ds)) =
        blankText (closing ds) ++ ')' :: ')' :: '(' :: (blankText d.body.toList ++ [')']) ∧
      Region.after .code (closing (d :: ds)) = .code := by
  rw [Definition.Ended] at hd
  have parens : Clean [')', ')', '('] := clean_of_plain (by decide)
  have close : Clean [')'] := clean_of_plain (by decide)
  rw [closing_cons, blankText, blankText, blankText, blankFrom_append, hds, List.append_assoc,
    blankFrom_append, parens.1, parens.2, blankFrom_append, hd, close.1]
  refine ⟨rfl, ?_⟩
  rw [Region.after_append, hds, Region.after_append, parens.2, Region.after_append, hd, close.2]

/-- **The text that is read under definitions**, layer by layer. -/
theorem prepare_text {defs : List Definition} (hdefs : ∀ d ∈ defs, d.Proper) (program : List Char) :
    (prepare program defs).text = wrapText defs (blankText program) ∧
      (prepare program defs).offset = byteCount (opening defs) := by
  have layers : opening defs ++ blankText program ++ blankText (closing defs) =
      wrapText defs (blankText program) ∧ Region.after .code (closing defs) = .code := by
    induction defs with
    | nil => exact ⟨by simp [opening, closing, blankText, wrapText], rfl⟩
    | cons d ds ih =>
      obtain ⟨htext, hafter⟩ := ih fun d' hd' => hdefs d' (List.mem_cons_of_mem _ hd')
      obtain ⟨hblank, hafter'⟩ := blank_closing_cons (hdefs d List.mem_cons_self).ended hafter
      refine ⟨?_, hafter'⟩
      rw [opening_cons, hblank, wrapText, ← htext]
      simp
  have hfront : blankText (opening defs) = opening defs :=
    (clean_opening fun d hd => (hdefs d hd).named).1
  exact ⟨by rw [Prepared.text, prepare, hfront]; exact layers.1,
    by rw [Prepared.offset, prepare, hfront]⟩

/-! ## 3. One layer -/

namespace Reading

variable {r : Reading} {m : Nat} {x : String} {inner body rest : List Char} {o o₁ o₂ : Int}

/-- What stands behind the inside of a layer, up to its own end. -/
def behind (body rest : List Char) : List Char := ')' :: '(' :: (body ++ ')' :: rest)

/-- A layer: a definition around `inner`, with its body. -/
def layer (x : String) (inner body rest : List Char) : List Char :=
  '(' :: '\\' :: ((Expr.nameText x).toList ++ '.' :: '(' :: (inner ++ ')' :: behind body rest))

/-- Where the inside of a layer begins, from its parenthesis on. -/
def layerInside (x : String) (o : Int) : Int :=
  o + 1 + 1 + byteCount (Expr.nameText x).toList + 1

/-- The function of a layer, if its inside is a term. -/
theorem layer_function (hx : ParamName x) {u : Expr}
    (hinner : r.term? (r.line m) ⟨'(' :: (inner ++ ')' :: behind body rest), layerInside x o⟩ =
      .ok (some (u, ⟨behind body rest, o₁⟩))) :
    r.term? (r.line (m + 2)) ⟨layer x inner body rest, o⟩ =
      .ok (some (.lambda ⟨r.source, o + 1⟩ x u, ⟨'(' :: (body ++ ')' :: rest), o₁ + 1⟩)) := by
  have hinside := (SideBySide.term hinner).line (Stops.close _)
  have hlambda := term?_lambda (r := r) hx hinside
  exact term?_group ((SideBySide.term hlambda).line (Stops.close _))

theorem operator?_paren (cs : List Char) (o : Int) :
    (⟨'(' :: cs, o⟩ : Cursor).skipSpaces.operator? = none := by
  rw [Cursor.skipSpaces_cons (by decide)]
  exact Cursor.run?_of_head (by simp; decide)

/-- **A layer applies the definition to its body.** -/
theorem line_layer (hx : ParamName x) {u b : Expr} (hstop : Stops rest)
    (hinner : r.term? (r.line m) ⟨'(' :: (inner ++ ')' :: behind body rest), layerInside x o⟩ =
      .ok (some (u, ⟨behind body rest, o₁⟩)))
    (hbody : r.line (m + 2) ⟨body ++ ')' :: rest, o₁ + 1 + 1⟩ = .ok (some b, ⟨')' :: rest, o₂⟩)) :
    r.line (m + 3) ⟨layer x inner body rest, o⟩ =
      .ok (some (.apply ⟨r.source, o + 1⟩ (.lambda ⟨r.source, o + 1⟩ x u) b), ⟨rest, o₂ + 1⟩) := by
  have hfunc := SideBySide.term (layer_function hx hinner)
  have harg := term?_group hbody
  rw [← Cursor.skipSpaces_cons (by decide : '(' ≠ ' ')] at harg
  exact (hfunc.apply (operator?_paren _ _) harg).line hstop

/-- A layer fails as its inside fails. -/
theorem line_layer_error (hx : ParamName x) {fault : At ParseFault}
    (hinner : r.term? (r.line m) ⟨'(' :: (inner ++ ')' :: behind body rest), layerInside x o⟩ =
      .error fault) :
    r.line (m + 3) ⟨layer x inner body rest, o⟩ = .error fault := by
  have hinside := line_error (Cursor.skipSpaces_cons (by decide) _) hinner
  have hlambda := line_error (Cursor.skipSpaces_cons (by decide) _)
    (term?_lambda_error (r := r) hx hinside)
  exact line_error (Cursor.skipSpaces_cons (by decide) _)
    (term?_group_error (Cursor.bracketedOperator?_of_second (by decide) (by decide) _) hlambda)

/-- If its inside does not fail, it fails as its body fails. -/
theorem line_layer_body_error (hx : ParamName x) {u : Expr} {fault : At ParseFault}
    (hinner : r.term? (r.line m) ⟨'(' :: (inner ++ ')' :: behind body rest), layerInside x o⟩ =
      .ok (some (u, ⟨behind body rest, o₁⟩)))
    (hnone : (⟨'(' :: (body ++ ')' :: rest), o₁ + 1⟩ : Cursor).bracketedOperator? = none)
    (hbody : r.line (m + 2) ⟨body ++ ')' :: rest, o₁ + 1 + 1⟩ = .error fault) :
    r.line (m + 3) ⟨layer x inner body rest, o⟩ = .error fault := by
  have hfunc := SideBySide.term (layer_function hx hinner)
  have harg : r.term? (r.line (m + 2)) ⟨'(' :: (body ++ ')' :: rest), o₁ + 1⟩ = .error fault :=
    term?_group_error hnone hbody
  rw [← Cursor.skipSpaces_cons (by decide : '(' ≠ ' ')] at harg
  exact hfunc.line_error (operator?_paren _ _) harg

/-- A body that reads alone reads in its layer, further on in the text. -/
theorem body_reads {d : Definition} {b : Expr} (hd : d.Binds x b) (r : Reading) (rest : List Char)
    (o : Int) :
    ∃ k b' o', r.line k ⟨blankText d.body.toList ++ ')' :: rest, o⟩ = .ok (some b', ⟨')' :: rest, o'⟩) ∧
      o ≤ o' ∧ b'.sameShape b = true ∧ b'.Each (o ≤ ·.offset) := by
  obtain ⟨r₀, c, hbalanced, hrest, hline⟩ := hd.line
  have hwithin : Within (byteCount (blankText d.body.toList)) 0 ⟨blankText d.body.toList, 0⟩ :=
    ⟨hbalanced, Int.le_refl 0, Int.zero_add _⟩
  obtain ⟨b', hread, hshape, hplaces⟩ := line_elsewhere hwithin hline r rest o
  have hc := ((kept_within _).keeps.line hwithin hline).1
  simp only [Cursor.placed, hrest, Int.zero_add, List.nil_append] at hread
  have hstart := hc.start
  exact ⟨_, b', c.offset + o, hread, by omega, hshape, Expr.each_imp (fun p hp => hp.2) hplaces⟩

/-- **A definition around a term.** -/
theorem line_definition {d : Definition} {u b : Expr} (hd : d.Binds x b) (hstop : Stops rest)
    (hinner : r.term? (r.line m)
      ⟨'(' :: (inner ++ ')' :: behind (blankText d.body.toList) rest), layerInside x o⟩ =
        .ok (some (u, ⟨behind (blankText d.body.toList) rest, o₁⟩))) :
    (∃ b' o', r.line (m + 3) ⟨layer x inner (blankText d.body.toList) rest, o⟩ =
        .ok (some (.apply ⟨r.source, o + 1⟩ (.lambda ⟨r.source, o + 1⟩ x u) b'), ⟨rest, o'⟩) ∧
        o₁ < o' ∧ b'.sameShape b = true ∧ b'.Each (o₁ < ·.offset)) ∨
      (r.line (m + 3) ⟨layer x inner (blankText d.body.toList) rest, o⟩).TooDeep := by
  obtain ⟨k, b', o', hread, hle, hshape, hplaces⟩ := body_reads hd r rest (o₁ + 1 + 1)
  rcases line_levels hread (m + 2) with hbody | ⟨limit, p, hbody⟩
  · exact .inl ⟨b', o' + 1, line_layer hd.param hstop hinner hbody, by omega, hshape,
      Expr.each_imp (fun p hp => by omega) hplaces⟩
  · have hnone := bracketedOperator?_of_line (Cursor.eat?_cons (by decide) (o₁ + 1)) hread
    exact .inr ⟨limit, p, line_layer_body_error hd.param hinner hnone hbody⟩

/-! ## 4. All layers -/

/-- A program under its definitions in parentheses, in front of more text. The program itself begins
    at offset zero. -/
def wrappedAt (defs : List Definition) (program more : List Char) : Cursor :=
  ⟨'(' :: (wrapText defs program ++ ')' :: more), -(byteCount (opening defs) : Int) - 1⟩

/-- The outermost definition and what it encloses. -/
theorem wrapText_cons {d : Definition} {ds : List Definition} (hname : d.name = Expr.nameText x)
    (program rest : List Char) :
    wrapText (d :: ds) program ++ rest =
      layer x (wrapText ds program) (blankText d.body.toList) rest := by
  simp [wrapText, layer, behind, hname]

theorem layerInside_opening {d : Definition} (hname : d.name = Expr.nameText x)
    (ds : List Definition) :
    layerInside x (-(byteCount (opening (d :: ds)) : Int)) = -(byteCount (opening ds) : Int) - 1 := by
  have one : '('.utf8Size = 1 ∧ '\\'.utf8Size = 1 ∧ '.'.utf8Size = 1 := by decide
  rw [layerInside, opening_cons, hname]
  simp only [byteCount_cons, byteCount_append, one]
  omega

section Layers

variable {d : Definition} {ds : List Definition} {program : List Char} {u b : Expr}
  {fault : At ParseFault}

/-- Parentheses around definitions are parentheses around a line. -/
theorem term?_wrappedAt_error {more : List Char}
    (h : r.line m ⟨wrapText (d :: ds) program ++ ')' :: more, -(byteCount (opening (d :: ds)) : Int)⟩ =
      .error fault) :
    r.term? (r.line m) (wrappedAt (d :: ds) program more) = .error fault := by
  rw [wrappedAt]
  refine term?_group_error (Cursor.bracketedOperator?_of_second (by decide) (by decide) _) ?_
  rw [Int.sub_add_cancel]
  exact h

/-- One more layer around an inside that fails. -/
theorem line_wrapped_error (hd : d.Binds x b)
    (hinner : ∀ more, r.term? (r.line m) (wrappedAt ds program more) = .error fault)
    (rest : List Char) :
    r.line (m + 3) ⟨wrapText (d :: ds) program ++ rest, -(byteCount (opening (d :: ds)) : Int)⟩ =
      .error fault := by
  rw [wrapText_cons hd.name]
  refine line_layer_error hd.param ?_
  rw [layerInside_opening hd.name]
  exact hinner _

/-- **Under all definitions a program fails as it fails in parentheses.** -/
theorem wrapped_error (hds : ∀ d ∈ ds, d.Proper)
    (hcore : ∀ more, r.term? (r.line m) (wrappedAt [] program more) = .error fault)
    (more : List Char) :
    r.term? (r.line (m + 3 * ds.length)) (wrappedAt ds program more) = .error fault := by
  induction ds generalizing more with
  | nil => exact hcore more
  | cons d ds ih =>
    obtain ⟨x, b, hd⟩ := (hds d List.mem_cons_self).binds
    exact term?_wrappedAt_error (line_wrapped_error hd
      (ih fun d' hd' => hds d' (List.mem_cons_of_mem _ hd')) (')' :: more))

/-- The program `u` under its definitions is read up to `rest`, if there are levels enough. -/
def Wrapped (r : Reading) (ds : List Definition) (u : Expr) (rest : List Char) {α : Type}
    (found : Expr → Cursor → α) (y : Parsed α) : Prop :=
  (∃ e o, y = .ok (found e ⟨rest, o⟩) ∧ r.source.size < o ∧ Nests r.source ds u e) ∨ y.TooDeep

/-- One more layer around an inside that is read. -/
theorem line_wrapped_ok (hd : d.Binds x b)
    (hinner : ∀ more, Wrapped r ds u more (fun e c => some (e, c))
      (r.term? (r.line m) (wrappedAt ds program more)))
    (rest : List Char) (hstop : Stops rest) :
    Wrapped r (d :: ds) u rest (fun e c => (some e, c))
      (r.line (m + 3) ⟨wrapText (d :: ds) program ++ rest,
        -(byteCount (opening (d :: ds)) : Int)⟩) := by
  have hneg : (-(byteCount (opening (d :: ds)) : Int)) + 1 < 0 := by
    have one : '('.utf8Size = 1 ∧ '\\'.utf8Size = 1 := by decide
    rw [opening_cons]
    simp only [byteCount_cons, one]
    omega
  rw [wrapText_cons hd.name]
  rcases hinner (behind (blankText d.body.toList) rest) with ⟨e, o₁, hread, hbeyond, hnests⟩ |
    ⟨limit, p, hdeep⟩
  · rw [wrappedAt, ← layerInside_opening hd.name] at hread
    rcases line_definition hd hstop hread with ⟨b', o', hline, hlt, hshape, hplaces⟩ | hdeep
    · have hplaces : b'.Each (Outside r.source) := Expr.each_imp (fun p hp => .inr (by omega)) hplaces
      exact .inl ⟨_, o', hline, by omega,
        .definition hd hnests hshape (.inl hneg) (.inl hneg) hplaces⟩
    · exact .inr hdeep
  · rw [wrappedAt, ← layerInside_opening hd.name] at hdeep
    exact .inr ⟨limit, p, line_layer_error hd.param hdeep⟩

/-- **Under all definitions a program is read as it is read in parentheses.** -/
theorem wrapped_ok (hds : ∀ d ∈ ds, d.Proper)
    (hcore : ∀ more, r.term? (r.line m) (wrappedAt [] program more) =
      .ok (some (u, ⟨more, r.source.size + 1⟩)))
    (more : List Char) :
    Wrapped r ds u more (fun e c => some (e, c))
      (r.term? (r.line (m + 3 * ds.length)) (wrappedAt ds program more)) := by
  induction ds generalizing more with
  | nil => exact .inl ⟨u, _, hcore more, by omega, .program u⟩
  | cons d ds ih =>
    obtain ⟨x, b, hd⟩ := (hds d List.mem_cons_self).binds
    rcases line_wrapped_ok hd (ih fun d' hd' => hds d' (List.mem_cons_of_mem _ hd')) (')' :: more)
      (Stops.close more) with ⟨e, o, hline, hbeyond, hnests⟩ | ⟨limit, p, hdeep⟩
    · refine .inl ⟨e, o + 1, ?_, by omega, hnests⟩
      rw [wrappedAt]
      exact term?_group (by rw [Int.sub_add_cancel]; exact hline)
    · exact .inr ⟨limit, p, term?_wrappedAt_error hdeep⟩

end Layers

end Reading

/-! ## 5. Programs -/

section Programs

variable {source : Source} {defs : List Definition} {depth : Nat}

/-- A balanced program as a text of its own. -/
theorem within_program (h : Balanced 0 (blankText source.chars)) :
    Within source.size 0 ⟨blankText source.chars, 0⟩ :=
  ⟨h, Int.le_refl 0, by rw [Int.zero_add, blankText, byteCount_blankFrom]; rfl⟩

/-- A balanced program under definitions is read layer by layer. -/
theorem parse_layers (hdefs : ∀ d ∈ defs, d.Proper) (hne : defs ≠ [])
    (hbal : Balanced 0 (blankText source.chars)) :
    parse source defs depth = (⟨source, depth⟩ : Reading).whole
      ⟨wrapText defs (blankText source.chars), -(byteCount (opening defs) : Int)⟩ := by
  obtain ⟨d, ds, rfl⟩ := List.exists_cons_of_ne_nil hne
  obtain ⟨htext, hoffset⟩ := prepare_text hdefs source.chars
  have hscan : imbalance? (blankText source.chars) = none := hbal
  rw [parse_cons, htext, hoffset, Reading.balanced, hscan]
  rfl

/-- With levels enough, it is read with three levels more for each definition. -/
theorem parse_deeper (hdefs : ∀ d ∈ defs, d.Proper) (hne : defs ≠ [])
    (hbal : Balanced 0 (blankText source.chars)) (hdeep : ¬ (parse source defs depth).TooDeep) :
    let line := (⟨source, depth⟩ : Reading).line (depth + 3 * defs.length)
      ⟨wrapText defs (blankText source.chars), -(byteCount (opening defs) : Int)⟩
    ¬ line.TooDeep ∧ (∀ fault, line = .error fault → parse source defs depth = .error fault) ∧
      ∀ e o, line = .ok (some e, ⟨[], o⟩) → parse source defs depth = .ok e := by
  rw [parse_layers hdefs hne hbal] at hdeep ⊢
  generalize (⟨wrapText defs (blankText source.chars), -(byteCount (opening defs) : Int)⟩ : Cursor) = c
    at hdeep ⊢
  set r : Reading := ⟨source, depth⟩
  have failed {fault : At ParseFault} (h : r.line depth c = .error fault) :
      r.whole c = .error fault := by
    rw [Reading.whole, show r.line r.limit c = .error fault from h]
    rfl
  rcases r.line_deeper depth (3 * defs.length) c with heq | ⟨limit, p, h⟩
  · refine ⟨?_, fun fault h => failed (heq ▸ h), fun e o h => ?_⟩
    · rintro ⟨limit, p, h⟩
      exact hdeep ⟨limit, p, failed (heq ▸ h)⟩
    · exact Reading.whole_eq_ok.mpr ⟨_, heq ▸ h, rfl⟩
  · exact absurd ⟨limit, p, failed h⟩ hdeep

/-- **A balanced program with and without definitions.** Under definitions it is read exactly if it
    is a program, or an operator alone. -/
theorem parse_wrapped (hdefs : ∀ d ∈ defs, d.Proper) (hne : defs ≠ [])
    (hbal : Balanced 0 (blankText source.chars)) (hdeep : ¬ (parse source defs depth).TooDeep) :
    (∃ op e, LoneOperator ⟨blankText source.chars, 0⟩ op ∧ parse source defs depth = .ok e ∧
        Nests source defs (.name ⟨source, -1⟩ op) e) ∨
      (∃ u e, parse source [] depth = .ok u ∧ u.Each (InText source.size) ∧
        parse source defs depth = .ok e ∧ Nests source defs u e) ∨
      ∃ e f, parse source [] depth = .error e ∧ SeamFault e.fault f ∧ InText source.size e.pos ∧
        parse source defs depth = .error ⟨f, e.pos⟩ := by
  obtain ⟨hlevels, herror, hok⟩ := parse_deeper hdefs hne hbal hdeep
  obtain ⟨d, ds, rfl⟩ := List.exists_cons_of_ne_nil hne
  set r : Reading := ⟨source, depth⟩
  obtain ⟨x, b, hd⟩ := (hdefs d List.mem_cons_self).binds
  have hds : ∀ d' ∈ ds, d'.Proper := fun d' hd' => hdefs d' (List.mem_cons_of_mem _ hd')
  have hcore (more : List Char) : Reading.wrappedAt [] (blankText source.chars) more =
      (⟨blankText source.chars, 0⟩ : Cursor).inParens more := by
    simp [Reading.wrappedAt, Cursor.inParens, wrapText, opening]
  -- what is read in parentheses is read under the definitions
  have hread {u : Expr} (h : ∀ more, r.term? (r.line r.limit)
      ((⟨blankText source.chars, 0⟩ : Cursor).inParens more) =
        .ok (some (u, ⟨more, r.source.size + 1⟩))) :
      ∃ e, parse source (d :: ds) depth = .ok e ∧ Nests source (d :: ds) u e := by
    have hinner := Reading.wrapped_ok hds fun more => (hcore more).symm ▸ h more
    rcases Reading.line_wrapped_ok hd hinner [] Stops.nil with ⟨e, o, hline, _, hnests⟩ | hdeep'
    · rw [List.append_nil] at hline
      exact ⟨e, hok e o hline, hnests⟩
    · rw [List.append_nil] at hdeep'
      exact absurd hdeep' hlevels
  rcases Reading.term?_inParens (r := r) (within_program hbal) with
    ⟨op, hlone, h⟩ | ⟨u, hwhole, hplaces, h⟩ | ⟨e, f, hwhole, hfault, hpos, h⟩
  · obtain ⟨e, hparse, hnests⟩ := hread h
    exact .inl ⟨op, e, hlone, hparse, hnests⟩
  · obtain ⟨e, hparse, hnests⟩ := hread h
    exact .inr (.inl ⟨u, e, (parse_nil source depth).trans hwhole, hplaces, hparse, hnests⟩)
  · have hinner := Reading.wrapped_error hds fun more => (hcore more).symm ▸ h more
    have hline := Reading.line_wrapped_error hd hinner []
    rw [List.append_nil] at hline
    exact .inr (.inr ⟨e, f, (parse_nil source depth).trans hwhole, hfault, hpos, herror _ hline⟩)

/-- An operator alone is no program. -/
theorem parse_loneOperator (hbal : Balanced 0 (blankText source.chars)) {op : String}
    (h : LoneOperator ⟨blankText source.chars, 0⟩ op) (depth : Nat) :
    ∃ e, parse source [] depth = .error e := by
  rw [parse_nil]
  cases depth with
  | zero => exact ⟨_, rfl⟩
  | succ n => exact ⟨_, Reading.whole_of_loneOperator h (within_program hbal) (Nat.succ_pos n)⟩

/-- What the scan reports lies in the author's text. -/
theorem balanced_error {r : Reading} {e : At ParseFault}
    (h : r.balanced (blankText r.source.chars) = .error e) : InText r.source.size e.pos := by
  have stop : InText r.source.size ⟨r.source, r.source.size⟩ := ⟨Int.natCast_nonneg _, Int.le_refl _⟩
  unfold Reading.balanced at h
  split at h
  · cases h
  · rename_i k hk
    cases h
    have hle := close_offset_le hk
    rw [blankText, byteCount_blankFrom, Nat.zero_add] at hle
    exact ⟨Int.natCast_nonneg k, Int.ofNat_le.mpr hle⟩
  · cases h
    exact stop
  · cases h
    exact stop

/-- **An unbalanced program is refused**, with definitions and without. -/
theorem parse_unbalanced (hne : defs ≠ []) (h : ¬ Balanced 0 (blankText source.chars)) :
    (∃ e, (⟨source, depth⟩ : Reading).balanced (blankText source.chars) = .error e ∧
        InText source.size e.pos ∧ parse source defs depth = .error e) ∧
      ∃ e, parse source [] depth = .error e := by
  obtain ⟨d, ds, rfl⟩ := List.exists_cons_of_ne_nil hne
  refine ⟨?_, ?_⟩
  · cases hscan : (⟨source, depth⟩ : Reading).balanced (blankText source.chars) with
    | ok _ =>
      refine absurd ?_ h
      unfold Reading.balanced at hscan
      split at hscan
      · assumption
      · cases hscan
      · cases hscan
      · cases hscan
    | error e =>
      refine ⟨e, rfl, balanced_error (r := ⟨source, depth⟩) hscan, ?_⟩
      rw [parse_cons, hscan]
      rfl
  · cases hparse : parse source [] depth with
    | ok u => exact absurd (balanced_of_whole (parse_nil source depth ▸ hparse)) h
    | error e => exact ⟨e, rfl⟩

end Programs

/-- **A program cannot break out of its prelude.** The definitions have proper names and bodies, and
    there are levels enough.

    A program that is read alone is read under them as it is: the tree is the program under its
    definitions, and only the program's own nodes stand in the author's text. Whatever is read under
    them is such a tree, of a program or of an operator that is alone in the text. What fails, fails
    in the author's text. -/
theorem parse_contained {source : Source} {defs : List Definition} {depth : Nat} (hne : defs ≠ [])
    (hdefs : ∀ d ∈ defs, d.Proper) (hdeep : ¬ (parse source defs depth).TooDeep) :
    (∀ u, parse source [] depth = .ok u →
      ∃ e, parse source defs depth = .ok e ∧ Nests source defs u e ∧ u.Each (InText source.size)) ∧
    (∀ e, parse source defs depth = .ok e → ∃ u, Nests source defs u e ∧
      (parse source [] depth = .ok u ∨
        ∃ op i j, Spelled isOperatorChar op ∧ u = .name ⟨source, -1⟩ op ∧
          blankText source.chars = List.replicate i ' ' ++ op.toList ++ List.replicate j ' ')) ∧
    ∀ e, parse source defs depth = .error e → InText source.size e.pos := by
  by_cases hbal : Balanced 0 (blankText source.chars)
  · rcases parse_wrapped hdefs hne hbal hdeep with ⟨op, e, hlone, hparse, hnests⟩ |
      ⟨u, e, hbare, hplaces, hparse, hnests⟩ | ⟨e, f, hbare, hfault, hpos, hparse⟩
    · refine ⟨fun u hu => ?_, fun e' he' => ?_, fun e' he' => ?_⟩
      · obtain ⟨e₀, hbare⟩ := parse_loneOperator hbal hlone depth
        cases hbare.symm.trans hu
      · cases hparse.symm.trans he'
        obtain ⟨hspelled, i, j, htext⟩ := hlone.text
        exact ⟨_, hnests, .inr ⟨op, i, j, hspelled, rfl, htext⟩⟩
      · cases hparse.symm.trans he'
    · refine ⟨fun u' hu' => ?_, fun e' he' => ?_, fun e' he' => ?_⟩
      · cases hbare.symm.trans hu'
        exact ⟨e, hparse, hnests, hplaces⟩
      · cases hparse.symm.trans he'
        exact ⟨u, hnests, .inl hbare⟩
      · cases hparse.symm.trans he'
    · refine ⟨fun u' hu' => ?_, fun e' he' => ?_, fun e' he' => ?_⟩
      · cases hbare.symm.trans hu'
      · cases hparse.symm.trans he'
      · cases hparse.symm.trans he'
        exact hpos
  · obtain ⟨⟨e, _, hpos, hparse⟩, e₀, hbare⟩ :=
      (parse_unbalanced hne hbal : _ ∧ ∃ e, parse source [] depth = .error e)
    refine ⟨fun u' hu' => ?_, fun e' he' => ?_, fun e' he' => ?_⟩
    · cases hbare.symm.trans hu'
    · cases hparse.symm.trans he'
    · cases hparse.symm.trans he'
      exact hpos

/-- A sum under two definitions, with parentheses in a string and in a comment. -/
theorem parse_contained_sum :
    ∃ u e, parse ⟨"main", "one + f \")\" # ("⟩ [] 20 = .ok u ∧
      parse ⟨"main", "one + f \")\" # ("⟩ [⟨"(+)", "\\l.\\r. @add l r"⟩, ⟨"one", "1"⟩] 20 = .ok e ∧
      Nests ⟨"main", "one + f \")\" # ("⟩ [⟨"(+)", "\\l.\\r. @add l r"⟩, ⟨"one", "1"⟩] u e := by
  have hdefs : ∀ d ∈ ([⟨"(+)", "\\l.\\r. @add l r"⟩, ⟨"one", "1"⟩] : List Definition), d.Proper := by
    simp only [List.forall_mem_cons]
    exact ⟨Definition.proper_of_checks (x := "+") (by decide +kernel),
      Definition.proper_of_checks (x := "one") (by decide +kernel), nofun⟩
  have hread : (parse ⟨"main", "one + f \")\" # ("⟩ [⟨"(+)", "\\l.\\r. @add l r"⟩, ⟨"one", "1"⟩]
      20).toBool = true := by decide +kernel
  have hbare : (parse ⟨"main", "one + f \")\" # ("⟩ [] 20).toBool = true := by decide +kernel
  cases hu : parse ⟨"main", "one + f \")\" # ("⟩ [] 20 with
  | error e =>
    rw [hu] at hbare
    cases hbare
  | ok u =>
    have hdeep : ¬ (parse ⟨"main", "one + f \")\" # ("⟩
        [⟨"(+)", "\\l.\\r. @add l r"⟩, ⟨"one", "1"⟩] 20).TooDeep := by
      rintro ⟨limit, p, h⟩
      rw [h] at hread
      cases hread
    obtain ⟨e, hparse, hnests, _⟩ := (parse_contained (by decide) hdefs hdeep).1 u hu
    exact ⟨u, e, rfl, hparse, hnests⟩

end CallByNeed
