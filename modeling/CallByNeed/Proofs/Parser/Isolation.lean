/-
  File:      CallByNeed/Proofs/Parser/Isolation.lean
  Subject:   What a comment in the body of a definition does to the definitions around it.

  The bodies of a prelude are blanked in one go, the innermost one first. A body that can be read
  alone leaves no string open, but it may leave a comment open, and such a comment takes the
  parenthesis behind the body and goes on outwards.

  * `bodyPiece`, `bodySlice?` -- a body blanked alone, in the parentheses put around it, and the
    bytes of the prepared text that it should be;
  * `bodySlice?_eq` -- what these bytes are, with no comment open further in;
  * `bodySlice?_eq_piece_iff` -- they are the body's own, if no comment is open behind it;
  * `bodies_isolated` -- all bodies.
-/
import CallByNeed.Proofs.Bytewise.Slice
import CallByNeed.Proofs.Parser.Containment

namespace CallByNeed

/-! ## 1. One body -/

/-- A body, blanked alone, in the parentheses put around it. -/
def bodyPiece (d : Definition) : List Char :=
  [')', ')', '('] ++ (blankText d.body.toList ++ [')'])

/-- The bytes of the prepared text that belong to the body of `d` and to the parentheses put around
    it, where the definitions `inner` stand further in. -/
def bodySlice? (program : List Char) (defs : List Definition) (d : Definition)
    (inner : List Definition) : Option (List Char) :=
  let start := byteCount (opening defs) + byteCount program + byteCount (closing inner)
  slice? (prepare program defs).text start (start + (byteCount d.body.toList + 4))

theorem closing_append (outer inner : List Definition) :
    closing (outer ++ inner) = closing inner ++ closing outer := by
  simp [closing]

/-- Bodies that leave no comment open leave none open together. -/
theorem after_closing {ds : List Definition} (h : ∀ d ∈ ds, d.Ended) :
    Region.after .code (closing ds) = .code := by
  induction ds with
  | nil => rfl
  | cons d ds ih =>
    have hds := ih fun d' hd' => h d' (List.mem_cons_of_mem _ hd')
    exact (blank_closing_cons (h d List.mem_cons_self) hds).2

section One

variable {program : List Char} {outer inner : List Definition} {d : Definition}

/-- **With no comment open further in, a body stands as it is blanked alone.** What becomes of the
    parenthesis behind it hangs on where the body ends. -/
theorem bodySlice?_eq (hinner : ∀ d' ∈ inner, d'.Ended) :
    bodySlice? program (outer ++ d :: inner) d inner =
      some ([')', ')', '('] ++
        (blankText d.body.toList ++ (Region.after .code d.body.toList).blanked ')')) := by
  have parens : Clean [')', ')', '('] := clean_of_plain (by decide)
  have hback : blankText (closing (outer ++ d :: inner)) = blankText (closing inner) ++
      (([')', ')', '('] ++ (blankText d.body.toList ++
        (Region.after .code d.body.toList).blanked ')')) ++
          blankFrom ((Region.after .code d.body.toList).step ')') (closing outer)) := by
    rw [closing_append, closing_cons, blankText, blankText, blankText, List.append_assoc,
      blankFrom_append, after_closing hinner, List.append_assoc, List.append_assoc,
      blankFrom_append, parens.1, parens.2, blankFrom_append, List.singleton_append,
      blankFrom_cons]
    simp only [List.append_assoc]
  have hstart : byteCount (blankText (opening (outer ++ d :: inner)) ++ blankText program ++
      blankText (closing inner)) =
        byteCount (opening (outer ++ d :: inner)) + byteCount program + byteCount (closing inner) := by
    simp only [byteCount_append, blankText, byteCount_blankFrom]
  have hsize : byteCount ([')', ')', '('] ++ (blankText d.body.toList ++
      (Region.after .code d.body.toList).blanked ')')) = byteCount d.body.toList + 4 := by
    have one : ')'.utf8Size = 1 ∧ '('.utf8Size = 1 := by decide
    simp only [byteCount_append, byteCount_cons, byteCount_nil, byteCount_blanked, blankText,
      byteCount_blankFrom, one]
    omega
  rw [bodySlice?, Prepared.text, prepare, hback, ← hstart, ← hsize, ← List.append_assoc]
  exact slice?_append _ _ _

/-- A body that can be read leaves no string open. -/
theorem ended_or_comment {name : String} {depth : Nat} {e : Expr}
    (h : parse ⟨name, d.body⟩ [] depth = .ok e) :
    d.Ended ∨ Region.after .code d.body.toList = .comment := by
  rw [parse_nil] at h
  have hnesting := nesting_of_balanced (r := .code) (balanced_of_whole h)
  rw [Definition.Ended]
  cases hr : Region.after .code d.body.toList with
  | code => exact .inl rfl
  | comment => exact .inr rfl
  | string | escape =>
    rw [Source.chars, hr] at hnesting
    cases hnesting

/-- **A body is isolated if no comment is open behind it**, and only then. -/
theorem bodySlice?_eq_piece_iff (hinner : ∀ d' ∈ inner, d'.Ended)
    (hbody : ∃ name depth e, parse ⟨name, d.body⟩ [] depth = .ok e) :
    bodySlice? program (outer ++ d :: inner) d inner = some (bodyPiece d) ↔ d.Ended := by
  obtain ⟨name, depth, e, hparse⟩ := hbody
  rw [bodySlice?_eq hinner, bodyPiece, Option.some_inj, List.append_cancel_left_eq,
    List.append_cancel_left_eq]
  rcases ended_or_comment hparse with hended | hcomment
  · rw [Definition.Ended] at hended
    simp only [Definition.Ended, hended, iff_true]
    decide
  · simp only [Definition.Ended, hcomment]
    decide

end One

/-! ## 2. All bodies -/

/-- **The bodies of a prelude are isolated from each other, as long as none of them ends in a
    comment.** The bodies can be read, each alone. A body stands in the prepared text as it is
    blanked alone, in its parentheses, if no comment is open behind it and behind those further in;
    all of them stand so only if no comment is open behind any. -/
theorem bodies_isolated {program : List Char} {defs : List Definition}
    (hbodies : ∀ d ∈ defs, ∃ name depth e, parse ⟨name, d.body⟩ [] depth = .ok e) :
    (∀ outer d inner, defs = outer ++ d :: inner → (∀ d' ∈ d :: inner, d'.Ended) →
      bodySlice? program defs d inner = some (bodyPiece d)) ∧
    ((∀ outer d inner, defs = outer ++ d :: inner →
      bodySlice? program defs d inner = some (bodyPiece d)) ↔ ∀ d ∈ defs, d.Ended) := by
  have part : ∀ outer d inner, defs = outer ++ d :: inner → (∀ d' ∈ d :: inner, d'.Ended) →
      bodySlice? program defs d inner = some (bodyPiece d) := by
    rintro outer d inner rfl hended
    obtain ⟨hd, hinner⟩ := List.forall_mem_cons.mp hended
    exact (bodySlice?_eq_piece_iff hinner (hbodies d (by simp))).mpr hd
  refine ⟨part, fun h => ?_, fun h outer d inner hdefs => ?_⟩
  · -- from the innermost definition outwards: no comment reaches a body from further in
    have inwards : ∀ inner outer, defs = outer ++ inner → ∀ d ∈ inner, d.Ended := by
      intro inner
      induction inner with
      | nil => exact fun _ _ => nofun
      | cons d inner ih =>
        rintro outer rfl
        have hinner := ih (outer ++ [d]) (by simp)
        have hd := (bodySlice?_eq_piece_iff hinner (hbodies d (by simp))).mp (h outer d inner rfl)
        exact List.forall_mem_cons.mpr ⟨hd, hinner⟩
    exact inwards defs [] rfl
  · refine part outer d inner hdefs fun d' hd' => h d' ?_
    rw [hdefs]
    exact List.mem_append_right _ hd'

/-- A comment that ends with its line, and a `#` in a string. -/
theorem bodies_isolated_lines :
    bodySlice? "x".toList [⟨"a", "1 # one\n"⟩, ⟨"b", "\"#\""⟩] ⟨"a", "1 # one\n"⟩ [⟨"b", "\"#\""⟩] =
      some "))(1       )".toList := by
  have hread (body : String) (h : (parse ⟨"", body⟩ [] 1).toBool = true) :
      ∃ name depth e, parse ⟨name, body⟩ [] depth = .ok e := by
    cases hparse : parse ⟨"", body⟩ [] 1 with
    | error fault =>
      rw [hparse] at h
      cases h
    | ok e => exact ⟨"", 1, e, hparse⟩
  have hbodies : ∀ d ∈ ([⟨"a", "1 # one\n"⟩, ⟨"b", "\"#\""⟩] : List Definition),
      ∃ name depth e, parse ⟨name, d.body⟩ [] depth = .ok e := by
    simp only [List.forall_mem_cons]
    exact ⟨hread _ (by decide +kernel), hread _ (by decide +kernel), nofun⟩
  have hended : ∀ d ∈ ([⟨"a", "1 # one\n"⟩, ⟨"b", "\"#\""⟩] : List Definition), d.Ended := by
    simp only [List.forall_mem_cons]
    exact ⟨by unfold Definition.Ended; decide +kernel, by unfold Definition.Ended; decide +kernel,
      nofun⟩
  exact ((@bodies_isolated "x".toList _ hbodies).1 [] _ _ rfl hended).trans
    (by decide +kernel)

/-- A body that can be read alone and ends in a comment loses its parenthesis, and the body around it
    is lost with it. -/
theorem open_comment_takes_bodies :
    (parse ⟨"a", "1"⟩ [] 1).toBool = true ∧ (parse ⟨"b", "2 # two"⟩ [] 1).toBool = true ∧
    (prepare "x".toList [⟨"a", "1"⟩, ⟨"b", "2 # two"⟩]).text =
      "(\\a.((\\b.(x))(2            ".toList ∧
    bodySlice? "x".toList [⟨"a", "1"⟩, ⟨"b", "2 # two"⟩] ⟨"b", "2 # two"⟩ [] ≠
      some (bodyPiece ⟨"b", "2 # two"⟩) ∧
    bodySlice? "x".toList [⟨"a", "1"⟩, ⟨"b", "2 # two"⟩] ⟨"a", "1"⟩ [⟨"b", "2 # two"⟩] ≠
      some (bodyPiece ⟨"a", "1"⟩) := by
  decide +kernel

end CallByNeed
