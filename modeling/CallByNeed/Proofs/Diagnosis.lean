/-
  File:      CallByNeed/Proofs/Diagnosis.lean
  Subject:   A diagnostic points at a word of the text that the fault counts in.

  The place of a fault is an offset into one of two texts, the program's or the fragment's, as its
  author wrote it. To find the word there the text is cut at that offset, so the offset must not lie
  inside a character.

  * `Expr.places`, `link_error` -- the places of a tree, and that a fault of linking is at one of
    them;
  * `Blames`, `compile_blames` -- which text a fault counts in;
  * `Pos.cutSpan`, `Pos.cutSpan_eq` -- the span that a cut gives;
  * `Pos.span?_word` -- it covers the word that begins there;
  * `diagnostics_between_characters` -- all of it, of every text and all options.
-/
import CallByNeed.Diagnostic
import CallByNeed.Proofs.Binding
import CallByNeed.Proofs.Bytewise.Agreement
import CallByNeed.Proofs.Parser.Spots

namespace CallByNeed

/-! ## 1. Steps that fail -/

section Steps

variable {ε ε' α : Type} {x : Except ε α} {g : ε → ε'}

theorem mapError_eq_error {e' : ε'} : x.mapError g = .error e' ↔ ∃ e, x = .error e ∧ g e = e' := by
  cases x with
  | error e => simp [Except.mapError]
  | ok a => simp [Except.mapError]

theorem mapError_eq_ok {a : α} : x.mapError g = .ok a ↔ x = .ok a := by
  cases x with
  | error e => simp [Except.mapError]
  | ok b => simp [Except.mapError]

end Steps

/-! ## 2. Places of faults -/

namespace Expr

/-- The places of the nodes of a tree. -/
def places : Expr → List Pos
  | .number p _ | .string p _ | .name p _ | .builtin p _ => [p]
  | .lambda p _ body => p :: body.places
  | .apply p func arg => p :: (func.places ++ arg.places)

variable {e program fragment : Expr} {p : Pos} {q : Pos → Prop}

theorem pos_mem_places (e : Expr) : e.pos ∈ e.places := by
  cases e <;> exact List.mem_cons_self

theorem Each.of_mem (h : e.Each q) (hp : p ∈ e.places) : q p := by
  induction e with
  | number | string | name | builtin =>
    rw [List.mem_singleton.mp hp]
    exact h
  | lambda p' x body ih =>
    rcases List.mem_cons.mp hp with rfl | hp
    · exact h.1
    · exact ih h.2 hp
  | apply p' func arg ihf iha =>
    rcases List.mem_cons.mp hp with rfl | hp
    · exact h.1
    · exact (List.mem_append.mp hp).elim (ihf h.2.1) (iha h.2.2)

/-- Injection brings no place along that is in neither tree. -/
theorem mem_places_inject (h : p ∈ (program.inject fragment).places) :
    p ∈ program.places ∨ p ∈ fragment.places := by
  fun_induction inject program fragment with
  | case1 p₁ p₂ x body value ih =>
    simp only [places, List.mem_cons, List.mem_append] at h ⊢
    rcases h with h | (h | h) | h
    · exact .inl (.inl h)
    · exact .inl (.inr (.inl (.inl h)))
    · exact (ih h).imp (fun hb => .inr (.inl (.inr hb))) id
    · exact .inl (.inr (.inr h))
  | case2 p₁ p₂ p₃ value p₄ x body ih =>
    simp only [places, List.mem_cons, List.mem_append] at h ⊢
    rcases h with h | h | h | h
    · exact .inl (.inl h)
    · exact .inl (.inr (.inl h))
    · exact .inl (.inr (.inr (.inl h)))
    · exact (ih h).imp (fun hb => .inr (.inr (.inr hb))) id
  | case3 => exact .inr h
  | case4 => exact .inr h

/-- An offender is blamed where it stands. -/
theorem offender_mem_places {scope : List String} {fault : At BindFault}
    (h : fault ∈ e.offenders scope) : fault.pos ∈ e.places := by
  induction e generalizing scope with
  | number p n => cases h
  | string p s => cases h
  | name p x =>
    rw [offenders] at h
    split at h
    · cases h
    · rw [List.mem_singleton.mp h]
      exact List.mem_cons_self
  | builtin p x =>
    rw [offenders] at h
    split at h
    · cases h
    · rw [List.mem_singleton.mp h]
      exact List.mem_cons_self
  | lambda p x body ih => exact List.mem_cons_of_mem _ (ih h)
  | apply p func arg ihf iha =>
    refine List.mem_cons_of_mem _ (List.mem_append.mpr ?_)
    exact (List.mem_append.mp h).imp ihf iha

theorem check_error_mem {fault : At BindFault} (h : e.check = .error fault) :
    fault.pos ∈ e.places := by
  unfold check at h
  cases howed : e.owed [] with
  | error f =>
    rw [howed] at h
    obtain rfl := Except.error.inj h
    exact offender_mem_places (List.mem_of_mem_head? ((owed_finds e []).error_iff.mp howed))
  | ok n =>
    rw [howed] at h
    dsimp only at h
    split at h
    · obtain rfl := Except.error.inj h
      exact e.pos_mem_places
    · cases h

theorem compile_error_mem {fault : At BindFault} (h : e.compile = .error fault) :
    fault.pos ∈ e.places :=
  offender_mem_places (List.mem_of_mem_head? ((ofExpr_finds e []).error_iff.mp h))

end Expr

/-- **A tree that cannot be linked is blamed at one of its places.** -/
theorem link_error {e : Expr} {fault : CompileFault} (h : link e = .error fault) :
    ∃ f, fault = .bind f ∧ f.pos ∈ e.places := by
  rcases bind_eq_error.mp h with h | ⟨_, _, h⟩
  · obtain ⟨f, hf, rfl⟩ := mapError_eq_error.mp h
    rw [e.checkWalk_eq] at hf
    exact ⟨f, rfl, Expr.check_error_mem hf⟩
  · obtain ⟨f, hf, rfl⟩ := mapError_eq_error.mp h
    rw [e.compileWalk_eq] at hf
    exact ⟨f, rfl, Expr.compile_error_mem hf⟩

/-! ## 3. The text that a fault counts in -/

/-- Which text a fault counts in: the program's if the program cannot be read or one of its nodes is
    wrong, the fragment's if that is so of the fragment. -/
inductive Blames (source : Source) (options : Options) : CompileFault → Source → Prop where
  | program {e : At ParseFault}
      (h : parse source options.definitions.definitions options.maxDepth = .error e) :
      Blames source options (.parse e) source
  | fragment {program : Expr} {text : String} {e : At ParseFault}
      (hprogram : parse source options.definitions.definitions options.maxDepth = .ok program)
      (htext : options.fragment = some text)
      (h : parse ⟨fragmentSource, text⟩ [] options.maxDepth = .error e) :
      Blames source options (.parse e) ⟨fragmentSource, text⟩
  | programNode {program : Expr} {e : At BindFault}
      (h : parse source options.definitions.definitions options.maxDepth = .ok program)
      (hplace : e.pos ∈ program.places) : Blames source options (.bind e) source
  | fragmentNode {fragment : Expr} {text : String} {e : At BindFault}
      (htext : options.fragment = some text)
      (h : parse ⟨fragmentSource, text⟩ [] options.maxDepth = .ok fragment)
      (hplace : e.pos ∈ fragment.places) :
      Blames source options (.bind e) ⟨fragmentSource, text⟩

section Blames

variable {source s : Source} {options : Options} {fault : CompileFault}

theorem injectFragment_error {program : Expr} {maxDepth : Nat} {fragment : Option String}
    (h : injectFragment program maxDepth fragment = .error fault) :
    ∃ text e, fragment = some text ∧ parse ⟨fragmentSource, text⟩ [] maxDepth = .error e ∧
      .parse e = fault := by
  cases fragment with
  | none => cases h
  | some text =>
    rcases bind_eq_error.mp h with h | ⟨_, _, h⟩
    · obtain ⟨e, he, hfault⟩ := mapError_eq_error.mp h
      exact ⟨text, e, rfl, he, hfault⟩
    · cases h

/-- Where a node of the tree comes from that is compiled. -/
theorem injectFragment_places {program tree : Expr} {maxDepth : Nat} {fragment : Option String}
    (h : injectFragment program maxDepth fragment = .ok tree) {p : Pos} (hp : p ∈ tree.places) :
    p ∈ program.places ∨ ∃ text e, fragment = some text ∧
      parse ⟨fragmentSource, text⟩ [] maxDepth = .ok e ∧ p ∈ e.places := by
  cases fragment with
  | none =>
    obtain rfl := Except.ok.inj h
    exact .inl hp
  | some text =>
    cases hparse : parse ⟨fragmentSource, text⟩ [] maxDepth with
    | error e =>
      simp only [injectFragment, hparse] at h
      cases h
    | ok e =>
      simp only [injectFragment, hparse] at h
      obtain rfl := Except.ok.inj h
      exact (Expr.mem_places_inject hp).imp id fun hp => ⟨text, e, rfl, hparse, hp⟩

/-- **Every fault counts in one of the two texts.** -/
theorem compile_blames (h : compile source options = .error fault) :
    ∃ s, Blames source options fault s := by
  rcases bind_eq_error.mp h with h | ⟨program, hprogram, h⟩
  · obtain ⟨e, he, rfl⟩ := mapError_eq_error.mp h
    exact ⟨source, .program he⟩
  rw [mapError_eq_ok] at hprogram
  rcases bind_eq_error.mp h with h | ⟨tree, htree, h⟩
  · obtain ⟨text, e, htext, he, rfl⟩ := injectFragment_error h
    exact ⟨_, .fragment hprogram htext he⟩
  rcases bind_eq_error.mp h with h | ⟨_, _, h⟩
  · obtain ⟨f, rfl, hplace⟩ := link_error h
    rcases injectFragment_places htree hplace with hplace | ⟨text, e, htext, he, hplace⟩
    · exact ⟨source, .programNode hprogram hplace⟩
    · exact ⟨_, .fragmentNode htext he hplace⟩
  · cases h

theorem Blames.onBoundary (h : Blames source options fault s) :
    fault.pos.source = s ∧ fault.pos.OnBoundary := by
  cases h with
  | program h => exact (parse_onBoundary _ _ _).2 _ h
  | fragment _ _ h => exact (parse_onBoundary _ _ _).2 _ h
  | programNode h hplace => exact ((parse_onBoundary _ _ _).1 _ h).of_mem hplace
  | fragmentNode _ h hplace => exact ((parse_onBoundary _ _ _).1 _ h).of_mem hplace

end Blames

/-! ## 4. The word at a place -/

/-- The word that a place points at: the text is cut there, and the word goes on up to a blank or a
    parenthesis, but has at least one character. -/
def Pos.cutSpan (p : Pos) : Sliced (Option Span) :=
  match p.authorOffset? with
  | none => .ok none
  | some start =>
    match splitBytes? start p.source.chars with
    | none => .error .insideCharacter
    | some (_, rest) =>
      let word := byteCount (rest.takeWhile fun ch => !endsWord ch)
      let first := byteCount (rest.take 1)
      .ok (some ⟨start, start + max word first⟩)

/-- Behind a cut that succeeds stands what is left when the bytes are dropped. -/
theorem dropBytes_of_split {n : Nat} {cs front back : List Char}
    (h : splitBytes? n cs = some (front, back)) : dropBytes n cs = back := by
  fun_induction splitBytes? n cs generalizing front with
  | case1 cs =>
    cases h
    cases back <;> rfl
  | case2 => cases h
  | case3 n c cs hle ih =>
    obtain ⟨⟨front', back'⟩, hsplit, hmap⟩ := Option.map_eq_some_iff.mp h
    obtain ⟨_, rfl⟩ := Prod.mk.inj hmap
    rw [dropBytes]
    exact ih hsplit
  | case4 => cases h

theorem wordBytes_eq (rest : List Char) :
    wordBytes rest =
      max (byteCount (rest.takeWhile fun ch => !endsWord ch)) (byteCount (rest.take 1)) := by
  cases rest with
  | nil => rfl
  | cons c rest =>
    have hone : byteCount ((c :: rest).take 1) = c.utf8Size := by simp
    rw [wordBytes, hone, List.takeWhile_cons]
    cases endsWord c with
    | true => simp
    | false => simp

variable {p : Pos} {before rest : List Char}

theorem Pos.authorOffset?_inside (h : p.source.chars = before ++ rest)
    (hoffset : byteCount before = p.offset) : p.authorOffset? = some (byteCount before) := by
  have hsize : p.source.size = byteCount before + byteCount rest := by
    rw [Source.size, h, byteCount_append]
  have hinside : 0 ≤ p.offset ∧ p.offset ≤ p.source.size := by omega
  rw [authorOffset?, Source.position?, if_pos hinside, Option.map_some]
  congr 1
  omega

theorem Pos.authorOffset?_outside (h : ¬ (0 ≤ p.offset ∧ p.offset ≤ p.source.size)) :
    p.authorOffset? = none := by
  rw [authorOffset?, Source.position?, if_neg h, Option.map_none]

theorem Pos.span?_inside (h : p.source.chars = before ++ rest)
    (hoffset : byteCount before = p.offset) :
    p.span? = some ⟨byteCount before, byteCount before + wordBytes rest⟩ := by
  rw [span?, authorOffset?_inside h hoffset, Option.map_some, h,
    dropBytes_of_split (splitBytes?_append before rest)]

theorem Pos.span?_outside (h : ¬ (0 ≤ p.offset ∧ p.offset ≤ p.source.size)) : p.span? = none := by
  rw [span?, authorOffset?_outside h, Option.map_none]

/-- **On a boundary the cut succeeds, and gives the span.** -/
theorem Pos.OnBoundary.cutSpan_eq (h : p.OnBoundary) : p.cutSpan = .ok p.span? := by
  by_cases hinside : 0 ≤ p.offset ∧ p.offset ≤ p.source.size
  · rcases h with h | h | ⟨before, after, hchars, hoffset⟩
    · omega
    · omega
    · rw [cutSpan, authorOffset?_inside hchars hoffset, span?_inside hchars hoffset, hchars,
        wordBytes_eq]
      dsimp only
      rw [splitBytes?_append]
  · rw [cutSpan, authorOffset?_outside hinside, span?_outside hinside]

/-- The word at the head of a text: at least one character if there is one, and behind the first
    one neither a blank nor a parenthesis. -/
theorem exists_word (rest : List Char) :
    ∃ word after, rest = word ++ after ∧ wordBytes rest = byteCount word ∧
      (word = [] → after = []) ∧ ∀ ch ∈ word.tail, endsWord ch = false := by
  cases rest with
  | nil => exact ⟨[], [], rfl, rfl, fun _ => rfl, nofun⟩
  | cons c cs =>
    by_cases hc : endsWord c = true
    · refine ⟨[c], cs, rfl, ?_, nofun, nofun⟩
      rw [wordBytes, if_pos hc]
      rfl
    · refine ⟨c :: cs.takeWhile fun d => !endsWord d, cs.dropWhile fun d => !endsWord d, ?_, ?_,
        nofun, fun ch hch => ?_⟩
      · rw [List.cons_append, List.takeWhile_append_dropWhile]
      · rw [wordBytes, if_neg hc, byteCount_cons]
      · simpa using List.mem_takeWhile_imp hch

/-! ## 5. Diagnostics -/

/-- **No text is cut inside a character, and a diagnostic points at a word.** Byte by byte, the
    program and the fragment are read without such a cut. If a text does not compile, the fault
    counts in the program's text or in the fragment's, and so does its place. The diagnostic is found
    without such a cut, too: the place lies outside the text and there is no span, or the span covers
    the characters from there up to the next blank or parenthesis, and at least one unless the text
    ends there. -/
theorem diagnostics_between_characters (source : Source) (options : Options) :
    parseBytes source options.definitions.definitions options.maxDepth =
      (parse source options.definitions.definitions options.maxDepth).mapError .fault ∧
    (∀ text, options.fragment = some text →
      parseBytes ⟨fragmentSource, text⟩ [] options.maxDepth =
        (parse ⟨fragmentSource, text⟩ [] options.maxDepth).mapError .fault) ∧
    ∀ fault, compile source options = .error fault →
      Blames source options fault fault.pos.source ∧
      fault.pos.cutSpan = .ok fault.diagnostic.span ∧
      ((fault.pos.offset < 0 ∨ fault.pos.source.size < fault.pos.offset) ∧
          fault.diagnostic.span = none ∨
        ∃ before word after, fault.pos.source.chars = before ++ (word ++ after) ∧
          byteCount before = fault.pos.offset ∧
          fault.diagnostic.span = some ⟨byteCount before, byteCount before + byteCount word⟩ ∧
          (word = [] → fault.pos.offset = fault.pos.source.size) ∧
          ∀ ch ∈ word.tail, endsWord ch = false) := by
  refine ⟨parseBytes_eq _ _ _, fun text _ => parseBytes_eq _ _ _, fun fault hfault => ?_⟩
  obtain ⟨s, hblames⟩ := compile_blames hfault
  obtain ⟨rfl, hboundary⟩ := hblames.onBoundary
  refine ⟨hblames, hboundary.cutSpan_eq, ?_⟩
  rcases hboundary with hneg | hbeyond | ⟨before, rest, hchars, hoffset⟩
  · exact .inl ⟨.inl hneg, Pos.span?_outside (by omega)⟩
  · exact .inl ⟨.inr hbeyond, Pos.span?_outside (by omega)⟩
  · obtain ⟨word, after, rfl, hbytes, hempty, hword⟩ := exists_word rest
    refine .inr ⟨before, word, after, hchars, hoffset, ?_, fun hnil => ?_, hword⟩
    · rw [← hbytes]
      exact Pos.span?_inside hchars hoffset
    · rw [← hoffset, Source.size, hchars, hnil, hempty hnil, List.append_nil, List.append_nil]

/-- A name that nothing binds, behind a comment with a character of two bytes. -/
theorem diagnostics_between_characters_unbound :
    let source : Source := ⟨"main", "# é\nx y"⟩
    let fault : CompileFault := .bind ⟨.unbound "x", ⟨source, 5⟩⟩
    compile source {} = .error fault ∧ fault.pos.cutSpan = .ok (some ⟨5, 6⟩) := by
  have hspan : (⟨⟨"main", "# é\nx y"⟩, 5⟩ : Pos).span? = some ⟨5, 6⟩ := by decide +kernel
  intro source fault
  have hfault : compile source {} = .error fault := by decide +kernel
  obtain ⟨_, hcut, _⟩ := (diagnostics_between_characters source {}).2.2 fault hfault
  refine ⟨hfault, hcut.trans ?_⟩
  show Except.ok (Pos.span? ⟨source, 5⟩) = _
  rw [hspan]

end CallByNeed
