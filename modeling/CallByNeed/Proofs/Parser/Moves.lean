/-
  File:      CallByNeed/Proofs/Parser/Moves.lean
  Subject:   Derivations in front of other text.

  What is read depends on the text behind it in two ways only. A word, a number and an operator end
  in front of a character that does not go on with them, and a line ends where no operand begins. So
  a derivation can be taken, with its text, to another place where both are so.

  * `Over`, `MayFollow` -- the texts in front of which a line is over; the texts that may take the
    place of the one behind a derivation;
  * `Longest.moved`, `Bracketed.movable`, ... -- the tokens;
  * `Derives.moves` -- every derivation.
-/
import CallByNeed.Proofs.Parser.Derivation

namespace CallByNeed

/-! ## 1. Text in front of other text -/

/-- In front of this text a line is over. -/
def Over (s : List Char) : Prop := NoOperand s ∧ dropSpaces s = s

/-- What is read in front of `s` may stand in front of `s'` as well: a line is over there, or the
    text goes on with the same character and nothing that is read in front of `s` stops for want of
    an operand. -/
def MayFollow (s s' : List Char) : Prop := Over s' ∨ (s'.head? = s.head? ∧ (Over s → s' = s))

theorem over_close (s : List Char) : Over (')' :: s) :=
  ⟨noOperand_close s, dropSpaces_cons (by decide) s⟩

theorem over_semicolon (s : List Char) : Over (';' :: s) :=
  ⟨noOperand_semicolon s, dropSpaces_cons (by decide) s⟩

theorem MayFollow.refl (s : List Char) : MayFollow s s := .inr ⟨rfl, fun _ => rfl⟩

theorem MayFollow.over {s s' : List Char} (h : MayFollow s s') (hs : Over s) : Over s' := by
  rcases h with h | ⟨_, h⟩
  · exact h
  · rwa [h hs]

/-- Neither a word nor a number goes on where no operand begins. -/
theorem NoOperand.head {s : List Char} (h : NoOperand s) :
    ∀ ch ∈ s.head?, isNameChar ch = false ∧ ch.isDigit = false := by
  intro ch hch
  cases s with
  | nil => cases hch
  | cons d s =>
    cases hch
    have hdigit : ch.isDigit = false := by
      cases hd : ch.isDigit with
      | false => rfl
      | true =>
        have hform := h.1
        rw [formOf_digit hd] at hform
        cases hform
    refine ⟨?_, hdigit⟩
    cases hn : isNameChar ch with
    | false => rfl
    | true =>
      have hform := h.1
      rw [formOf_name hn hdigit] at hform
      cases hform

/-- A run that ends in front of `s` ends in front of `s'`. -/
theorem MayFollow.run {s s' : List Char} (h : MayFollow s s') {p : Char → Bool}
    (hp : ∀ ch ∈ s.head?, p ch = false)
    (hno : NoOperand s' → ∀ ch ∈ s'.head?, p ch = false) : ∀ ch ∈ s'.head?, p ch = false := by
  rcases h with h | ⟨hhead, _⟩
  · exact hno h.1
  · rwa [hhead]

theorem head?_append_congr {s s' : List Char} (h : s'.head? = s.head?) (w : List Char) :
    (w ++ s').head? = (w ++ s).head? := by
  simp only [List.head?_append, h]

/-- A text that begins like another one, or with a parenthesis. -/
def Opens (s s' : List Char) : Prop := s'.head? = s.head? ∨ s'.head? = some '('

theorem Opens.run {s s' : List Char} (h : Opens s s') {p : Char → Bool} (hparen : p '(' = false)
    (hp : ∀ ch ∈ s.head?, p ch = false) : ∀ ch ∈ s'.head?, p ch = false := by
  rcases h with h | h
  · rwa [h]
  · rw [h]
    intro ch hch
    cases hch
    exact hparen

theorem head?_append_of_ne_nil {w : List Char} (h : w ≠ []) (s s' : List Char) :
    (w ++ s').head? = (w ++ s).head? := by
  obtain ⟨ch, rest, rfl⟩ := List.exists_cons_of_ne_nil h
  rfl

theorem Opens.append {s s' : List Char} (h : Opens s s') (w : List Char) :
    Opens (w ++ s) (w ++ s') := by
  by_cases hw : w = []
  · subst hw
    exact h
  · exact .inl (head?_append_of_ne_nil hw s s')

/-! ## 2. Tokens in front of other text -/

/-- The spaces in front of a text. -/
theorem exists_spaces (s : List Char) :
    ∃ sp, s = sp ++ dropSpaces s ∧ ∀ x, dropSpaces (sp ++ x) = dropSpaces x := by
  refine ⟨s.takeWhile (· == ' '), List.takeWhile_append_dropWhile.symm, fun x => ?_⟩
  have hall : ∀ ch ∈ s.takeWhile (· == ' '), (ch == ' ') = true :=
    fun ch hch => List.mem_takeWhile_imp (p := (· == ' ')) hch
  exact List.dropWhile_append_of_pos hall

/-- A text that begins like one without spaces has none. -/
theorem Opens.dropSpaces {s s' : List Char} (h : Opens (dropSpaces s) s') : dropSpaces s' = s' := by
  cases s' with
  | nil => rfl
  | cons ch s' =>
    refine dropSpaces_cons ?_ s'
    rcases h with h | h
    · refine dropSpaces_head s ch ?_
      rw [← h]
      rfl
    · cases h
      decide

theorem Longest.rest_head {p : Char → Bool} {x : String} {s s' : List Char}
    (h : Longest p x s s') : ∀ ch ∈ s'.head?, p ch = false := by
  intro ch hch
  have hnot := List.head?_dropWhile_not p s
  rw [h.rest, Option.mem_def.mp hch] at hnot
  simpa using hnot

theorem Longest.text {p : Char → Bool} {x : String} {s s' : List Char} (h : Longest p x s s') :
    s = x.toList ++ s' := by
  rw [← h.run, ← h.rest, List.takeWhile_append_dropWhile]

theorem Longest.moved {p : Char → Bool} {x : String} {s s' : List Char} (h : Longest p x s s')
    {s'' : List Char} (hs : ∀ ch ∈ s''.head?, p ch = false) :
    Longest p x (x.toList ++ s'') s'' := by
  have hall : ∀ ch ∈ x.toList, p ch = true := by
    rw [← h.run]
    exact fun ch hch => List.mem_takeWhile_imp hch
  refine ⟨?_, ?_, h.some⟩
  · rw [List.takeWhile_append_of_pos hall, Cursor.takeWhile_of_head hs, List.append_nil]
  · rw [List.dropWhile_append_of_pos hall, Cursor.dropWhile_of_head hs]

theorem Bracketed.movable {op : String} {s s' : List Char} (h : Bracketed op s s') :
    ∃ w, w ≠ [] ∧ s = w ++ s' ∧ ∀ s'', Bracketed op (w ++ s'') s'' := by
  obtain ⟨s₁, s₂, rfl, hop, hclose⟩ := h
  obtain ⟨sp₁, h₁, hdrop₁⟩ := exists_spaces s₁
  obtain ⟨sp₂, h₂, hdrop₂⟩ := exists_spaces s₂
  rw [hclose] at h₂
  have hhead (s'' : List Char) : (sp₂ ++ ')' :: s'').head? = s₂.head? := by
    rw [h₂]
    exact head?_append_congr (show (')' :: s'').head? = (')' :: s').head? from rfl) sp₂
  refine ⟨'(' :: (sp₁ ++ (op.toList ++ (sp₂ ++ [')']))), by simp, ?_, fun s'' => ?_⟩
  · rw [h₁, hop.text, h₂]
    simp
  · have hop'' : Longest isOperatorChar op (op.toList ++ (sp₂ ++ ')' :: s'')) (sp₂ ++ ')' :: s'') :=
      hop.moved (by rw [hhead]; exact hop.rest_head)
    refine ⟨sp₁ ++ (op.toList ++ (sp₂ ++ ')' :: s'')), sp₂ ++ ')' :: s'', by simp, ?_, ?_⟩
    · have hfront : Opens (dropSpaces s₁) (op.toList ++ (sp₂ ++ ')' :: s'')) := by
        rw [hop.text]
        exact .inl (head?_append_congr (hhead s'') _)
      rw [hdrop₁, hfront.dropSpaces]
      exact hop''
    · rw [hdrop₂, dropSpaces_cons (by decide)]

theorem Param.At.movable {p : Param} {s s' : List Char} (h : p.At s s') :
    ∃ w, s = w ++ s' ∧ ∀ s'', s''.head? = s'.head? → p.At (w ++ s'') s'' := by
  cases h with
  | absent => exact ⟨[], rfl, fun s'' _ => .absent s''⟩
  | word hw =>
    refine ⟨_, hw.text, fun s'' hs => .word (hw.moved ?_)⟩
    rw [hs]
    exact hw.rest_head
  | operator hop =>
    obtain ⟨w, _, hs, hmoved⟩ := hop.movable
    exact ⟨w, hs, fun s'' _ => .operator (hmoved s'')⟩

/-- Whether a sign stands in front of a digit is seen from the first two characters. -/
theorem signed_moved {w s s' : List Char} (hw : w ≠ []) (h : Opens s s')
    (hs : signed (w ++ s) = false) : signed (w ++ s') = false := by
  obtain ⟨a, w, rfl⟩ := List.exists_cons_of_ne_nil hw
  have hsecond := h.append w
  simp only [List.cons_append] at hs ⊢
  generalize w ++ s' = x at hsecond
  generalize w ++ s = y at hsecond hs
  cases x with
  | nil => rfl
  | cons b x =>
    rcases hsecond with hsecond | hsecond
    · cases y with
      | nil => cases hsecond
      | cons d y =>
        cases hsecond
        exact hs
    · cases hsecond
      simp [signed]

theorem LeadAt.movable {lead : Option String} {s s' : List Char} (h : LeadAt lead s s') :
    ∃ w, s = w ++ s' ∧ ∀ s'', Opens s' s'' → LeadAt lead (w ++ s'') s'' := by
  cases h with
  | none => exact ⟨[], rfl, fun s'' _ => .none s''⟩
  | operator hop hsigned =>
    refine ⟨_, hop.text, fun s'' hs => .operator (hop.moved ?_) ?_⟩
    · exact hs.run (by decide) hop.rest_head
    · refine signed_moved hop.some hs ?_
      rw [← hop.text]
      exact hsigned

theorem JointAt.movable {op : Option String} {s s' : List Char} (h : JointAt op s s') :
    ∃ w, s = w ++ s' ∧ ∀ s'', Opens s' s'' → JointAt op (w ++ s'') s'' := by
  cases h with
  | none hchars => exact ⟨[], rfl, fun s'' hs => .none (hs.run (by decide) hchars)⟩
  | operator hop =>
    exact ⟨_, hop.text, fun s'' hs => .operator (hop.moved (hs.run (by decide) hop.rest_head))⟩

/-- What stands in front of a term, with spaces around it. `P` says what it is: the beginning of a
    line, or what joins two operands. -/
theorem movable_in_front {P : List Char → List Char → Prop} {s s' : List Char}
    (h : ∃ w, dropSpaces s = w ++ s' ∧ ∀ s'', Opens s' s'' → P (w ++ s'') s'') :
    ∃ g, s = g ++ dropSpaces s' ∧
      ∀ s'', Opens (dropSpaces s') s'' → ∃ x, P (dropSpaces (g ++ s'')) x ∧ dropSpaces x = s'' := by
  obtain ⟨w, hw, hmoved⟩ := h
  obtain ⟨sp, h₀, hdrop₀⟩ := exists_spaces s
  obtain ⟨sp', h', hdrop'⟩ := exists_spaces s'
  refine ⟨sp ++ (w ++ sp'), ?_, fun s'' hs => ⟨sp' ++ s'', ?_, ?_⟩⟩
  · rw [List.append_assoc, List.append_assoc, ← h', ← hw]
    exact h₀
  · have hopens : Opens s' (sp' ++ s'') := by
      rw [h']
      exact hs.append sp'
    have hfront : Opens (dropSpaces s) (w ++ (sp' ++ s'')) := by
      rw [hw]
      exact hopens.append w
    rw [List.append_assoc, List.append_assoc, hdrop₀, hfront.dropSpaces]
    exact hmoved _ hopens
  · rw [hdrop', hs.dropSpaces]

/-! ## 3. Derivations in front of other text -/

/-- What follows further operands may be put behind their text. -/
theorem Derives.mayFollow {more : Derivation .operands} {w s s' : List Char}
    (h : Derives NoOperand more (w ++ s) s) (hs : MayFollow s s') :
    MayFollow (w ++ s) (w ++ s') := by
  by_cases hw : w = []
  · subst hw
    exact hs
  · refine .inr ⟨head?_append_of_ne_nil hw _ _, fun hover => ?_⟩
    -- a line that is over has no operand left
    obtain ⟨_, hsame⟩ := h.unique (.nothing hover.1 hover.2)
    exact absurd (List.self_eq_append_left.mp hsame) hw

/-- The text of a derivation by itself. -/
def Moves {k : Nonterminal} (t : Derivation k) (s s' : List Char) : Prop :=
  ∃ w, s = w ++ s' ∧ (k = .term → w ≠ []) ∧
    ∀ s'', MayFollow s' s'' → Derives NoOperand t (w ++ s'') s''

theorem moves_group {inner : Derivation .line} {s₁ s₂ s' : List Char}
    (hinner : Derives NoOperand inner s₁ s₂) (hclose : dropSpaces s₂ = ')' :: s')
    (ih : Moves inner s₁ s₂) : Moves (.group inner) ('(' :: s₁) s' := by
  obtain ⟨w, rfl, _, hmoved⟩ := ih
  obtain ⟨_, hspaces⟩ := hinner.noOperand (by simp)
  obtain rfl : s₂ = ')' :: s' := hspaces.symm.trans hclose
  refine ⟨'(' :: (w ++ [')']), by simp, by simp, fun s'' _ => ?_⟩
  have hw : '(' :: (w ++ [')']) ++ s'' = '(' :: (w ++ ')' :: s'') := by simp
  rw [hw]
  exact .group rfl (hmoved _ (.inl (over_close s''))) (dropSpaces_cons (by decide) s'')

theorem moves_lambda {param : Param} {body : Derivation .line} {s₁ s₂ s₃ s' : List Char}
    (hparam : param.At (dropSpaces s₁) s₂) (hdot : dropSpaces s₂ = '.' :: s₃)
    (ih : Moves body s₃ s') : Moves (.lambda param body) ('\\' :: s₁) s' := by
  obtain ⟨w, rfl, _, hmoved⟩ := ih
  obtain ⟨sp₁, h₁, hdrop₁⟩ := exists_spaces s₁
  obtain ⟨sp₂, h₂, hdrop₂⟩ := exists_spaces s₂
  obtain ⟨wp, hp, hparam'⟩ := hparam.movable
  rw [hdot] at h₂
  refine ⟨'\\' :: (sp₁ ++ (wp ++ (sp₂ ++ '.' :: w))), by simp [← h₂, ← hp, ← h₁], by simp, ?_⟩
  intro s'' hs
  have hhead : (sp₂ ++ '.' :: (w ++ s'')).head? = s₂.head? := by
    rw [h₂, List.head?_append, List.head?_append]
    rfl
  have hparam'' : param.At (dropSpaces (sp₁ ++ (wp ++ (sp₂ ++ '.' :: (w ++ s'')))))
      (sp₂ ++ '.' :: (w ++ s'')) := by
    have hfront : Opens (dropSpaces s₁) (wp ++ (sp₂ ++ '.' :: (w ++ s''))) := by
      rw [hp]
      exact .inl (head?_append_congr hhead wp)
    rw [hdrop₁, hfront.dropSpaces]
    exact hparam' _ hhead
  have hdot'' : dropSpaces (sp₂ ++ '.' :: (w ++ s'')) = '.' :: (w ++ s'') := by
    rw [hdrop₂, dropSpaces_cons (by decide)]
  have hmoved'' : Derives NoOperand (.lambda param body)
      ('\\' :: (sp₁ ++ (wp ++ (sp₂ ++ '.' :: (w ++ s''))))) s'' :=
    .lambda rfl hparam'' hdot'' (hmoved s'' hs)
  simpa using hmoved''

theorem moves_binding {param : Param} {op : String} {value body : Derivation .line}
    {s₁ s₂ s₃ s₄ s₅ s' : List Char} (hparam : param.At (dropSpaces s₁) s₂)
    (hop : Longest isOperatorChar op (dropSpaces s₂) s₃) (hvalue : Derives NoOperand value s₃ s₄)
    (hsemi : dropSpaces s₄ = ';' :: s₅) (ihv : Moves value s₃ s₄) (ihb : Moves body s₅ s') :
    Moves (.binding param op value body) ('\\' :: s₁) s' := by
  obtain ⟨v, rfl, _, hvalue'⟩ := ihv
  obtain ⟨w, rfl, _, hbody'⟩ := ihb
  obtain ⟨_, hspaces⟩ := hvalue.noOperand (by simp)
  obtain rfl : s₄ = ';' :: (w ++ s') := hspaces.symm.trans hsemi
  obtain ⟨sp₁, h₁, hdrop₁⟩ := exists_spaces s₁
  obtain ⟨sp₂, h₂, hdrop₂⟩ := exists_spaces s₂
  obtain ⟨wp, hp, hparam'⟩ := hparam.movable
  rw [hop.text] at h₂
  refine ⟨'\\' :: (sp₁ ++ (wp ++ (sp₂ ++ (op.toList ++ (v ++ ';' :: w))))), ?_, by simp, ?_⟩
  · rw [h₁, hp, h₂]
    simp
  intro s'' hs
  -- the texts behind the parameter, the operator and the value begin as they did
  have hheadv : (v ++ ';' :: (w ++ s'')).head? = (v ++ ';' :: (w ++ s')).head? := by
    rw [List.head?_append, List.head?_append]
    rfl
  have hheado : (op.toList ++ (v ++ ';' :: (w ++ s''))).head? = (dropSpaces s₂).head? := by
    rw [hop.text]
    exact head?_append_congr hheadv op.toList
  have hhead : (sp₂ ++ (op.toList ++ (v ++ ';' :: (w ++ s'')))).head? = s₂.head? := by
    rw [h₂]
    exact head?_append_congr (head?_append_congr hheadv op.toList) sp₂
  have hparam'' : param.At
      (dropSpaces (sp₁ ++ (wp ++ (sp₂ ++ (op.toList ++ (v ++ ';' :: (w ++ s'')))))))
      (sp₂ ++ (op.toList ++ (v ++ ';' :: (w ++ s'')))) := by
    have hfront : Opens (dropSpaces s₁)
        (wp ++ (sp₂ ++ (op.toList ++ (v ++ ';' :: (w ++ s''))))) := by
      rw [hp]
      exact .inl (head?_append_congr hhead wp)
    rw [hdrop₁, hfront.dropSpaces]
    exact hparam' _ hhead
  have hop'' : Longest isOperatorChar op
      (dropSpaces (sp₂ ++ (op.toList ++ (v ++ ';' :: (w ++ s''))))) (v ++ ';' :: (w ++ s'')) := by
    have hfront : Opens (dropSpaces s₂) (op.toList ++ (v ++ ';' :: (w ++ s''))) := .inl hheado
    rw [hdrop₂, hfront.dropSpaces]
    exact hop.moved (by rw [hheadv]; exact hop.rest_head)
  have hmoved'' : Derives NoOperand (.binding param op value body)
      ('\\' :: (sp₁ ++ (wp ++ (sp₂ ++ (op.toList ++ (v ++ ';' :: (w ++ s''))))))) s'' :=
    .binding rfl hparam'' hop'' (hvalue' _ (.inl (over_semicolon _)))
      (dropSpaces_cons (by decide) _) (hbody' s'' hs)
  simpa using hmoved''

/-- A term behind an operator or none, and the operands behind the term. -/
theorem moves_behind {P : List Char → List Char → Prop} {term : Derivation .term}
    {more : Derivation .operands} {s s₁ s₂ s' : List Char}
    (hP : ∃ w, dropSpaces s = w ++ s₁ ∧ ∀ s'', Opens s₁ s'' → P (w ++ s'') s'')
    (hmore : Derives NoOperand more s₂ s') (iht : Moves term (dropSpaces s₁) s₂)
    (ihm : Moves more s₂ s') :
    ∃ w, s = w ++ s' ∧ ∀ s'', MayFollow s' s'' → ∃ x y, P (dropSpaces (w ++ s'')) x ∧
      Derives NoOperand term (dropSpaces x) y ∧ Derives NoOperand more y s'' := by
  obtain ⟨g, hg, hfront⟩ := movable_in_front hP
  obtain ⟨w, hw, hne, hterm'⟩ := iht
  obtain ⟨v, rfl, _, hmore'⟩ := ihm
  refine ⟨g ++ (w ++ v), by rw [hg, hw]; simp, fun s'' hs => ?_⟩
  have hopens : Opens (dropSpaces s₁) (w ++ (v ++ s'')) := by
    rw [hw]
    exact .inl (head?_append_of_ne_nil (hne rfl) _ _)
  obtain ⟨x, hx, hspaces⟩ := hfront _ hopens
  refine ⟨x, v ++ s'', ?_, ?_, hmore' s'' hs⟩
  · simpa using hx
  · rw [hspaces]
    exact hterm' _ (hmore.mayFollow hs)

/-- **A derivation moves with its text.** What is read in front of a text is read in front of every
    other one that may follow in its place. -/
theorem Derives.moves {k : Nonterminal} {t : Derivation k} {s s' : List Char}
    (h : Derives NoOperand t s s') : Moves t s s' := by
  induction h with
  | operator hop =>
    obtain ⟨w, hne, hs, hmoved⟩ := hop.movable
    exact ⟨w, hs, fun _ => hne, fun s'' _ => .operator (hmoved s'')⟩
  | group hopen hinner hclose ih =>
    subst hopen
    exact moves_group hinner hclose ih
  | @builtin x s s₁ s' hat hname =>
    subst hat
    refine ⟨'@' :: x.toList, by rw [hname.text]; rfl, by simp, fun s'' hs => ?_⟩
    exact .builtin rfl (hname.moved (hs.run hname.rest_head fun h ch hch => (h.head ch hch).1))
  | lambda hslash hparam hdot _ ih =>
    subst hslash
    exact moves_lambda hparam hdot ih
  | binding hslash hparam hop hvalue hsemi _ ihv ihb =>
    subst hslash
    exact moves_binding hparam hop hvalue hsemi ihv ihb
  | @number sign digits s s₁ s' hs hsign hdigits hfits =>
    subst hs
    refine ⟨sign ++ digits.toList, by rw [hdigits.text, List.append_assoc], ?_, fun s'' hs => ?_⟩
    · intro _ hnil
      exact hdigits.some (List.append_eq_nil_iff.mp hnil).2
    · rw [List.append_assoc]
      exact .number rfl hsign
        (hdigits.moved (hs.run hdigits.rest_head fun h ch hch => (h.head ch hch).2)) hfits
  | @string body s s' hs hbody =>
    subst hs
    exact ⟨'"' :: (body ++ ['"']), by simp, by simp, fun s'' _ => .string (by simp) hbody⟩
  | @name x s s' hname hdigit =>
    refine ⟨x.toList, hname.text, fun _ => hname.some, fun s'' hs => ?_⟩
    refine .name (hname.moved (hs.run hname.rest_head fun h ch hch => (h.head ch hch).1)) ?_
    rw [head?_append_of_ne_nil hname.some s' s'', ← hname.text]
    exact hdigit
  | line hlead _ hfurther ihf iho =>
    obtain ⟨w, hs, hmoved⟩ := moves_behind hlead.movable hfurther ihf iho
    refine ⟨w, hs, by simp, fun s'' hs => ?_⟩
    obtain ⟨x, y, hlead', hfirst', hfurther'⟩ := hmoved s'' hs
    exact .line hlead' hfirst' hfurther'
  | @done s h =>
    obtain ⟨sp, hsp, hdrop⟩ := exists_spaces s
    refine ⟨sp, hsp, by simp, fun s'' hs => ?_⟩
    have hover := hs.over ⟨h, dropSpaces_dropSpaces s⟩
    have hdone : Derives NoOperand .done (sp ++ s'') (dropSpaces (sp ++ s'')) :=
      .done (by rw [hdrop, hover.2]; exact hover.1)
    rwa [hdrop, hover.2] at hdone
  | operand hop _ hmore iht ihm =>
    obtain ⟨w, hs, hmoved⟩ := moves_behind hop.movable hmore iht ihm
    refine ⟨w, hs, by simp, fun s'' hs => ?_⟩
    obtain ⟨x, y, hop', hterm', hmore'⟩ := hmoved s'' hs
    exact .operand hop' hterm' hmore'

end CallByNeed
