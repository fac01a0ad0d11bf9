/-
  File:      CallByNeed/Proofs/Backtracking/Discipline.lean
  Subject:   What a reader with a cursor leaves as it was, and what it reads.

  Every reader is set beside the one that reads the same thing byte by byte and has no state: it comes
  to the same end, and the state it leaves behind is in order. The relation is passed on along the
  steps of a reader, so there is one lemma for each of them.

  * `Stacks.Fit`, `Event.Sound` -- the stacks of a line, and what may happen on the way;
  * `Backtracking.Kept` -- the saved places and the depth are left alone;
  * `Backtracking.Disciplined`, `Backtracking.Backtracks` -- readers, and alternatives that are tried;
  * `Backtracking.Follows` -- a reader with a state beside the reading byte by byte;
  * `attempt_follows`, `attempt_disciplined` -- the saved places;
  * `forms_follow`, `term_follows` -- the forms of a term, and terms.
-/
import CallByNeed.Proofs.Backtracking.Reader
import Mathlib.Data.List.Forall2

namespace CallByNeed

/-! ## 1. Stacks that are in order -/

/-- There is one more operand than there are operators, and only the first operand can be missing. -/
structure Stacks.Fit (held : Stacks) : Prop where
  count : held.operands.length = held.operators.length + 1
  present : none ∉ held.operands.dropLast

/-- What may happen: a line inside another one begins behind its beginning; the stacks of a line are
    in order; where an operator is combined it has a right operand, and if it is the empty one a
    left one too. -/
def Event.Sound : Event → Prop
  | .nested outer inner => outer < inner
  | .turn held => held.Fit
  | .combined held => held.Fit ∧ ∃ right left operands op operators,
      held = ⟨some right :: left :: operands, op :: operators⟩ ∧ (op = .sideBySide → left ≠ none)

/-! ## 2. What a reader leaves as it was -/

namespace Track

@[simp] theorem moved_place (t : Track) (i : Nat) : (t.moved i).place = i := rfl
@[simp] theorem record_place (t : Track) (e : Event) : (t.record e).place = t.place := rfl

theorem moved_self (t : Track) : t.moved t.place = t := rfl

end Track

namespace Backtracking

/-- From one state of a reading to another one the saved places and the depth are the same. The
    cursor moves forward, not beyond the end of the text, and only what may happen has happened. -/
structure Kept (r : Backtracking) (s t : Track) : Prop where
  saved : t.saved = s.saved
  depth : t.depth = s.depth
  forward : s.place ≤ t.place
  inside : s.place ≤ r.size → t.place ≤ r.size
  sound : ∃ events, t.log = events ++ s.log ∧ ∀ e ∈ events, e.Sound

namespace Kept

variable {r : Backtracking} {s t u : Track}

theorem refl (r : Backtracking) (s : Track) : r.Kept s s :=
  ⟨rfl, rfl, le_rfl, id, [], rfl, by simp⟩

theorem trans (h : r.Kept s t) (h' : r.Kept t u) : r.Kept s u := by
  obtain ⟨events, hlog, hsound⟩ := h.sound
  obtain ⟨events', hlog', hsound'⟩ := h'.sound
  refine ⟨h'.saved.trans h.saved, h'.depth.trans h.depth, h.forward.trans h'.forward,
    fun hs => h'.inside (h.inside hs), events' ++ events, ?_, fun e he => ?_⟩
  · rw [hlog', hlog, List.append_assoc]
  · rcases List.mem_append.mp he with he | he
    · exact hsound' e he
    · exact hsound e he

theorem moved {i : Nat} (hle : s.place ≤ i) (hinside : s.place ≤ r.size → i ≤ r.size) :
    r.Kept s (s.moved i) :=
  ⟨rfl, rfl, hle, hinside, [], rfl, by simp⟩

theorem record {e : Event} (h : e.Sound) : r.Kept s (s.record e) :=
  ⟨rfl, rfl, le_rfl, id, [e], rfl, by simpa using h⟩

end Kept

/-- A reader that is started in the state `s` leaves the saved places and the depth as they were
    however it returns, and it comes to an end if `ends`. -/
structure Disciplined (r : Backtracking) (ends : Prop) {α : Type} (m : Tracked α) (s : Track) :
    Prop where
  kept : ∀ result t, m s = .returned result t → r.Kept s t
  finished : ends → m s ≠ .unfinished

/-- An alternative that is started in the state `s` is disciplined, and so it is if it is tried. Then
    the cursor is put back if it does not match, and stands further on if it does. -/
structure Backtracks (r : Backtracking) (ends : Prop) {α : Type} (m : Tracked (Option α))
    (s : Track) : Prop where
  alone : r.Disciplined ends m s
  tried : r.Disciplined ends (attempt m) s
  back : ∀ t, attempt m s = .returned (.ok none) t → t.place = s.place
  further : ∀ a t, attempt m s = .returned (.ok (some a)) t → s.place < t.place

/-! ## 3. Beside the reading byte by byte -/

/-- What a reader with a state comes to from the state `s`, beside the reading byte by byte. It
    comes to the same end, with the saved places and the depth of `s`. With too few rounds it need
    not come to an end at all, unless `ends`. -/
inductive Follows (r : Backtracking) (ends : Prop) (s : Track) {α β : Type}
    (same : α → Track → β → Prop) : TrackedOutcome α → Sliced β → Prop where
  | returned {a : α} {t : Track} {b : β} (kept : r.Kept s t) (h : same a t b) :
      Follows r ends s same (.returned (.ok a) t) (.ok b)
  | fault {e : At ParseFault} {t : Track} (kept : r.Kept s t) :
      Follows r ends s same (.returned (.error e) t) (.error (.fault e))
  | insideCharacter : Follows r ends s same .insideCharacter (.error .insideCharacter)
  | unfinished {y : Sliced β} (h : ¬ ends) : Follows r ends s same .unfinished y

/-- The same thing, and the cursor behind it. -/
def Read {α : Type} (a : α) (t : Track) (y : α × Nat) : Prop := y = (a, t.place)

/-- The same thing and the cursor behind it, or nothing. -/
def Maybe {α : Type} (o : Option α) (t : Track) (y : Option (α × Nat)) : Prop :=
  y = o.map (·, t.place)

/-- The same thing and the cursor behind it, further than it was; or nothing. -/
def Matched {α : Type} (s : Track) (o : Option α) (t : Track) (y : Option (α × Nat)) : Prop :=
  Maybe o t y ∧ ∀ a ∈ o, s.place < t.place

/-- The same thing and the cursor behind it, further than it was; or nothing, and the cursor where
    it was. -/
def Tried {α : Type} (s : Track) (o : Option α) (t : Track) (y : Option (α × Nat)) : Prop :=
  Matched s o t y ∧ (o = none → t.place = s.place)

section

variable {r : Backtracking} {ends : Prop} {s t : Track} {α β γ δ : Type}
  {same : α → Track → γ → Prop} {same' : β → Track → δ → Prop}

namespace Follows

/-- From an earlier state. -/
theorem before {x : TrackedOutcome α} {y : Sliced γ} (kept : r.Kept s t)
    (h : r.Follows ends t same x y) : r.Follows ends s same x y := by
  cases h with
  | returned kept' h => exact .returned (kept.trans kept') h
  | fault kept' => exact .fault (kept.trans kept')
  | insideCharacter => exact .insideCharacter
  | unfinished h => exact .unfinished h

/-- With fewer rounds that suffice. -/
theorem ends_mono {ends' : Prop} {x : TrackedOutcome α} {y : Sliced γ}
    (h : r.Follows ends s same x y) (hends : ends' → ends) : r.Follows ends' s same x y := by
  cases h with
  | returned kept h => exact .returned kept h
  | fault kept => exact .fault kept
  | insideCharacter => exact .insideCharacter
  | unfinished h => exact .unfinished fun h' => h (hends h')

theorem imp {same' : α → Track → γ → Prop} {x : TrackedOutcome α} {y : Sliced γ}
    (h : r.Follows ends s same x y) (himp : ∀ a t b, r.Kept s t → same a t b → same' a t b) :
    r.Follows ends s same' x y := by
  cases h with
  | returned kept h => exact .returned kept (himp _ _ _ kept h)
  | fault kept => exact .fault kept
  | insideCharacter => exact .insideCharacter
  | unfinished h => exact .unfinished h

theorem bind_ok {m : Tracked α} {f : α → Tracked β} {y : Sliced γ} {g : γ → Sliced δ}
    (h : r.Follows ends s same (m s) y)
    (hf : ∀ a t b, r.Kept s t → y = .ok b → same a t b → r.Follows ends t same' (f a t) (g b)) :
    r.Follows ends s same' ((m >>= f) s) (y >>= g) := by
  show r.Follows ends s same' ((m s).andThen f) (y >>= g)
  revert h
  generalize m s = x
  intro h
  cases h with
  | returned kept h => exact (hf _ _ _ kept rfl h).before kept
  | fault kept => exact .fault kept
  | insideCharacter => exact .insideCharacter
  | unfinished h => exact .unfinished h

theorem bind {m : Tracked α} {f : α → Tracked β} {y : Sliced γ} {g : γ → Sliced δ}
    (h : r.Follows ends s same (m s) y)
    (hf : ∀ a t b, r.Kept s t → same a t b → r.Follows ends t same' (f a t) (g b)) :
    r.Follows ends s same' ((m >>= f) s) (y >>= g) :=
  h.bind_ok fun a t b kept _ => hf a t b kept

/-- Behind a reader that stands beside a value. -/
theorem bind_value {m : Tracked α} {f : α → Tracked β} {b : γ} {y : Sliced δ}
    (h : r.Follows ends s same (m s) (.ok b))
    (hf : ∀ a t, r.Kept s t → same a t b → r.Follows ends t same' (f a t) y) :
    r.Follows ends s same' ((m >>= f) s) y := by
  refine h.bind_ok (g := fun _ => y) fun a t b' kept hb hsame => ?_
  obtain rfl : b = b' := Except.ok.inj hb
  exact hf a t kept hsame

theorem disciplined {m : Tracked α} {y : Sliced γ} (h : r.Follows ends s same (m s) y) :
    r.Disciplined ends m s where
  kept result t hreturned := by
    rw [hreturned] at h
    cases h with
    | returned kept _ => exact kept
    | fault kept => exact kept
  finished hends hunfinished := by
    rw [hunfinished] at h
    cases h with
    | unfinished h => exact h hends

end Follows

theorem bind_returned {m : Tracked α} {a : α} (h : m s = .returned (.ok a) t) (f : α → Tracked β) :
    (m >>= f) s = f a t := by
  show (m s).andThen f = f a t
  rw [h]
  rfl

theorem place_bind (f : Nat → Tracked β) : (Tracked.place >>= f) s = f s.place s := rfl

theorem record_bind (e : Event) (f : Unit → Tracked β) :
    (Tracked.record e >>= f) s = f () (s.record e) := rfl

end

/-! ## 4. Tokens -/

section

variable {r : Backtracking} {ends : Prop} {s t : Track}

theorem length_bytesAt (r : Backtracking) (i : Nat) : (r.bytes.bytesAt i).length = r.size - i := by
  rw [ByteReading.bytesAt, List.length_drop, size]

theorem bytesAt_succ (r : Backtracking) (i : Nat) :
    r.bytes.bytesAt (i + 1) = (r.bytes.bytesAt i).tail := by
  rw [ByteReading.bytesAt, ByteReading.bytesAt, List.tail_drop]

theorem runEnd_bounds (r : Backtracking) (p : Char → Bool) (i : Nat) :
    i ≤ r.bytes.runEnd p i ∧ (i ≤ r.size → r.bytes.runEnd p i ≤ r.size) := by
  have hle := (List.takeWhile_prefix (onByte p) (l := r.bytes.bytesAt i)).length_le
  rw [length_bytesAt] at hle
  rw [ByteReading.runEnd]
  omega

theorem kept_spaces (r : Backtracking) (s : Track) :
    r.Kept s (s.moved (r.bytes.skipSpaces s.place)) :=
  .moved (r.runEnd_bounds _ _).1 (r.runEnd_bounds _ _).2

theorem faces_iff {ch : Char} : r.faces ch s = true ↔
    (r.bytes.bytesAt s.place).head? = some (byteOf ch) := decide_eq_true_iff

theorem lt_of_faces {ch : Char} (h : r.faces ch s = true) : s.place < r.size := by
  have hlength := r.length_bytesAt s.place
  rw [faces_iff] at h
  rcases hbytes : r.bytes.bytesAt s.place with _ | ⟨b, bs⟩
  · rw [hbytes] at h
    cases h
  · rw [hbytes, List.length_cons] at hlength
    omega

theorem advance_one (h : s.place < r.size) : r.advance 1 s = s.moved (s.place + 1) := by
  rw [advance, Nat.min_eq_left h]

theorem eat?_eq (r : Backtracking) (ch : Char) (s : Track) :
    r.bytes.eat? ch s.place = if r.faces ch s then some (s.place + 1) else none := by
  rw [ByteReading.eat?, if_congr faces_iff rfl rfl]

theorem eat_cases (r : Backtracking) (ch : Char) (s : Track) :
    (r.bytes.eat? ch s.place = none ∧ r.eat ch s = .returned (.ok false) s) ∨
      (s.place < r.size ∧ r.bytes.eat? ch s.place = some (s.place + 1) ∧
        r.eat ch s = .returned (.ok true) (s.moved (s.place + 1))) := by
  rw [eat?_eq, eat]
  by_cases h : r.faces ch s = true
  · have hlt := lt_of_faces h
    exact .inr ⟨hlt, by rw [if_pos h], by rw [if_pos h, advance_one hlt]⟩
  · exact .inl ⟨by rw [if_neg h], by rw [if_neg h]⟩

theorem kept_eaten (h : s.place < r.size) : r.Kept s (s.moved (s.place + 1)) :=
  .moved (Nat.le_succ _) fun _ => h

theorem cut_follows (i j : Nat) :
    r.Follows ends s (fun piece t y => y = piece ∧ t = s) (r.cut i j s) (r.bytes.cut i j) := by
  unfold Backtracking.cut ByteReading.cut
  cases slice? r.bytes.text i j with
  | none => exact .insideCharacter
  | some piece => exact .returned (.refl r s) ⟨rfl, rfl⟩

theorem takeWhile_follows (p : Char → Bool) :
    r.Follows ends s (fun run t y => y = (run, t.place) ∧ s.place + byteCount run = t.place)
      (r.takeWhile p s) (r.bytes.span p s.place) := by
  have hbounds := r.runEnd_bounds p s.place
  show r.Follows ends s _
    (r.cut s.place (r.bytes.runEnd p s.place) (s.moved (r.bytes.runEnd p s.place)))
    (r.bytes.cut s.place (r.bytes.runEnd p s.place) >>= fun run =>
      .ok (run, r.bytes.runEnd p s.place))
  unfold Backtracking.cut ByteReading.cut
  cases hslice : slice? r.bytes.text s.place (r.bytes.runEnd p s.place) with
  | none => exact .insideCharacter
  | some run => exact .returned (.moved hbounds.1 hbounds.2) ⟨rfl, (byteCount_of_slice hslice).1⟩

theorem run_follows (p : Char → Bool) :
    r.Follows ends s (Tried s) (r.run p s) (r.bytes.run? p s.place) := by
  refine (takeWhile_follows p).bind fun run t y kept h => ?_
  obtain ⟨rfl, hplace⟩ := h
  cases run with
  | nil => exact .returned (.refl r t) ⟨⟨rfl, by simp⟩, fun _ => hplace.symm⟩
  | cons c run =>
    have hpos := c.utf8Size_pos
    rw [byteCount_cons] at hplace
    exact .returned (.refl r t) ⟨⟨rfl, fun _ _ => by omega⟩, fun h => by cases h⟩

/-- Behind the spaces. -/
theorem after_spaces {α β : Type} {same : α → Track → β → Prop} {f : Unit → Tracked α}
    {y : Sliced β} (h : r.Follows ends (s.moved (r.bytes.skipSpaces s.place)) same
      (f () (s.moved (r.bytes.skipSpaces s.place))) y) :
    r.Follows ends s same ((r.skipSpaces >>= f) s) y :=
  .before (r.kept_spaces s) h

theorem bracketedOperator_follows :
    r.Follows ends s (Matched s) (r.bracketedOperator s) (r.bytes.bracketedOperator? s.place) := by
  unfold Backtracking.bracketedOperator ByteReading.bracketedOperator?
  rcases r.eat_cases '(' s with ⟨he, hs⟩ | ⟨hlt, he, hs⟩
  · rw [he, bind_returned hs]
    exact .returned (.refl r s) ⟨rfl, by simp⟩
  rw [he, bind_returned hs, if_pos rfl]
  refine .before (kept_eaten hlt) <| after_spaces <| (run_follows _).bind fun op t y kept h => ?_
  obtain ⟨⟨rfl, hop⟩, _⟩ := h
  cases op with
  | none => exact .returned (.refl r t) ⟨rfl, by simp⟩
  | some op =>
    refine after_spaces ?_
    have hfurther := kept.forward
    have hspaces := (r.kept_spaces t).forward
    have hstart := (r.kept_spaces (s.moved (s.place + 1))).forward
    dsimp only [Option.map_some]
    rcases r.eat_cases ')' (t.moved (r.bytes.skipSpaces t.place)) with ⟨he', ht⟩ | ⟨hlt', he', ht⟩
    · rw [Track.moved_place] at he'
      rw [he', bind_returned ht]
      exact .returned (.refl r _) ⟨rfl, by simp⟩
    · rw [Track.moved_place] at he'
      rw [he', bind_returned ht]
      refine .returned (kept_eaten hlt') ⟨rfl, fun _ _ => ?_⟩
      simp only [Track.moved_place] at *
      omega

/-- Saving a place and putting the cursor back to it leaves the saved places as they were. -/
theorem Kept.restore (h : r.Kept s.save t) : r.Kept s t.restore ∧ t.restore.place = s.place := by
  have hsaved : t.saved = s.place :: s.saved := h.saved
  have hrestore : t.restore = { t with place := s.place, saved := s.saved } := by
    rw [Track.restore, hsaved]
  rw [hrestore]
  exact ⟨⟨rfl, h.depth, le_rfl, id, h.sound⟩, rfl⟩

/-- So does saving a place and forgetting it. -/
theorem Kept.discard (h : r.Kept s.save t) : r.Kept s t.discard :=
  ⟨congrArg List.tail h.saved, h.depth, h.forward, h.inside, h.sound⟩

/-- **An alternative that is tried** leaves the cursor where it was if it does not match. -/
theorem attempt_follows {α : Type} {m : Tracked (Option α)} {y : Sliced (Option (α × Nat))}
    (h : r.Follows ends s.save (Matched s.save) (m s.save) y) :
    r.Follows ends s (Tried s) (attempt m s) y := by
  unfold attempt
  revert h
  generalize m s.save = x
  intro h
  cases h with
  | @returned o t _ kept h =>
    obtain ⟨rfl, hlt⟩ := h
    cases o with
    | none => exact .returned kept.restore.1 ⟨⟨rfl, by simp⟩, fun _ => kept.restore.2⟩
    | some a => exact .returned kept.discard ⟨⟨rfl, hlt⟩, fun h => by cases h⟩
  | fault kept => exact .fault kept.discard
  | insideCharacter => exact .insideCharacter
  | unfinished h => exact .unfinished h

/-- What comes of an alternative that is tried. -/
theorem attempt_cases {α : Type} (m : Tracked (Option α)) (s : Track) :
    (∃ u, m s.save = .returned (.ok none) u ∧ attempt m s = .returned (.ok none) u.restore) ∨
    (∃ result u, m s.save = .returned result u ∧ result ≠ .ok none ∧
      attempt m s = .returned result u.discard) ∨
    (attempt m s = m s.save ∧ ∀ result u, m s.save ≠ .returned result u) := by
  unfold attempt
  rcases m s.save with ⟨_ | _ | a, u⟩ | _ | _
  · exact .inr (.inl ⟨_, u, rfl, by simp, rfl⟩)
  · exact .inl ⟨u, rfl, rfl⟩
  · exact .inr (.inl ⟨_, u, rfl, by simp, rfl⟩)
  · exact .inr (.inr ⟨rfl, by simp⟩)
  · exact .inr (.inr ⟨rfl, by simp⟩)

/-- Whatever is tried, the saved places are as they were, and the cursor is put back if there was no
    match. -/
theorem attempt_disciplined {α : Type} {m : Tracked (Option α)} (h : r.Disciplined ends m s.save) :
    r.Disciplined ends (attempt m) s ∧
      ∀ t, attempt m s = .returned (.ok none) t → t.place = s.place := by
  rcases attempt_cases m s with ⟨u, hm, htried⟩ | ⟨result, u, hm, hmatch, htried⟩ | ⟨htried, hm⟩
  · obtain ⟨kept, hplace⟩ := (h.kept _ _ hm).restore
    refine ⟨⟨?_, ?_⟩, ?_⟩ <;> rw [htried]
    · rintro _ _ ⟨⟩
      exact kept
    · exact fun _ => nofun
    · rintro _ ⟨⟩
      exact hplace
  · have kept := (h.kept _ _ hm).discard
    refine ⟨⟨?_, ?_⟩, ?_⟩ <;> rw [htried]
    · rintro _ _ ⟨⟩
      exact kept
    · exact fun _ => nofun
    · rintro _ ⟨⟩
      exact absurd rfl hmatch
  · refine ⟨⟨?_, ?_⟩, ?_⟩ <;> rw [htried]
    · exact fun result t h => absurd h (hm result t)
    · exact h.finished
    · exact fun t h => absurd h (hm _ t)

theorem matched_backtracks {α : Type} {m : Tracked (Option α)} {y y' : Sliced (Option (α × Nat))}
    (h : r.Follows ends s (Matched s) (m s) y)
    (h' : r.Follows ends s.save (Matched s.save) (m s.save) y') : r.Backtracks ends m s where
  alone := h.disciplined
  tried := (attempt_disciplined h'.disciplined).1
  back := (attempt_disciplined h'.disciplined).2
  further a t hreturned := by
    have htried := attempt_follows h'
    rw [hreturned] at htried
    cases htried with
    | returned _ h => exact h.1.2 a rfl

end

/-! ## 5. Forms of terms -/

/-- A form of a term, from a place and at a depth. -/
def Form (r : Backtracking) (ends : Prop) (i depth : Nat) {α : Type} (form : Tracked (Option α))
    (form' : Nat → Sliced (Option (α × Nat))) : Prop :=
  ∀ s : Track, s.place = i → s.depth = depth → r.Follows ends s (Matched s) (form s) (form' i)

/-- **Alternatives that are tried in turn.** -/
theorem attemptEach_follows {r : Backtracking} {ends : Prop} {i depth : Nat} {α : Type}
    {forms : List (Tracked (Option α))} {forms' : List (Nat → Sliced (Option (α × Nat)))}
    (h : List.Forall₂ (r.Form ends i depth) forms forms') {s : Track} (hi : s.place = i)
    (hdepth : s.depth = depth) :
    r.Follows ends s (Tried s) (attemptEach forms s) (firstOf forms' i) := by
  induction h generalizing s with
  | nil => exact .returned (.refl r s) ⟨⟨rfl, by simp⟩, fun _ => rfl⟩
  | cons hform _ ih =>
    refine (attempt_follows (hform s.save hi hdepth)).bind fun o t y kept h => ?_
    obtain ⟨⟨rfl, hlt⟩, hnone⟩ := h
    cases o with
    | some a => exact .returned (.refl r t) ⟨⟨rfl, hlt⟩, fun h => by cases h⟩
    | none =>
      have hplace := hnone rfl
      refine (ih (hplace.trans hi) (kept.depth.trans hdepth)).imp fun o u y _ h => ?_
      rw [Tried, Matched, hplace] at h
      exact h

theorem forms_backtrack {r : Backtracking} {ends : Prop} {s : Track} {α : Type}
    {forms : List (Tracked (Option α))} {forms' : List (Nat → Sliced (Option (α × Nat)))}
    (h : List.Forall₂ (r.Form ends s.place s.depth) forms forms') :
    ∀ form ∈ forms, r.Backtracks ends form s := by
  induction h with
  | nil => simp
  | cons hform _ ih =>
    exact List.forall_mem_cons.mpr ⟨matched_backtracks (hform s rfl rfl) (hform s.save rfl rfl), ih⟩

/-- The cursor is behind the place where a line began, and the depth is that of its inside. -/
structure Ready (r : Backtracking) (start depth : Nat) (s : Track) : Prop where
  behind : start < s.place
  inside : s.place ≤ r.size
  depth : s.depth = depth

theorem Ready.kept {r : Backtracking} {start depth : Nat} {s t : Track} (h : r.Ready start depth s)
    (kept : r.Kept s t) : r.Ready start depth t :=
  ⟨h.behind.trans_le kept.forward, kept.inside h.inside, kept.depth.trans h.depth⟩

/-- A reader for the lines inside of a line that began at `start`. -/
def Calls (r : Backtracking) (ends : Prop) (start depth : Nat) (line : Tracked (Option Expr))
    (line' : ByteLine) : Prop :=
  ∀ s, r.Ready start depth s → r.Follows ends s Read (line s) (line' s.place)

section

variable {r : Backtracking} {ends : Prop} {s t : Track} {start depth rounds : Nat}
  {line : Tracked (Option Expr)} {line' : ByteLine}

/-- A line inside of another one begins behind its beginning. -/
theorem nested_follows {y : Sliced (Option Expr × Nat)} (hbehind : start < s.place)
    (h : r.Follows ends (s.record (.nested start s.place)) Read
      (line (s.record (.nested start s.place))) y) :
    r.Follows ends s Read (nested start line s) y :=
  .before (.record (e := .nested start s.place) hbehind) h

theorem missing_follows {α β : Type} {same : α → Track → β → Prop} (x : Expectation) :
    r.Follows ends s same (r.missing x s) (r.bytes.missing s.place x) := .fault (.refl r s)

theorem lineOr_follows (hline : r.Calls ends start depth line line') (hs : r.Ready start depth s)
    (x : Expectation) :
    r.Follows ends s Read (r.lineOr line x s) (r.bytes.lineOr line' s.place x) := by
  refine (hline s hs).bind fun e t y kept h => ?_
  obtain rfl : y = (e, t.place) := h
  cases e with
  | none => exact missing_follows x
  | some e => exact .returned (.refl r t) rfl

theorem punctuation_follows (ch : Char) (x : Expectation) :
    r.Follows ends s (fun _ t stop => t.place = stop) (r.punctuation ch x s)
      (r.bytes.punctuation s.place ch x) := by
  unfold Backtracking.punctuation ByteReading.punctuation
  refine after_spaces ?_
  rcases r.eat_cases ch (s.moved (r.bytes.skipSpaces s.place)) with ⟨he, hs⟩ | ⟨hlt, he, hs⟩
  · rw [Track.moved_place] at he
    rw [he, bind_returned hs]
    exact missing_follows x
  · rw [Track.moved_place] at he
    rw [he, bind_returned hs]
    exact .returned (kept_eaten hlt) rfl

theorem headedBy_form {ch : Char} {reader : Pos → Tracked (Option Expr)}
    {reader' : Pos → ByteTerm} {i : Nat} (hi : start ≤ i)
    (h : ∀ p t, r.Ready start depth t → r.Follows ends t Maybe (reader p t) (reader' p t.place)) :
    r.Form ends i depth (r.headedBy ch reader) (r.bytes.headedBy ch reader') := by
  rintro s rfl hdepth
  unfold Backtracking.headedBy ByteReading.headedBy
  rw [place_bind]
  rcases r.eat_cases ch s with ⟨he, hs⟩ | ⟨hlt, he, hs⟩
  · rw [he, bind_returned hs]
    exact .returned (.refl r s) ⟨rfl, by simp⟩
  · rw [he, bind_returned hs, if_pos rfl]
    have hready : r.Ready start depth (s.moved (s.place + 1)) :=
      ⟨Nat.lt_succ_of_le hi, hlt, hdepth⟩
    refine ((h _ _ hready).imp fun o t y kept h => ?_).before (kept_eaten hlt)
    exact ⟨h, fun _ _ => kept.forward⟩

theorem named_follows {token : Tracked (Option String)}
    {token' : Nat → Sliced (Option (String × Nat))}
    (h : r.Follows ends s (Matched s) (token s) (token' s.place)) :
    r.Follows ends s (Matched s) (r.named token s) (r.bytes.named token' s.place) := by
  unfold Backtracking.named ByteReading.named
  rw [place_bind]
  refine h.bind fun o t y kept h => ?_
  obtain ⟨rfl, hlt⟩ := h
  cases o with
  | none => exact .returned (.refl r t) ⟨rfl, by simp⟩
  | some x => exact .returned (.refl r t) ⟨rfl, fun _ _ => hlt x rfl⟩

theorem group_follows (hline : r.Calls ends start depth line line') (hs : r.Ready start depth s) :
    r.Follows ends s Maybe (r.group line s) (r.bytes.group line' s.place) := by
  refine (lineOr_follows hline hs _).bind fun e t y kept h => ?_
  obtain rfl : y = (e, t.place) := h
  refine (punctuation_follows _ _).bind fun _ u stop kept h => ?_
  obtain rfl : u.place = stop := h
  exact .returned (.refl r u) rfl

theorem builtin_follows (p : Pos) :
    r.Follows ends s Maybe (r.builtin p s) (r.bytes.builtin p s.place) := by
  refine (run_follows _).bind fun o t y kept h => ?_
  obtain ⟨⟨rfl, _⟩, hnone⟩ := h
  cases o with
  | none =>
    rw [← hnone rfl]
    exact .fault (.refl r t)
  | some x => exact .returned (.refl r t) rfl

theorem param_follows : r.Follows ends s Read (r.param s) (r.bytes.param s.place) := by
  refine (attempt_follows bracketedOperator_follows).bind fun o t y kept h => ?_
  obtain ⟨⟨rfl, _⟩, hnone⟩ := h
  cases o with
  | some op => exact .returned (.refl r t) rfl
  | none =>
    rw [← hnone rfl]
    refine (attempt_follows ((run_follows _).imp fun _ _ _ _ h => h.1)).bind fun o u y kept h => ?_
    obtain ⟨⟨rfl, _⟩, hnone⟩ := h
    cases o with
    | some x => exact .returned (.refl r u) rfl
    | none =>
      refine .returned (.refl r u) ?_
      show ("_", t.place) = ("_", u.place)
      rw [hnone rfl]

theorem lambda_follows (hline : r.Calls ends start depth line line') (hs : r.Ready start depth s)
    (p : Pos) : r.Follows ends s Maybe (r.lambda line p s) (r.bytes.lambda line' p s.place) := by
  unfold Backtracking.lambda ByteReading.lambda
  have hspaces := hs.kept (r.kept_spaces s)
  refine after_spaces <| param_follows.bind fun x t y kept h => ?_
  obtain rfl : y = (x, t.place) := h
  refine after_spaces ?_
  have ht := (hspaces.kept kept).kept (r.kept_spaces t)
  dsimp only
  rcases r.eat_cases '.' (t.moved (r.bytes.skipSpaces t.place)) with ⟨he, hs⟩ | ⟨hlt, he, hs⟩
  · rw [Track.moved_place] at he
    rw [he, bind_returned hs, if_neg Bool.false_ne_true]
    refine (attempt_follows ((run_follows _).imp fun _ _ _ _ h => h.1)).bind fun o u y kept h => ?_
    obtain ⟨⟨rfl, _⟩, hnone⟩ := h
    have hu := ht.kept kept
    cases o with
    | none =>
      rw [← Track.moved_place t (r.bytes.skipSpaces t.place), ← hnone rfl]
      exact missing_follows _
    | some op =>
      refine (lineOr_follows hline hu _).bind fun value v y kept h => ?_
      obtain rfl : y = (value, v.place) := h
      have hv := hu.kept kept
      refine (punctuation_follows _ _).bind fun _ w stop kept h => ?_
      obtain rfl : w.place = stop := h
      refine (lineOr_follows hline (hv.kept kept) _).bind fun body z y kept h => ?_
      obtain rfl : y = (body, z.place) := h
      exact .returned (.refl r z) rfl
  · rw [Track.moved_place] at he
    rw [he, bind_returned hs, if_pos rfl]
    refine .before (kept_eaten hlt) ?_
    refine (lineOr_follows hline (ht.kept (kept_eaten hlt)) _).bind fun body u y kept h => ?_
    obtain rfl : y = (body, u.place) := h
    exact .returned (.refl r u) rfl

/-- The cursor behind a sign, if there is one. -/
theorem sign_eq (r : Backtracking) (s : Track) :
    ∃ i, ((r.bytes.eat? '+' s.place).or (r.bytes.eat? '-' s.place)).getD s.place = i ∧
      (if r.faces '+' s || r.faces '-' s then r.advance 1 s else s) = s.moved i ∧
      r.Kept s (s.moved i) := by
  rw [eat?_eq, eat?_eq]
  by_cases hfaces : (r.faces '+' s || r.faces '-' s) = true
  · have hlt : s.place < r.size := by
      rcases Bool.or_eq_true_iff.mp hfaces with h | h
      · exact lt_of_faces h
      · exact lt_of_faces h
    refine ⟨s.place + 1, ?_, by rw [if_pos hfaces, advance_one hlt], kept_eaten hlt⟩
    revert hfaces
    cases r.faces '+' s <;> cases r.faces '-' s <;> simp
  · refine ⟨s.place, ?_, by rw [if_neg hfaces, Track.moved_self], .refl r s⟩
    revert hfaces
    cases r.faces '+' s <;> cases r.faces '-' s <;> simp

theorem number_follows : r.Follows ends s (Matched s) (r.number s) (r.bytes.number s.place) := by
  unfold Backtracking.number ByteReading.number
  rw [place_bind]
  obtain ⟨i, hi, hsign, hkept⟩ := r.sign_eq s
  show r.Follows ends s (Matched s) ((r.takeWhile Char.isDigit >>= _) (ite _ _ _)) _
  rw [hsign]
  dsimp only
  rw [hi]
  refine .before hkept <| (takeWhile_follows _).bind fun digits t y kept h => ?_
  obtain ⟨rfl, hplace⟩ := h
  have hforward := hkept.forward
  cases digits with
  | nil => exact .returned (.refl r t) ⟨rfl, by simp⟩
  | cons d digits =>
    have hpos := d.utf8Size_pos
    rw [byteCount_cons] at hplace
    dsimp only
    rw [place_bind]
    refine (cut_follows _ _).bind fun numeral u y kept h => ?_
    obtain ⟨rfl, rfl⟩ := h
    cases CallByNeed.word? (numeralValue y) with
    | some n => exact .returned (.refl r u) ⟨rfl, fun _ _ => by omega⟩
    | none => exact .fault (.refl r u)

/-- One turn of the loop that looks for the end of a string: it stops there, or goes on behind a byte
    or an escape. -/
theorem quoteLoop_turn (r : Backtracking) (rounds : Nat) (s : Track) :
    (quoteEnd (r.bytes.bytesAt s.place) = 0 ∧
      r.quoteLoop (rounds + 1) s = .returned (.ok ()) s) ∨
    ∃ i, s.place < i ∧ i ≤ r.size ∧
      s.place + quoteEnd (r.bytes.bytesAt s.place) = i + quoteEnd (r.bytes.bytesAt i) ∧
      r.quoteLoop (rounds + 1) s = r.quoteLoop rounds (s.moved i) := by
  have hlength := r.length_bytesAt s.place
  have htail := r.bytesAt_succ s.place
  have htail₂ : r.bytes.bytesAt (s.place + 2) = (r.bytes.bytesAt s.place).tail.tail := by
    rw [r.bytesAt_succ (s.place + 1), htail]
  have hfaces (ch : Char) :
      r.faces ch s = decide ((r.bytes.bytesAt s.place).head? = some (byteOf ch)) := rfl
  rw [quoteLoop]
  dsimp only
  rw [hfaces, hfaces]
  cases hbytes : r.bytes.bytesAt s.place with
  | nil =>
    rw [hbytes, List.length_nil] at hlength
    exact .inl ⟨rfl, if_neg (by simp; omega)⟩
  | cons byte rest =>
    rw [hbytes, List.tail_cons] at htail htail₂
    rw [hbytes, List.length_cons] at hlength
    have hlt : s.place < r.size := by omega
    by_cases hquote : byte = byteOf '"'
    · subst hquote
      exact .inl ⟨quoteEnd_quote rest, if_neg (by simp)⟩
    rw [if_pos (by simp [hlt, hquote])]
    by_cases hslash : byte = byteOf '\\'
    · subst hslash
      rw [if_pos (by simp), advance_one hlt]
      cases rest with
      | nil =>
        -- a backslash at the end of the text: there is nothing more to take along
        have hsize : r.size = s.place + 1 := by
          rw [List.length_nil] at hlength
          omega
        refine .inr ⟨s.place + 1, Nat.lt_succ_self _, hlt, by rw [htail]; rfl, ?_⟩
        rw [advance, Track.moved_place, hsize, Nat.min_eq_right (Nat.le_succ _)]
        rfl
      | cons d rest =>
        rw [List.length_cons] at hlength
        refine .inr ⟨s.place + 2, by omega, by omega, ?_, ?_⟩
        · rw [htail₂, quoteEnd_escape, List.tail_cons]
          omega
        · rw [advance_one (by rw [Track.moved_place]; omega)]
          rfl
    · rw [if_neg (by simp [hslash]), advance_one hlt]
      refine .inr ⟨s.place + 1, Nat.lt_succ_self _, hlt, ?_, rfl⟩
      rw [htail, quoteEnd_plain hquote hslash]
      omega

/-- **The loop comes to where the string ends**, if it may go on as often as there are bytes. -/
theorem quoteLoop_follows (h : ends → r.size - s.place < rounds) :
    r.Follows ends s (fun _ t stop => t.place = stop) (r.quoteLoop rounds s)
      (.ok (s.place + quoteEnd (r.bytes.bytesAt s.place))) := by
  induction rounds generalizing s with
  | zero => exact .unfinished fun hends => Nat.not_lt_zero _ (h hends)
  | succ rounds ih =>
    rcases r.quoteLoop_turn rounds s with ⟨hend, hstop⟩ | ⟨i, hlt, hsize, hend, hturn⟩
    · rw [hend, hstop]
      exact .returned (.refl r s) rfl
    · rw [hend, hturn]
      refine .before (.moved hlt.le fun _ => hsize) (ih fun hends => ?_)
      have := h hends
      rw [Track.moved_place]
      omega

theorem string_follows (h : ends → r.size - s.place < rounds) (p : Pos) :
    r.Follows ends s Maybe (r.string rounds p s) (r.bytes.string p s.place) := by
  unfold Backtracking.string ByteReading.string
  rw [place_bind]
  refine (quoteLoop_follows h).bind_value fun _ t kept hplace => ?_
  rw [place_bind]
  dsimp only
  rw [← hplace]
  rcases r.eat_cases '"' t with ⟨he, ht⟩ | ⟨hlt, he, ht⟩
  · rw [he, bind_returned ht]
    exact .fault (.refl r t)
  · rw [he, bind_returned ht, if_pos rfl]
    refine .before (kept_eaten hlt) <| (cut_follows _ _).bind fun body u y kept h => ?_
    obtain ⟨rfl, rfl⟩ := h
    exact .returned (.refl r _) rfl

/-- **The forms of a term**, beside those that are read byte by byte. -/
theorem forms_follow (hline : r.Calls ends start depth line line')
    (hrounds : ends → r.size - start ≤ rounds) {i : Nat} (hi : start ≤ i) :
    List.Forall₂ (r.Form ends i depth) (r.forms rounds line) (r.bytes.forms line') := by
  have token {m : Tracked (Option Expr)} {m' : ByteTerm}
      (h : ∀ s : Track, r.Follows ends s (Matched s) (m s) (m' s.place)) :
      r.Form ends i depth m m' := by
    rintro s rfl _
    exact h s
  refine .cons (token fun s => named_follows bracketedOperator_follows) <|
    .cons (headedBy_form hi fun _ t ht => group_follows hline ht) <|
    .cons (headedBy_form hi fun p t _ => builtin_follows p) <|
    .cons (headedBy_form hi fun p t ht => lambda_follows hline ht p) <|
    .cons (token fun s => number_follows) <|
    .cons (headedBy_form hi fun p t ht => string_follows (fun hends => ?_) p) <|
    .cons (token fun s => named_follows ((run_follows _).imp fun _ _ _ _ h => h.1)) .nil
  have := hrounds hends
  have := ht.behind
  have := ht.inside
  omega

/-- **A term**, with the spaces in front of it. -/
theorem term_follows (hline : r.Calls ends start depth line line')
    (hrounds : ends → r.size - start ≤ rounds) (hle : start ≤ s.place) (hdepth : s.depth = depth) :
    r.Follows ends s (fun o t y => Matched (s.moved (r.bytes.skipSpaces s.place)) o t y ∧
        (o = none → t.place = r.bytes.skipSpaces s.place))
      (r.term rounds line s) (r.bytes.term? line' (r.bytes.skipSpaces s.place)) := by
  have hspaces := r.kept_spaces s
  unfold Backtracking.term ByteReading.term?
  have hforms := forms_follow hline hrounds (hle.trans hspaces.forward)
  exact after_spaces (attemptEach_follows hforms rfl hdepth)

end

end Backtracking

end CallByNeed
