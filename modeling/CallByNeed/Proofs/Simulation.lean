/-
  File:      CallByNeed/Proofs/Simulation.lean
  Subject:   Machines that step until they end, and what it means that one follows another.

  A machine is a function: from every state it goes on to one state or ends in one way. So a run
  ends in one way or never, and two machines that are both followed by a third end alike.

  * `Machine`, `Machine.Steps` -- machines, and `n` steps of one;
  * `Machine.Ends`, `Machine.Forever` -- the two things that a run can do, never both
    (`ends_or_forever`, `Ends.unique`, `Ends.not_forever`);
  * `Follows` -- every step of a machine is some steps of another one; a step that is none makes
    the state smaller, so this cannot go on forever;
  * `Follows.steps`, `Follows.ends`, `Follows.forever` -- steps, ends and endless runs carry over;
  * `Follows.agree` -- two machines followed by one end alike;
  * `Turn`, `ends_of_turn` -- two machines that take turns of any length.
-/
namespace CallByNeed

/-- A machine with states `σ` that ends in one of the ways `ε`. -/
structure Machine (σ ε : Type) where
  next : σ → σ ⊕ ε

namespace Machine

variable {σ ε : Type} {M : Machine σ ε} {s t u : σ} {m n : Nat}

/-! ## 1. Steps -/

/-- `n` steps of a machine. -/
inductive Steps (M : Machine σ ε) : Nat → σ → σ → Prop where
  | refl (s : σ) : Steps M 0 s s
  | head {n : Nat} {s t u : σ} (hs : M.next s = .inl t) (ht : Steps M n t u) : Steps M (n + 1) s u

theorem Steps.single (hs : M.next s = .inl t) : M.Steps 1 s t := .head hs (.refl t)

theorem Steps.trans (hs : M.Steps m s t) (ht : M.Steps n t u) : M.Steps (m + n) s u := by
  induction hs with
  | refl s =>
    rw [Nat.zero_add]
    exact ht
  | head h _ ih =>
    rw [Nat.add_right_comm]
    exact .head h (ih ht)

theorem Steps.tail (hs : M.Steps n s t) (ht : M.next t = .inl u) : M.Steps (n + 1) s u :=
  hs.trans (.single ht)

/-- The first `m` of `n` steps, and the others. -/
theorem Steps.split (hs : M.Steps n s u) (hm : m ≤ n) :
    ∃ t, M.Steps m s t ∧ M.Steps (n - m) t u := by
  induction hs generalizing m with
  | refl s =>
    obtain rfl : m = 0 := Nat.le_zero.mp hm
    exact ⟨s, .refl s, .refl s⟩
  | @head n s t u h ht ih =>
    cases m with
    | zero => exact ⟨s, .refl s, .head h ht⟩
    | succ m =>
      obtain ⟨r, hr, hu⟩ := ih (Nat.le_of_succ_le_succ hm)
      refine ⟨r, .head h hr, ?_⟩
      rw [Nat.add_sub_add_right]
      exact hu

theorem Steps.unique (ht : M.Steps n s t) (hu : M.Steps n s u) : t = u := by
  induction ht with
  | refl s =>
    cases hu
    rfl
  | head h _ ih =>
    cases hu with
    | head h' hu =>
      rw [h] at h'
      cases h'
      exact ih hu

/-! ## 2. Ends and endless runs -/

/-- The run from `s` ends with `e`. -/
def Ends (M : Machine σ ε) (s : σ) (e : ε) : Prop := ∃ n t, M.Steps n s t ∧ M.next t = .inr e

/-- The run from `s` never ends. -/
def Forever (M : Machine σ ε) (s : σ) : Prop := ∀ n, ∃ t, M.Steps n s t

/-- A run that has ended takes no more steps. -/
theorem Steps.le_of_ended {e : ε} (ht : M.Steps n s t) (he : M.next t = .inr e)
    (hu : M.Steps m s u) : m ≤ n := by
  refine Nat.le_of_not_lt fun hlt => ?_
  obtain ⟨r, hr, hru⟩ := hu.split (Nat.le_of_lt hlt)
  obtain rfl := ht.unique hr
  obtain ⟨k, hk⟩ : ∃ k, m - n = k + 1 := ⟨m - n - 1, by omega⟩
  rw [hk] at hru
  cases hru with
  | head h _ =>
    rw [he] at h
    cases h

theorem Ends.unique {e f : ε} (he : M.Ends s e) (hf : M.Ends s f) : e = f := by
  obtain ⟨n, t, ht, het⟩ := he
  obtain ⟨m, u, hu, hfu⟩ := hf
  obtain rfl : n = m := Nat.le_antisymm (hu.le_of_ended hfu ht) (ht.le_of_ended het hu)
  obtain rfl := ht.unique hu
  rw [het] at hfu
  exact Sum.inr.inj hfu

theorem Ends.not_forever {e : ε} (he : M.Ends s e) : ¬ M.Forever s := by
  intro hf
  obtain ⟨n, t, ht, het⟩ := he
  obtain ⟨u, hu⟩ := hf (n + 1)
  have hle := ht.le_of_ended het hu
  omega

/-- A later state ends as the run does. -/
theorem Ends.after {e : ε} (he : M.Ends s e) (hs : M.Steps m s t) : M.Ends t e := by
  obtain ⟨n, u, hu, hlast⟩ := he
  obtain ⟨r, hr, hru⟩ := hu.split (hu.le_of_ended hlast hs)
  obtain rfl := hr.unique hs
  exact ⟨_, u, hru, hlast⟩

theorem Steps.ends {e : ε} (hs : M.Steps m s t) (he : M.Ends t e) : M.Ends s e := by
  obtain ⟨n, u, hu, hlast⟩ := he
  exact ⟨m + n, u, hs.trans hu, hlast⟩

theorem Forever.after (hf : M.Forever s) (hs : M.next s = .inl t) : M.Forever t := by
  intro n
  obtain ⟨u, hu⟩ := hf (n + 1)
  cases hu with
  | head h hu =>
    rw [hs] at h
    cases h
    exact ⟨u, hu⟩

theorem Steps.forever (hs : M.Steps m s t) (hf : M.Forever t) : M.Forever s := by
  intro n
  obtain ⟨u, hu⟩ := hf n
  obtain ⟨r, hr, _⟩ := (hs.trans hu).split (Nat.le_add_left n m)
  exact ⟨r, hr⟩

theorem ends_or_forever (M : Machine σ ε) (s : σ) : (∃ e, M.Ends s e) ∨ M.Forever s := by
  by_cases h : ∃ e, M.Ends s e
  · exact .inl h
  refine .inr fun n => ?_
  induction n with
  | zero => exact ⟨s, .refl s⟩
  | succ n ih =>
    obtain ⟨t, ht⟩ := ih
    cases hn : M.next t with
    | inl u => exact ⟨u, ht.tail hn⟩
    | inr e => exact absurd ⟨e, n, t, ht, hn⟩ h

end Machine

/-! ## 3. One machine follows another -/

variable {σ₁ σ₂ τ ε₁ ε₂ δ : Type}

/-- `N` follows `M` in states related by `R`, and ends alike by `E`. -/
structure Follows (M : Machine σ₁ ε₁) (N : Machine τ δ) (R : σ₁ → τ → Prop) (E : ε₁ → δ → Prop)
    (size : σ₁ → Nat) : Prop where
  step : ∀ s s' t, R s t → M.next s = .inl s' →
    ∃ k t', N.Steps k t t' ∧ R s' t' ∧ (k = 0 → size s' < size s)
  last : ∀ s t e, R s t → M.next s = .inr e → ∃ d, N.next t = .inr d ∧ E e d

namespace Follows

variable {M : Machine σ₁ ε₁} {N : Machine τ δ} {R : σ₁ → τ → Prop} {E : ε₁ → δ → Prop}
  {size : σ₁ → Nat}

/-- **An end carries over.** -/
theorem ends (hF : Follows M N R E size) {s : σ₁} {t : τ} (hR : R s t) {e : ε₁}
    (he : M.Ends s e) : ∃ d, N.Ends t d ∧ E e d := by
  obtain ⟨n, s', hs, hlast⟩ := he
  induction hs generalizing t with
  | refl s =>
    obtain ⟨d, hd, hE⟩ := hF.last s t e hR hlast
    exact ⟨d, ⟨0, t, .refl t, hd⟩, hE⟩
  | head h _ ih =>
    obtain ⟨k, t', ht, hR', _⟩ := hF.step _ _ _ hR h
    obtain ⟨d, ⟨j, u, hu, hd⟩, hE⟩ := ih hR' hlast
    exact ⟨d, ⟨k + j, u, ht.trans hu, hd⟩, hE⟩

/-- Every state that the one machine comes to is followed by a state that the other one comes to. -/
theorem steps (hF : Follows M N R E size) {s s' : σ₁} {t : τ} (hR : R s t) {n : Nat}
    (hs : M.Steps n s s') : ∃ m t', N.Steps m t t' ∧ R s' t' := by
  induction hs generalizing t with
  | refl s => exact ⟨0, t, .refl t, hR⟩
  | head h _ ih =>
    obtain ⟨k, t', ht, hR', _⟩ := hF.step _ _ _ hR h
    obtain ⟨m, u, hu, hR''⟩ := ih hR'
    exact ⟨k + m, u, ht.trans hu, hR''⟩

/-- From a state that runs forever the other machine moves, sooner or later. -/
theorem advance (hF : Follows M N R E size) {s : σ₁} {t : τ} (hR : R s t) (hf : M.Forever s) :
    ∃ k s' t', N.Steps (k + 1) t t' ∧ R s' t' ∧ M.Forever s' := by
  -- steps that the other machine does not see make the state smaller
  generalize hb : size s = b
  induction b using Nat.strongRecOn generalizing s with
  | _ b ih =>
    obtain ⟨s', hs⟩ := hf 1
    cases hs with
    | head h hrest =>
      obtain ⟨k, t', ht, hR', hk⟩ := hF.step _ _ _ hR h
      have hf' := hf.after h
      cases k with
      | succ k => exact ⟨k, _, t', ht, hR', hf'⟩
      | zero =>
        cases ht
        exact ih _ (hb ▸ hk rfl) hR' hf' rfl

/-- **An endless run carries over.** -/
theorem forever (hF : Follows M N R E size) {s : σ₁} {t : τ} (hR : R s t) (hf : M.Forever s) :
    N.Forever t := by
  intro n
  -- it is enough to find `n` steps or more
  have hmore : ∃ m u, n ≤ m ∧ N.Steps m t u := by
    induction n generalizing s t with
    | zero => exact ⟨0, t, Nat.le_refl 0, .refl t⟩
    | succ n ih =>
      obtain ⟨k, s', t', ht, hR', hf'⟩ := hF.advance hR hf
      obtain ⟨m, u, hm, hu⟩ := ih hR' hf'
      exact ⟨k + 1 + m, u, by omega, ht.trans hu⟩
  obtain ⟨m, u, hm, hu⟩ := hmore
  obtain ⟨r, hr, _⟩ := hu.split hm
  exact ⟨r, hr⟩

/-- An end of the machine that follows is one of the machine that is followed. -/
theorem ends_back (hF : Follows M N R E size) {s : σ₁} {t : τ} (hR : R s t) {d : δ}
    (hd : N.Ends t d) : ∃ e, M.Ends s e ∧ E e d := by
  rcases M.ends_or_forever s with ⟨e, he⟩ | hf
  · obtain ⟨d', hd', hE⟩ := hF.ends hR he
    obtain rfl := hd.unique hd'
    exact ⟨e, he, hE⟩
  · exact absurd (hF.forever hR hf) hd.not_forever

variable {M₂ : Machine σ₂ ε₂} {R₂ : σ₂ → τ → Prop} {E₂ : ε₂ → δ → Prop} {size₂ : σ₂ → Nat}

/-- **Two machines followed by one end alike.** -/
theorem agree (hF : Follows M N R E size) (hF₂ : Follows M₂ N R₂ E₂ size₂) {s : σ₁} {s₂ : σ₂}
    {t : τ} (hR : R s t) (hR₂ : R₂ s₂ t) {e : ε₁} (he : M.Ends s e) :
    ∃ e₂ d, M₂.Ends s₂ e₂ ∧ E e d ∧ E₂ e₂ d := by
  obtain ⟨d, hd, hE⟩ := hF.ends hR he
  rcases M₂.ends_or_forever s₂ with ⟨e₂, he₂⟩ | hf
  · obtain ⟨d', hd', hE₂⟩ := hF₂.ends hR₂ he₂
    obtain rfl := hd.unique hd'
    exact ⟨e₂, d, he₂, hE, hE₂⟩
  · exact absurd (hF₂.forever hR₂ hf) hd.not_forever

/-- **Two machines followed by one run forever alike.** -/
theorem agree_forever (hF : Follows M N R E size) (hF₂ : Follows M₂ N R₂ E₂ size₂) {s : σ₁}
    {s₂ : σ₂} {t : τ} (hR : R s t) (hR₂ : R₂ s₂ t) (hf : M.Forever s) : M₂.Forever s₂ := by
  rcases M₂.ends_or_forever s₂ with ⟨e₂, he₂⟩ | hf₂
  · obtain ⟨d, hd, _⟩ := hF₂.ends hR₂ he₂
    exact absurd (hF.forever hR hf) hd.not_forever
  · exact hf₂

end Follows

/-! ## 4. Two machines that take turns -/

/-- Both machines have ended alike, or both go on, in as many steps as each needs, to states that
    are related again. -/
def Turn (M : Machine σ₁ ε₁) (N : Machine τ δ) (R : σ₁ → τ → Prop) (E : ε₁ → δ → Prop) (s : σ₁)
    (t : τ) : Prop :=
  (∃ e d, M.next s = .inr e ∧ N.next t = .inr d ∧ E e d) ∨
  ∃ k m s' t', M.Steps (k + 1) s s' ∧ N.Steps (m + 1) t t' ∧ R s' t'

section Turns

variable {M : Machine σ₁ ε₁} {N : Machine τ δ} {R : σ₁ → τ → Prop} {E : ε₁ → δ → Prop}

theorem Turn.flip {s : σ₁} {t : τ} (h : Turn M N R E s t) :
    Turn N M (fun t s => R s t) (fun d e => E e d) t s := by
  rcases h with ⟨e, d, he, hd, hE⟩ | ⟨k, m, s', t', hs, ht, hR⟩
  · exact .inl ⟨d, e, hd, he, hE⟩
  · exact .inr ⟨m, k, t', s', ht, hs, hR⟩

/-- **What the one machine ends with, the other one ends with too.** -/
theorem ends_of_turn (hT : ∀ s t, R s t → Turn M N R E s t) {s : σ₁} {t : τ} (hR : R s t) {e : ε₁}
    (he : M.Ends s e) : ∃ d, N.Ends t d ∧ E e d := by
  obtain ⟨n, u, hu, hlast⟩ := he
  -- every turn takes at least one of the `n` steps to the end
  induction n using Nat.strongRecOn generalizing s t with
  | _ n ih =>
    rcases hT s t hR with ⟨e', d, he', hd, hE⟩ | ⟨k, m, s', t', hs, ht, hR'⟩
    · obtain rfl : e' = e := Machine.Ends.unique ⟨0, s, .refl s, he'⟩ ⟨n, u, hu, hlast⟩
      exact ⟨d, ⟨0, t, .refl t, hd⟩, hE⟩
    · have hk : k + 1 ≤ n := hu.le_of_ended hlast hs
      obtain ⟨r, hr, hru⟩ := hu.split hk
      obtain rfl := hr.unique hs
      obtain ⟨d, ⟨j, w, hw, hd⟩, hE⟩ := ih (n - (k + 1)) (by omega) hR' hru
      exact ⟨d, ⟨m + 1 + j, w, ht.trans hw, hd⟩, hE⟩

end Turns

end CallByNeed
