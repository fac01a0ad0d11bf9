/-
  File:      CallByNeed/Proofs/Machine/Strict.lean
  Subject:   Strict primitives look into no cell and make none.

  * `Value.refs` -- the cells that a value refers to; `strictEffect_refs`: a result refers to none,
    and `strictEffect_ground`: nor does it hold code;
  * `strictEffect_blamesValues` -- a fault lies in the values;
  * `Value.face` -- what is seen of a value; `strictEffect_face`: the result is that of the faces;
  * `Value.blank` -- a value without its cells; `strictEffect_blank`: the result is that of the
    values without their cells.
-/
import CallByNeed.Proofs.Machine.Move

namespace CallByNeed

/-- The cells that a value refers to. -/
def Value.refs : Value → List Nat
  | .number _ | .string _ => []
  | .closure _ env => env
  | .primitive _ args => args

/-- Whether a value is made of neither code nor cells. -/
def Value.isGround : Value → Bool
  | .number _ | .string _ | .primitive _ [] => true
  | .closure _ _ | .primitive _ (_ :: _) => false

/-! ## 1. Results refer to no cell -/

/-- Whether a fault lies in the values that a strict primitive got. -/
def Fault.blamesValues : Fault → Bool
  | .typeMismatch _ _ | .divisionByZero _ | .overflow _ => true
  | .notCallable _ | .infiniteLoop | .unboundVariable _ => false

/-- What a strict primitive can come to: a value without code and cells, or a fault of the values
    it got. -/
def Cellless : Except Fault Value → Prop
  | .ok v => v.isGround = true
  | .error fault => fault.blamesValues = true

theorem cellless_exactly (b : Builtin) (n : Int) : Cellless (exactly b n) := by
  unfold exactly
  cases word? n <;> rfl

theorem cellless_divided (b : Builtin) (d : Int64) (n : Int) : Cellless (divided b d n) := by
  unfold divided
  split
  · rfl
  · exact cellless_exactly b n

theorem cellless_arithmetic? {b : Builtin} {m n : Int64} {r : Except Fault Value}
    (hr : arithmetic? b m n = some r) : Cellless r := by
  unfold arithmetic? at hr
  split at hr <;> cases hr
  · exact cellless_exactly _ _
  · exact cellless_exactly _ _
  · exact cellless_exactly _ _
  · exact cellless_divided _ _ _
  · exact cellless_divided _ _ _
  · rfl
  · rfl

theorem cellless_textual? {b : Builtin} {s t : String} {r : Except Fault Value}
    (hr : textual? b s t = some r) : Cellless r := by
  unfold textual? at hr
  split at hr <;> cases hr <;> rfl

theorem cellless_getD {o : Option (Except Fault Value)} {b : Builtin} {v w : Value}
    (ho : ∀ r, o = some r → Cellless r) : Cellless (o.getD (unfitPair b v w)) := by
  cases o with
  | none => rfl
  | some r => exact ho r rfl

theorem cellless_binaryResult (b : Builtin) (v w : Value) : Cellless (binaryResult b v w) := by
  unfold binaryResult
  split
  · rfl
  · exact cellless_getD fun r => cellless_arithmetic?
  · exact cellless_getD fun r => cellless_textual?
  · rfl
  · rfl
  · rfl

theorem cellless_strictResult (b : Builtin) (args : List Value) :
    Cellless (strictResult b args) := by
  unfold strictResult
  split
  · rfl
  · rfl
  · exact cellless_binaryResult _ _ _
  · rfl

/-- What a strict primitive does to the values of its arguments, printing apart. -/
theorem cellless_strictEffect (b : Builtin) (args : List Value) (p : Printed) :
    Cellless ((strictEffect b args p).map Prod.fst) := by
  unfold strictEffect
  split
  · rfl
  · have hr := cellless_strictResult b args
    cases hs : strictResult b args with
    | ok v =>
      rw [hs] at hr
      exact hr
    | error fault =>
      rw [hs] at hr
      exact hr

/-- **What a strict primitive computes is made of neither code nor cells.** -/
theorem strictEffect_ground {b : Builtin} {args : List Value} {p p' : Printed} {v : Value}
    (hr : strictEffect b args p = .ok (v, p')) : v.isGround = true := by
  have h := cellless_strictEffect b args p
  rw [hr] at h
  exact h

theorem Value.refs_of_isGround {v : Value} (hv : v.isGround = true) : v.refs = [] := by
  cases v with
  | number n => rfl
  | string s => rfl
  | closure body env => cases hv
  | primitive b args =>
    cases args with
    | nil => rfl
    | cons a args => cases hv

/-- **What a strict primitive computes refers to no cell.** -/
theorem strictEffect_refs {b : Builtin} {args : List Value} {p p' : Printed} {v : Value}
    (hr : strictEffect b args p = .ok (v, p')) : v.refs = [] :=
  v.refs_of_isGround (strictEffect_ground hr)

/-- **A strict primitive blames nothing but the values it got.** -/
theorem strictEffect_blamesValues {b : Builtin} {args : List Value} {p : Printed} {fault : Fault}
    (hr : strictEffect b args p = .error fault) : fault.blamesValues = true := by
  have h := cellless_strictEffect b args p
  rw [hr] at h
  exact h

/-- What was printed before makes no difference to a strict primitive. -/
theorem strictEffect_printed (b : Builtin) (args : List Value) (p q : Printed) :
    (strictEffect b args p).map Prod.fst = (strictEffect b args q).map Prod.fst := by
  unfold strictEffect
  split
  · rfl
  · cases strictResult b args <;> rfl

/-! ## 2. Results look into neither code nor cells -/

/-- What a strict primitive sees of a value: the data, or which function it is. -/
def Value.face : Value → Value
  | .number n => .number n
  | .string s => .string s
  | .closure _ _ => .closure default []
  | .primitive b _ => .primitive b []

section Face

variable (b : Builtin) (v w : Value)

@[simp] theorem Value.isFunction_face : v.face.isFunction = v.isFunction := by cases v <;> rfl

@[simp] theorem Value.isNumber_face : v.face.isNumber = v.isNumber := by cases v <;> rfl

@[simp] theorem Value.display_face : v.face.display = v.display := by cases v <;> rfl

@[simp] theorem Value.describe_face : v.face.describe = v.describe := by cases v <;> rfl

theorem culprit_face : culprit v.face w.face = (culprit v w).face := by
  simp only [culprit, Value.isFunction_face, Value.isNumber_face]
  split
  · rfl
  · split
    · rfl
    · split <;> rfl

theorem unfitPair_face : unfitPair b v.face w.face = unfitPair b v w := by
  simp only [unfitPair, unfit, culprit_face, Value.describe_face]

theorem equalValues_face : equalValues v.face w.face = equalValues v w := by
  cases v <;> cases w <;> rfl

theorem binaryResult_face : binaryResult b v.face w.face = binaryResult b v w := by
  by_cases hb : b = .eq
  · subst hb
    simp only [binaryResult, equalValues_face]
  · have hu := unfitPair_face b v w
    cases v <;> cases w <;> simp_all [binaryResult, Value.face]

theorem strictResult_face : ∀ args : List Value,
    strictResult b (args.map Value.face) = strictResult b args
  | [] => rfl
  | [v] => by
      by_cases hb : b = .length
      · subst hb
        cases v <;> simp [strictResult, Value.face, unfit, Value.describe, Value.display]
      · cases b <;> first | rfl | exact absurd rfl hb
  | [v, w] => by
      simp [strictResult, binaryResult_face]
  | _ :: _ :: _ :: _ => by simp [strictResult]

/-- **A strict primitive looks into neither code nor cells.** -/
theorem strictEffect_face (args : List Value) (p : Printed) :
    strictEffect b (args.map Value.face) p = strictEffect b args p := by
  by_cases hp : ∃ v, b = .print ∧ args = [v]
  · obtain ⟨v, rfl, rfl⟩ := hp
    simp [strictEffect]
  · have hargs : ∀ v, b = .print → args ≠ [v] := fun v hb he => hp ⟨v, hb, he⟩
    have hface : ∀ v, b = .print → args.map Value.face ≠ [v] := by
      intro v hb he
      obtain ⟨u, hu, _⟩ := List.map_eq_singleton_iff.mp he
      exact hargs u hb hu
    rw [strictEffect_of_ne_print hargs, strictEffect_of_ne_print hface, strictResult_face]

end Face

/-- A value without its cells: each of them is forgotten for the first one. -/
def Value.blank : Value → Value
  | .number n => .number n
  | .string s => .string s
  | .closure body _ => .closure body []
  | .primitive b args => .primitive b (args.map fun _ => 0)

section Blank

variable (b : Builtin) (v : Value)

@[simp] theorem Value.face_blank : v.blank.face = v.face := by cases v <;> rfl

@[simp] theorem Value.isFunction_blank : v.blank.isFunction = v.isFunction := by cases v <;> rfl

@[simp] theorem Value.display_blank : v.blank.display = v.display := by cases v <;> rfl

@[simp] theorem Value.debug_blank : v.blank.debug = v.debug := by
  cases v <;> simp [Value.blank, Value.debug]

/-- **A strict primitive looks into no cell.** -/
theorem strictEffect_blank (args : List Value) (p : Printed) :
    strictEffect b (args.map Value.blank) p = strictEffect b args p := by
  have hface : (args.map Value.blank).map Value.face = args.map Value.face := by
    simp [Function.comp_def]
  rw [← strictEffect_face, hface, strictEffect_face]

end Blank

end CallByNeed
