/-
  File:      CallByNeed/Text/Bytes.lean
  Subject:   How many bytes a text takes.

  Offsets in a program text count UTF-8 bytes, while every scan goes character by character:

  * `byteCount` -- the bytes of a list of characters;
  * `byteCount_append`, `byteCount_replicate_space` -- it adds up over pieces, and a run of blanks
    takes one byte per blank.
-/
namespace CallByNeed

/-- Bytes that `cs` takes in UTF-8. -/
def byteCount (cs : List Char) : Nat :=
  cs.foldr (fun c n => c.utf8Size + n) 0

@[simp] theorem byteCount_nil : byteCount [] = 0 := rfl

@[simp] theorem byteCount_cons (c : Char) (cs : List Char) :
    byteCount (c :: cs) = c.utf8Size + byteCount cs := rfl

@[simp] theorem byteCount_append (cs ds : List Char) :
    byteCount (cs ++ ds) = byteCount cs + byteCount ds := by
  induction cs with
  | nil => simp
  | cons c cs ih => rw [List.cons_append, byteCount_cons, byteCount_cons, ih]; omega

/-- A run of blanks takes one byte per blank. -/
@[simp] theorem byteCount_replicate_space (n : Nat) :
    byteCount (List.replicate n ' ') = n := by
  induction n with
  | zero => rfl
  | succ n ih =>
    have one : Char.utf8Size ' ' = 1 := by decide
    rw [List.replicate_succ, byteCount_cons, ih, one]
    omega

end CallByNeed
