/-
  File:      CallByNeed/Machine/Strict.lean
  Subject:   Strict primitives on the values of their arguments.

  Arithmetic is exact: a result that is no machine word is a fault, never a wrapped number.

  * `exactly` -- an exact result as a word, or the fault;
  * `culprit` -- which of two unfit arguments a message names;
  * `strictResult` -- the result of every strict primitive but `print`.
-/
import CallByNeed.Machine.Fault
import CallByNeed.Machine.Value

namespace CallByNeed

/-- An exact result, unless it overflows. -/
def exactly (b : Builtin) (n : Int) : Except Fault Value :=
  match word? n with
  | some w => .ok (.number w)
  | none => .error (.overflow b)

/-- A quotient or remainder, unless the divisor is zero. -/
def divided (b : Builtin) (divisor : Int64) (n : Int) : Except Fault Value :=
  if divisor = 0 then .error (.divisionByZero b) else exactly b n

/-- The argument that is named in a message: a function if there is one, else the first that is no
    number, else the second. -/
def culprit (v w : Value) : Value :=
  if v.isFunction then v
  else if w.isFunction then w
  else if !v.isNumber then v
  else w

/-- A strict primitive that cannot work with a value it got. -/
def unfit (b : Builtin) (v : Value) : Except Fault Value :=
  .error (.typeMismatch b v.describe)

/-- A strict primitive that cannot work with the two values it got. -/
def unfitPair (b : Builtin) (v w : Value) : Except Fault Value := unfit b (culprit v w)

/-- Arithmetic on two numbers: quotients are rounded down, a remainder has the sign of the
    dividend. -/
def arithmetic? (b : Builtin) (m n : Int64) : Option (Except Fault Value) :=
  match b with
  | .add => some (exactly b (m.toInt + n.toInt))
  | .sub => some (exactly b (m.toInt - n.toInt))
  | .mul => some (exactly b (m.toInt * n.toInt))
  | .div => some (divided b n (Int.fdiv m.toInt n.toInt))
  | .mod => some (divided b n (Int.tmod m.toInt n.toInt))
  | .lt => some (.ok (Value.ofBool (m < n)))
  | .le => some (.ok (Value.ofBool (m ≤ n)))
  | _ => none

/-- Primitives on two strings: order by code points, and putting together. -/
def textual? (b : Builtin) (s t : String) : Option (Except Fault Value) :=
  match b with
  | .add => some (.ok (.string (s ++ t)))
  | .lt => some (.ok (Value.ofBool (s < t)))
  | .le => some (.ok (Value.ofBool (!decide (t < s))))
  | _ => none

/-- Whether two values are equal as far as a program can tell: functions never are. -/
def equalValues : Value → Value → Bool
  | .number m, .number n => m == n
  | .string s, .string t => s == t
  | _, _ => false

/-- A strict primitive with two arguments. -/
def binaryResult (b : Builtin) (v w : Value) : Except Fault Value :=
  match b, v, w with
  | .eq, v, w => .ok (Value.ofBool (equalValues v w))
  | b, .number m, .number n => (arithmetic? b m n).getD (unfitPair b v w)
  | b, .string s, .string t => (textual? b s t).getD (unfitPair b v w)
  | .add, .number m, .string t => .ok (.string (decimal m ++ t))
  | .add, .string s, .number n => .ok (.string (s ++ decimal n))
  | b, v, w => unfitPair b v w

/-- The result of a strict primitive other than `print`. -/
def strictResult (b : Builtin) (args : List Value) : Except Fault Value :=
  match b, args with
  | .length, [.string s] => .ok (.number (Int64.ofNat s.length))
  | .length, [v] => unfit b v
  | b, [v, w] => binaryResult b v w
  | b, args => .error (.typeMismatch b s!"{args.length} arguments")

end CallByNeed
