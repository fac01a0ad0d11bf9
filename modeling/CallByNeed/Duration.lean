/-
  File:      CallByNeed/Duration.lean
  Subject:   Spans of time: how they are shown and read, and how long they are to a machine.

  * `Duration` -- a whole number of nanoseconds;
  * `Duration.toText` -- in the largest unit with a whole part, without trailing zeros;
  * `Duration.steps` -- the steps that a machine may take in that time. Time is counted in steps, so
    that the same limit always ends a run at the same step;
  * `Seconds.read?` -- decimal text for a number of seconds, rounded to a double first and to
    nanoseconds then.
-/
import CallByNeed.Literal

namespace CallByNeed

/-! ## 1. Durations -/

/-- A span of time. -/
structure Duration where
  nanos : Nat
  deriving DecidableEq, Repr, Inhabited

namespace Duration

/-- A number of seconds. -/
def ofSeconds (s : Nat) : Duration := ⟨s * 1000000000⟩

/-- A fraction below one, written with `places` digits and without its trailing zeros. -/
def fractionText (places fraction : Nat) : String :=
  let digits := (Nat.toDigits 10 (Nat.pow 10 places + fraction)).drop 1
  match (digits.reverse.dropWhile (· == '0')).reverse with
  | [] => ""
  | shown => String.ofList ('.' :: shown)

/-- A number of units of `10 ^ places` nanoseconds. -/
def inUnit (d : Duration) (places : Nat) (unit : String) : String :=
  (d.nanos / Nat.pow 10 places).repr ++ fractionText places (d.nanos % Nat.pow 10 places) ++ unit

/-- The duration in the largest unit in which it has a whole part. -/
def toText (d : Duration) : String :=
  if d.nanos ≥ 1000000000 then d.inUnit 9 "s"
  else if d.nanos ≥ 1000000 then d.inUnit 6 "ms"
  else if d.nanos ≥ 1000 then d.inUnit 3 "µs"
  else d.inUnit 0 "ns"

/-- Nanoseconds that one step of the machine counts for. -/
def nanosPerStep : Nat := 100

/-- No run takes more steps than this; a longer limit is no limit. -/
def horizon : Nat := 4611686018427387904

/-- Steps that a machine completes in the time. No time at all leaves no step. -/
def steps (d : Duration) : Nat :=
  min horizon (d.nanos / nanosPerStep)

end Duration

/-! ## 2. Reading seconds -/

/-- A quotient rounded to the nearest whole number; a half goes to the even neighbour. -/
def roundDiv (num den : Nat) : Nat :=
  let q := num / den
  let r := num % den
  if 2 * r < den ∨ (2 * r = den ∧ q % 2 = 0) then q else q + 1

/-- A number of seconds as text gives it. -/
inductive Seconds where
  | notANumber
  | infinite
  /-- `mantissa * 10 ^ exponent`, below zero if `negative`. -/
  | finite (negative : Bool) (mantissa : Nat) (exponent : Int)
  deriving DecidableEq, Repr, Inhabited

namespace Seconds

/-- An exponent: `e` or `E`, perhaps a sign, and digits up to the end of the text. -/
def exponent? : List Char → Option Int
  | [] => some 0
  | c :: cs =>
    let digits := match cs with
      | '+' :: ds => ds
      | '-' :: ds => ds
      | ds => ds
    if (c = 'e' ∨ c = 'E') ∧ digits ≠ [] ∧ digits.all Char.isDigit then
      some (numeralValue cs)
    else none

/-- A number without a sign: digits with at most one point among them, and perhaps an exponent. -/
def unsigned? (negative : Bool) (cs : List Char) : Option Seconds :=
  let whole := cs.takeWhile Char.isDigit
  let (fraction, tail) := match cs.dropWhile Char.isDigit with
    | '.' :: rest => (rest.takeWhile Char.isDigit, rest.dropWhile Char.isDigit)
    | rest => ([], rest)
  if whole.isEmpty && fraction.isEmpty then none
  else (exponent? tail).map fun e =>
    .finite negative (digitsValue (whole ++ fraction)) (e - fraction.length)

/-- A number: perhaps a sign, and digits or the name of a value that has none. Letters may be of
    either case. -/
def read? (text : String) : Option Seconds :=
  let (negative, cs) := match text.toList with
    | '-' :: cs => (true, cs)
    | '+' :: cs => (false, cs)
    | cs => (false, cs)
  let word := String.ofList (cs.map Char.toLower)
  if word = "nan" then some .notANumber
  else if word = "inf" ∨ word = "infinity" then some .infinite
  else unsigned? negative cs

/-- The double nearest to `num / den`, as a quotient, for values that are neither zero nor too small
    or large for all 53 bits: the value is scaled up to at least 53 bits before the point, and the
    bits beyond the 53rd are rounded away. -/
def nearestDouble (num den : Nat) : Nat × Nat :=
  let up := den.log2 + 53
  let scaled := num <<< up
  let extra := (scaled / den).log2 - 52
  (roundDiv scaled (den <<< extra) <<< extra, 1 <<< up)

/-- A number of seconds as a duration: below `2 ^ 64` seconds, and not below zero. What is so small
    that its double is zero has no sign. -/
def toDuration? : Seconds → Option Duration
  | .notANumber | .infinite => none
  | .finite negative mantissa exponent =>
    let size : Int := (mantissa.repr.length : Int) + exponent
    if mantissa = 0 then some ⟨0⟩
    -- Far beyond the largest duration, and far below the smallest double.
    else if size > 40 then none
    else if size < -400 then some ⟨0⟩
    else
      let num := mantissa * Nat.pow 10 exponent.toNat
      let den := Nat.pow 10 (-exponent).toNat
      if negative then
        if num <<< 1075 ≤ den then some ⟨0⟩ else none
      else
        -- Below a ten-thousandth of a nanosecond nothing is left.
        if size < -13 then some ⟨0⟩
        else
          let (n, d) := nearestDouble num den
          if n ≥ d <<< 64 then none else some ⟨roundDiv (n * 1000000000) d⟩

end Seconds

end CallByNeed
