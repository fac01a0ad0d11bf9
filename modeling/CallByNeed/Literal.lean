/-
  File:      CallByNeed/Literal.lean
  Subject:   Literals: the integers of the language and the escapes of its strings.

  * `fitsWord`, `word?` -- which integers a program can hold;
  * `decimal`, `numeralValue` -- writing and reading them;
  * `escape`, `unescape` -- what stands between the quotes of a string literal, and back.
-/
namespace CallByNeed

/-! ## 1. Integers -/

/-- The integers of the language are those from `-wordBound` up to but not including `wordBound`:
    64 bits, signed. -/
def wordBound : Int := 9223372036854775808

/-- Whether an integer is one of the language. -/
def fitsWord (n : Int) : Bool :=
  -wordBound ≤ n && n < wordBound

/-- An integer as a machine word, if it fits. -/
def word? (n : Int) : Option Int64 :=
  if fitsWord n then some (Int64.ofInt n) else none

/-- Decimal text of an integer. -/
def decimal (n : Int64) : String := n.toInt.repr

/-- Value of a digit. -/
def digitValue (c : Char) : Nat := c.toNat - '0'.toNat

/-- Value of a run of decimal digits. -/
def digitsValue (ds : List Char) : Nat :=
  ds.foldl (fun n c => 10 * n + digitValue c) 0

/-- Value of a numeral: digits, and in front of them perhaps a sign. -/
def numeralValue : List Char → Int
  | '-' :: ds => -(digitsValue ds : Int)
  | '+' :: ds => digitsValue ds
  | ds => digitsValue ds

/-! ## 2. Strings -/

/-- One character of a string literal. -/
def escapeChar (c : Char) : List Char :=
  if c = '\x00' then ['\\', '0']
  else if c = '\t' then ['\\', 't']
  else if c = '\r' then ['\\', 'r']
  else if c = '\n' then ['\\', 'n']
  else if c = '\x27' then ['\\', '\x27']
  else if c = '"' then ['\\', '"']
  else if c = '\\' then ['\\', '\\']
  else [c]

/-- What is written between the quotes of a literal. -/
def escape (s : String) : String :=
  String.ofList (s.toList.flatMap escapeChar)

/-- The character that a backslash and `c` stand for: `c` itself, unless it names a control
    character. -/
def escaped (c : Char) : Char :=
  if c = '0' then '\x00'
  else if c = 't' then '\t'
  else if c = 'r' then '\r'
  else if c = 'n' then '\n'
  else c

/-- Reads escapes; `done` holds the characters read so far, last one first. A backslash at the very
    end stands for nothing. -/
def unescapeOnto (done : List Char) : List Char → List Char
  | [] => done.reverse
  | [c] => if c = '\\' then done.reverse else (c :: done).reverse
  | c :: d :: cs =>
    if c = '\\' then unescapeOnto (escaped d :: done) cs else unescapeOnto (c :: done) (d :: cs)

/-- What the characters between the quotes of a literal stand for. -/
def unescapeChars (cs : List Char) : List Char := unescapeOnto [] cs

/-- What the text between the quotes of a literal stands for. -/
def unescape (s : String) : String :=
  String.ofList (unescapeChars s.toList)

/-! ## 3. Escapes one at a time -/

theorem unescapeOnto_eq : ∀ (cs done : List Char),
    unescapeOnto done cs = done.reverse ++ unescapeChars cs
  | [], done => by simp [unescapeChars, unescapeOnto]
  | [c], done => by
    by_cases h : c = '\\' <;> simp [unescapeChars, unescapeOnto, h]
  | c :: d :: cs, done => by
    by_cases h : c = '\\'
    · rw [unescapeChars, unescapeOnto, unescapeOnto, if_pos h, if_pos h, unescapeOnto_eq cs,
        unescapeOnto_eq cs]
      simp
    · rw [unescapeChars, unescapeOnto, unescapeOnto, if_neg h, if_neg h,
        unescapeOnto_eq (d :: cs), unescapeOnto_eq (d :: cs)]
      simp

@[simp] theorem unescapeChars_nil : unescapeChars [] = [] := rfl

/-- A backslash takes the next character along. -/
theorem unescapeChars_backslash (c : Char) (cs : List Char) :
    unescapeChars ('\\' :: c :: cs) = escaped c :: unescapeChars cs := by
  rw [unescapeChars, unescapeOnto, if_pos rfl, unescapeOnto_eq]
  rfl

/-- Every other character stands for itself. -/
theorem unescapeChars_cons {c : Char} (h : c ≠ '\\') (cs : List Char) :
    unescapeChars (c :: cs) = c :: unescapeChars cs := by
  cases cs with
  | nil => simp [unescapeChars, unescapeOnto, h]
  | cons d cs =>
    rw [unescapeChars, unescapeOnto, if_neg h, unescapeOnto_eq]
    rfl

end CallByNeed
