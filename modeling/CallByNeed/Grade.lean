/-
  File:      CallByNeed/Grade.lean
  Subject:   Grading. A submission is a chain of definitions, a problem a call to be put at its end.

  * `Expected`, `Expected.pattern` -- what the text of a run has to look like: a given text, or one
    that passes a test;
  * `Problem`, `Verdict`, `grade` -- one call, and whether the run answers it;
  * `ScoreSheet` -- a whole set of problems, its score and its text.
-/
import CallByNeed.Program

namespace CallByNeed

/-! ## 1. Expectations -/

/-- What the text of a run has to look like. -/
inductive Expected where
  | exact (text : String)
  /-- Whatever passes the test; `description` is shown in its stead. -/
  | passing (description : String) (test : String → Bool)
  deriving Inhabited

/-- Where a text is looked for in another one. -/
inductive Place where
  | anywhere
  | front
  | back
  deriving DecidableEq, Repr, Inhabited

/-- Whether `part` stands somewhere in a text. -/
def standsIn (part : List Char) : List Char → Bool
  | [] => part.isEmpty
  | c :: cs => part.isPrefixOf (c :: cs) || standsIn part cs

/-- Whether `part` stands in the given place of a text. -/
def Place.holds (place : Place) (part text : List Char) : Bool :=
  match place with
  | .anywhere => standsIn part text
  | .front => part.isPrefixOf text
  | .back => part.isSuffixOf text

namespace Expected

/-- A test for a text that stands in the given place. -/
def pattern (place : Place) (text description : String) : Expected :=
  .passing description fun output => place.holds text.toList output.toList

/-- Whether a text is as expected. -/
def accepts (e : Expected) (output : String) : Bool :=
  match e with
  | .exact text => text == output
  | .passing _ test => test output

/-- The text in reports: a description stands between slashes. -/
def display : Expected → String
  | .exact text => text
  | .passing description _ => "/" ++ description ++ "/"

/-- The text for inspection. -/
def debug : Expected → String
  | .exact text => "Exact(" ++ quoted text ++ ")"
  | .passing description _ => "Pattern(" ++ quoted description ++ ")"

end Expected

/-! ## 2. One problem -/

/-- A call, and what it has to give. -/
structure Problem where
  fragment : String
  expected : Expected
  timeLimit : Duration
  deriving Inhabited

/-- How a submission did on a problem. -/
structure Verdict where
  passed : Bool
  injected : String
  expected : String
  /-- The text of the run. -/
  output : String
  deriving DecidableEq, Repr, Inhabited

/-- Source name of a submission. -/
def submissionSource : String := "<SUBMIT>"

/-- How submissions are run: under the standard prelude, with the call injected. -/
def Problem.options (p : Problem) : Options :=
  { definitions := .standard
    fragment := some p.fragment
    limits := { timeLimit := p.timeLimit } }

/-- Runs a submission on a problem. -/
def grade (submission : String) (p : Problem) : Verdict :=
  let output := (execute ⟨submissionSource, submission⟩ p.options).text
  ⟨p.expected.accepts output, p.fragment, p.expected.display, output⟩

/-! ## 3. Sets of problems -/

/-- How a submission did on a set of problems, in their order. -/
structure ScoreSheet where
  results : List Verdict
  deriving DecidableEq, Repr, Inhabited

/-- Runs a submission on every problem. -/
def gradeSet (submission : String) (problems : List Problem) : ScoreSheet :=
  ⟨problems.map (grade submission)⟩

namespace ScoreSheet

/-- Problems passed. -/
def score (r : ScoreSheet) : Nat := r.results.countP Verdict.passed

/-- One problem of the report, counted from one. -/
def entry (index : Nat) (g : Verdict) : String :=
  let verdict := if g.passed then "Correct" else "Wrong"
  s!"{index}. {verdict}\n - Input: {g.injected}\n - Your: {g.output}\n\n"

/-- The text of the report. -/
def text (r : ScoreSheet) : String :=
  String.join (r.results.mapIdx fun i g => entry (i + 1) g)

end ScoreSheet

end CallByNeed
