/-
  File:      CallByNeed/Command/Response.lean
  Subject:   What the command does with its arguments.

  The arguments are looked at first, the time limit next, and only then is the program read.

  * `Input` -- where the program comes from;
  * `Request`, `Plan`, `plan` -- what is to be run, or why nothing is;
  * `Response`, `Request.respond` -- the text on standard output and the exit status.
-/
import CallByNeed.Command.Arguments
import CallByNeed.Program

namespace CallByNeed

/-- Where the program comes from. -/
inductive Input where
  | expression (text : String)
  | file (name : String)
  | standardInput
  deriving DecidableEq, Repr, Inhabited

/-- The name that the program's places are given under. -/
def Input.sourceName : Input → String
  | .expression _ => "<EXPR>"
  | .file name => name
  | .standardInput => "<STDIN>"

/-- Standard output and the exit status. -/
structure Response where
  exitCode : UInt32
  output : String
  deriving DecidableEq, Repr, Inhabited

namespace Response

/-- The arguments are not used as they should be. -/
def usage : Response := ⟨2, ""⟩

/-- There is nothing to run. -/
def refusal : Response := ⟨1, ""⟩

end Response

/-- A run that the arguments ask for. -/
structure Request where
  input : Input
  options : Options
  /-- Compile faults are drawn elsewhere. -/
  fancy : Bool
  deriving DecidableEq, Repr, Inhabited

/-- What the arguments ask for: a run, or an answer that is settled already. -/
inductive Plan where
  | settled (response : Response)
  | request (r : Request)
  deriving DecidableEq, Repr, Inhabited

/-- Where the program comes from: an expression, else a file, else standard input. -/
def Arguments.input (a : Arguments) : Input :=
  match a.expr, a.file with
  | some text, _ => .expression text
  | none, some name => .file name
  | none, none => .standardInput

/-- The options of a run with a time limit. -/
def Arguments.options (a : Arguments) (limit : Duration) : Options :=
  { definitions := if a.standardPrelude then .standard else .none
    fragment := a.fragment
    limits := { timeLimit := limit } }

/-- Ten minutes, unless the arguments say otherwise; `none` if that is no duration. -/
def Arguments.limit? (a : Arguments) : Option Duration :=
  match a.timeLimit with
  | none => some (Duration.ofSeconds 600)
  | some s => s.toDuration?

/-- What a command line asks for. -/
def plan (args : List String) : Plan :=
  match Arguments.read? args with
  | none => .settled .usage
  | some a =>
    match a.limit? with
    | none => .settled .refusal
    | some limit => .request ⟨a.input, a.options limit, a.fancy⟩

namespace Request

/-- Runs a program of which the text is known. -/
def answer (r : Request) (text : String) : Response :=
  let outcome := execute ⟨r.input.sourceName, text⟩ r.options
  let status : UInt32 := if outcome.isSuccess then 0 else 1
  match outcome.result with
  | .error (.compile _) => if r.fancy then ⟨status, ""⟩ else ⟨status, outcome.text ++ "\n"⟩
  | _ => ⟨status, outcome.text ++ "\n"⟩

/-- Runs a program from its bytes; without readable bytes there is nothing to run. -/
def respond (r : Request) (bytes : Option ByteArray) : Response :=
  match bytes.bind String.fromUTF8? with
  | some text => r.answer text
  | none => .refusal

end Request

end CallByNeed
