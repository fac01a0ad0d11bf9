/-
  File:      CallByNeed/Main.lean
  Subject:   The command: reads the program, prints the response, exits.
-/
import CallByNeed.Command.Response
import CallByNeed.Diagnostic.Snippet

namespace CallByNeed

/-- The bytes of a file, if it can be read. -/
def readFile? (name : String) : IO (Option ByteArray) := do
  try
    return some (← IO.FS.readBinFile name)
  catch _ =>
    return none

/-- The bytes that a request's program consists of. -/
def Request.bytes (r : Request) : IO (Option ByteArray) := do
  match r.input with
  | .expression text => return some text.toUTF8
  | .file name => readFile? name
  | .standardInput => return some (← (← IO.getStdin).readBinToEnd)

/-- The drawing of a compile fault, for the standard error of a run that asks for it. -/
def Request.drawing? (r : Request) (text : String) : Option String :=
  match compile ⟨r.input.sourceName, text⟩ r.options with
  | .error fault => if r.fancy then some (fault.render true) else none
  | .ok _ => none

/-- Carries out a plan. -/
def Plan.carryOut : Plan → IO Response
  | .settled response => return response
  | .request r => do
    let bytes ← r.bytes
    if let some drawing := (bytes.bind String.fromUTF8?).bind r.drawing? then
      (← IO.getStderr).putStr drawing
    return r.respond bytes

end CallByNeed

def main (args : List String) : IO UInt32 := do
  let response ← (CallByNeed.plan args).carryOut
  (← IO.getStdout).putStr response.output
  return response.exitCode
