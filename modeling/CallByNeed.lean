import CallByNeed.Command.Arguments
import CallByNeed.Command.Response
import CallByNeed.Diagnostic.Snippet
import CallByNeed.Grade
import CallByNeed.Main
import CallByNeed.Proofs.Reference
import CallByNeed.Proofs.Binding
import CallByNeed.Proofs.Nameless
import CallByNeed.Proofs.Heap.Graph
import CallByNeed.Proofs.Machine.Acyclic
import CallByNeed.Proofs.Machine.Memo
import CallByNeed.Proofs.Machine.Scope
import CallByNeed.Proofs.Machine.Saturation
import CallByNeed.Proofs.Machine.Limits
import CallByNeed.Proofs.ByName.Tree
import CallByNeed.Proofs.ByName.Unfolding
import CallByNeed.Proofs.ByName.Agreement
import CallByNeed.Proofs.ByName.Encoding
import CallByNeed.Proofs.Parser.RoundTrip
import CallByNeed.Proofs.Parser.Standard
import CallByNeed.Proofs.Parser.Language
import CallByNeed.Proofs.Parser.Brackets
import CallByNeed.Proofs.Bytewise.Reader
import CallByNeed.Proofs.Bytewise.Agreement
import CallByNeed.Proofs.Parser.Spots
import CallByNeed.Proofs.Diagnosis
import CallByNeed.Proofs.Checking
import CallByNeed.Proofs.Injection
import CallByNeed.Proofs.Machine.Twins
import CallByNeed.Proofs.Machine.Lockstep
import CallByNeed.Proofs.ByName.Lists
import CallByNeed.Proofs.Machine.Silence
import CallByNeed.Proofs.LazyLists
import CallByNeed.Proofs.Parser.Spacing
import CallByNeed.Proofs.Parser.Isolation
import CallByNeed.Proofs.Parser.Threshold
import CallByNeed.Proofs.Parser.Anchors
import CallByNeed.Proofs.Bytewise.Blanking
import CallByNeed.Proofs.Parser.Strings
import CallByNeed.Proofs.Machine.Arithmetic
import CallByNeed.Proofs.Grading
import CallByNeed.Proofs.LineColumn
import CallByNeed.Proofs.Backtracking.Progress
