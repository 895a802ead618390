import ImportSuffix.Failure
import ImportSuffix.Json.Printer

/-!
# The answer on standard output

Every command answers with one JSON object, the envelope: whether it succeeded, and either its data
or its failure. A `Reply` is an envelope with the exit code that belongs to it. Failures choose the
exit code by their code; data that cannot be written as JSON is a failure itself.
-/

namespace ImportSuffix

/-- The answer of a command. -/
inductive Envelope
  | success (data : Json)
  | failure (f : Failure)
  deriving Repr

namespace Envelope

/-- The hints of a failure as a member, which is left out when there are none. -/
def hintsMember : List String → List (String × Json)
  | [] => []
  | hints => [("hints", .arr (hints.map fun hint => .obj [("message", .str hint)]))]

/-- The envelope as a JSON value, with its members in the order in which they are written. -/
def toJson : Envelope → Json
  | success data => .obj [("success", .bool true), ("data", data)]
  | failure f =>
    .obj [("success", .bool false),
      ("error", .obj ([("code", .str f.code.text), ("message", .str f.title),
        ("details", f.details)] ++ hintsMember f.hints))]

/-- The text of an envelope. -/
def text (e : Envelope) : String := e.toJson.print

end Envelope

/-- The exit code that a failure gives: two if the caller is to blame, else one. -/
def FailureCode.exitCode : FailureCode → Int
  | .invalidArgument => 2
  | .invalidEncoding | .io | .json => 1

/-- An envelope with the exit code that belongs to it. -/
structure Reply where
  envelope : Envelope
  exitCode : Int
  deriving Repr

namespace Reply

/-- The step in which writing an answer fails. -/
def serializeStep : String := "serialize response"

/-- The reply of a command that failed. -/
def ofFailure (f : Failure) : Reply :=
  ⟨.failure f, f.code.exitCode⟩

/-- The reply of a command that succeeded with some data, which may turn out not to have a JSON
form. Written to a reply, the data have their keys in ascending order. -/
def ofData (data : Except String Json) (exitCode : Int) : Reply :=
  match data with
  | .ok data => ⟨.success data.canonical, exitCode⟩
  | .error cause => ofFailure (.json cause (some serializeStep))

end Reply

/-- The text of an envelope around data that is written as it is, without the detour through a map
from keys to values. -/
def Envelope.textOfData (data : Except String Json) : Except Failure String :=
  match data with
  | .ok data => .ok (success data).text
  | .error cause => .error (.json cause (some Reply.serializeStep))

end ImportSuffix
