import ImportSuffix.CommandLine.Request
import ImportSuffix.Envelope
import ImportSuffix.Rule.Suffix
import ImportSuffix.Run
import ImportSuffix.Text.Blank

/-!
# Calls of the program

A call reads its arguments, does what they ask for and answers on standard output. What it does to
the files does not depend on whether the answer can be written; the exit code does: a full output is
a failure of its own, while an output that nobody reads any more is none.

Usage errors and explanations are not answers in this sense: they have no envelope, and whether they
can be written does not matter.
-/

namespace ImportSuffix

open Text (Bytes)

/-- What becomes of the text written to standard output. -/
inductive Sink
  /-- It is taken. -/
  | taken
  /-- There is no room for it. -/
  | full
  /-- Nobody reads it. -/
  | closed
  deriving Repr, DecidableEq

/-- What a call leaves behind: the exit code, the text on standard output, the lines of status that
are shown on a terminal, and the volume. -/
structure CallResult where
  exitCode : Nat
  output : String
  status : List String
  volume : Volume

/-- The exit code of a process for a code of any size: from zero to 255. -/
def processCode (code : Int) : Nat := min code.toNat 255

/-- The failure of a call with a path that is blank. -/
def blankPath : Failure :=
  (Failure.invalidArgument "path" "Path must not be empty").withHint
    "Omit --path to use the default root"

/-- The configuration for a path, which must not be blank. -/
def Config.ofPath : Option String → Except Failure Config
  | none => .ok .default
  | some path =>
    if Text.isBlankText path then .error blankPath else .ok (.withRoot (Text.bytesOf path))

/-- The data with which the command that fixes files answers. -/
def fixData (c : Config) (r : Report) : Json :=
  .obj ([("command", .str "fix"), ("patterns", .strings c.patterns)] ++ r.members)

namespace Volume

/-- The reply of the command that fixes files, the lines that it logs and the volume after it. -/
def fixCommand (v : Volume) (path : Option String) : Reply × List String × Volume :=
  match Config.ofPath path with
  | .error f => (.ofFailure f, [], v)
  | .ok c =>
    let r := v.run c Rule.suffixRules
    (.ofData (.ok (fixData c r.report)) 0, r.log, r.volume)

/-- The line of status with which the program begins its work. -/
def banner : String := "importfix is working..."

end Volume

namespace Sink

/-- The text that arrives at the other end. -/
def received (sink : Sink) (text : String) : String :=
  match sink with
  | taken => text
  | full | closed => ""

/-- The exit code of a call after its answer has been written, or not. -/
def exitCode (sink : Sink) (code : Nat) : Nat :=
  match sink with
  | taken | closed => code
  | full => 1

end Sink

namespace Volume

/-- Calls the program on a volume. -/
def call (v : Volume) (sink : Sink) (args : List Bytes) : CallResult :=
  match Request.read? args with
  | none => ⟨2, "", [], v⟩
  | some .version => ⟨0, sink.received Request.versionText, [], v⟩
  | some (.explain topic) => ⟨0, sink.received (Request.helpText topic), [], v⟩
  | some (.fix path) =>
    let (reply, log, v) := v.fixCommand path
    ⟨sink.exitCode (processCode reply.exitCode), sink.received (reply.envelope.text ++ "\n"),
      banner :: log, v⟩

end Volume

end ImportSuffix
