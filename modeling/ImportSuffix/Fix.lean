import ImportSuffix.Failure
import ImportSuffix.Rule.Basic
import ImportSuffix.Volume.Access

/-!
# Fixing one file

A file is read as text, the rules are applied, and only if the text has changed is it written back.
Each operation gives its result together with the volume after it.
-/

namespace ImportSuffix

open Text (Bytes)

/-- Why bytes are no text. -/
def notText : String := "stream did not contain valid UTF-8"

namespace Volume

/-- The text of the file at a path. `operation` is told in the failure if the file cannot be read;
that its bytes are no text is a failure of its own. -/
def readText (v : Volume) (path : Bytes) (operation : String) : Except Failure String :=
  match v.read path with
  | .error cause => .error (.io cause.text (some operation))
  | .ok content =>
    match String.fromUTF8? content with
    | some text => .ok text
    | none => .error (.invalidEncoding (Text.display path) notText)

/-- Writes a text to the file at a path. `operation` is told in the failure. -/
def writeText (v : Volume) (path : Bytes) (text : String) (operation : String) :
    Except Failure Unit × Volume :=
  match v.write path text.toUTF8 with
  | (.ok (), v) => (.ok (), v)
  | (.error cause, v) => (.error (.io cause.text (some operation)), v)

/-- Applies the rules to the file at a path, and says whether that changed it. A file that does not
change is not written. -/
def fixFile (v : Volume) (rules : List Rule) (path : Bytes) : Except Failure Bool × Volume :=
  match v.readText path ("read " ++ Text.display path) with
  | .error f => (.error f, v)
  | .ok text =>
    let fixed := applyRules rules text
    if fixed = text then (.ok false, v)
    else match v.writeText path fixed ("write " ++ Text.display path) with
      | (.ok (), v) => (.ok true, v)
      | (.error f, v) => (.error f, v)

end Volume

end ImportSuffix
