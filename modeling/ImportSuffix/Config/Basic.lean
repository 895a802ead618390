import ImportSuffix.Json.Basic
import ImportSuffix.Text.Utf8

/-!
# Configuration

What a run works on: the root directory and the patterns that the names of files have to match.
Both have a default. A root is a path, hence a byte string; as JSON it can be written only if it is
the encoding of a text.
-/

namespace ImportSuffix

/-- The root directory and the file name patterns of a run. -/
structure Config where
  root : Text.Bytes
  patterns : List String
  deriving Repr, DecidableEq

namespace Config

/-- The root that is scanned when none is given. -/
def defaultRoot : String := "/home/ty/Repositories/ai_workspace/esaf-framework/src"

/-- The patterns for TypeScript files. -/
def defaultPatterns : List String := ["*.ts", "*.tsx"]

/-- The default patterns below a root. -/
def withRoot (root : Text.Bytes) : Config := ⟨root, defaultPatterns⟩

/-- The default patterns below the default root. -/
def default : Config := withRoot (Text.bytesOf defaultRoot)

/-- Why a path cannot be written as JSON. -/
def unwritableRoot : String := "path contains invalid UTF-8 characters"

/-- The configuration as a JSON value, root first. -/
def toJson (c : Config) : Except String Json :=
  match Text.decode? c.root with
  | some root => .ok (.obj [("root", .str root), ("patterns", .strings c.patterns)])
  | none => .error unwritableRoot

end Config

end ImportSuffix
