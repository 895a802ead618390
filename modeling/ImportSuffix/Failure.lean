import ImportSuffix.Json.Basic

/-!
# Failures

A failure that a caller hears about has a code, which does not change, a title for people, details
as a JSON value, and hints at what to do instead. The details of the four kinds of failure that the
program itself raises have fixed members. When they name an error, the message of the failure is
its title and that error.
-/

namespace ImportSuffix

/-- The codes of failures. -/
inductive FailureCode
  /-- An argument that cannot be used. -/
  | invalidArgument
  /-- A file that was read but is not text. -/
  | invalidEncoding
  /-- A failure of the file system or of an output. -/
  | io
  /-- A value that cannot be written as JSON. -/
  | json
  deriving Repr, DecidableEq

/-- The written form of a code: what it belongs to, a point, and what went wrong. -/
def FailureCode.text : FailureCode → String
  | invalidArgument => "validation.invalid_argument"
  | invalidEncoding => "file.invalid_encoding"
  | io => "internal.io_error"
  | json => "internal.json_error"

/-- A failure with all that is told about it. -/
structure Failure where
  code : FailureCode
  title : String
  details : Json
  hints : List String
  deriving Repr

namespace Failure

/-- The member that says in which step an error happened, if a step is given. -/
def contextMember : Option String → List (String × Json)
  | some context => [("context", .str context)]
  | none => []

/-- An argument has a value that cannot be used. -/
def invalidArgument (field problem : String) : Failure :=
  ⟨.invalidArgument, "Invalid argument",
    .obj [("field", .str field), ("problem", .str problem)], []⟩

/-- The bytes of a file are not the encoding of a text. -/
def invalidEncoding (path error : String) : Failure :=
  ⟨.invalidEncoding, "File is not valid UTF-8",
    .obj [("error", .str error), ("path", .str path)], []⟩

/-- An operation on a file or an output failed. -/
def io (error : String) (context : Option String) : Failure :=
  ⟨.io, "IO error", .obj (contextMember context ++ [("error", .str error)]), []⟩

/-- A value could not be written as JSON. -/
def json (error : String) (context : Option String) : Failure :=
  ⟨.json, "JSON error", .obj (contextMember context ++ [("error", .str error)]), []⟩

/-- The failure with one more hint after the others. -/
def withHint (f : Failure) (hint : String) : Failure :=
  { f with hints := f.hints ++ [hint] }

/-- The error that the details name, if they name one. -/
def cause? (f : Failure) : Option String :=
  (f.details.get? "error").bind Json.str?

/-- The one-line message of a failure: its title, and after a colon the error that its details
name. -/
def message (f : Failure) : String :=
  match f.cause? with
  | some cause => f.title ++ ": " ++ cause
  | none => f.title

@[simp] theorem message_io (error : String) (context : Option String) :
    (io error context).message = "IO error: " ++ error := by
  cases context <;> rfl

@[simp] theorem message_invalidEncoding (path error : String) :
    (invalidEncoding path error).message = "File is not valid UTF-8: " ++ error := rfl

@[simp] theorem message_invalidArgument (field problem : String) :
    (invalidArgument field problem).message = "Invalid argument" := rfl

end Failure

end ImportSuffix
