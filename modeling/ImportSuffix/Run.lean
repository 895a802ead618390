import ImportSuffix.Discovery
import ImportSuffix.Fix

/-!
# A run

A run discovers the files of a configuration and fixes them one after the other. A failure of one
file is written into the report and does not end the run; a root that does not exist is reported
too. Besides the report a run gives the lines that it logs and the volume as it leaves it.
-/

namespace ImportSuffix

open Text (Bytes)

/-- The failure of one file, as it is reported. -/
structure FileError where
  file : String
  code : FailureCode
  message : String
  deriving Repr, DecidableEq

/-- What a run reports. Paths are told as they would be shown. -/
structure Report where
  root : String
  rootFound : Bool
  message : String
  filesFound : Nat
  filesFixed : Nat
  fixed : List String
  errors : List FileError
  deriving Repr, DecidableEq

namespace Report

/-- The failure of a file as a JSON value. -/
def errorJson (e : FileError) : Json :=
  .obj [("file", .str e.file), ("code", .str e.code.text), ("message", .str e.message)]

/-- The members of a report as a JSON value. -/
def members (r : Report) : List (String × Json) :=
  [("root", .str r.root), ("root_found", .bool r.rootFound), ("message", .str r.message),
    ("files_found", .num r.filesFound), ("files_fixed", .num r.filesFixed),
    ("fixed", .strings r.fixed), ("errors", .arr (r.errors.map errorJson))]

end Report

/-- How far a run has come: the volume as it is, the files that were fixed and those that failed,
and the lines that were logged, all in order. -/
structure Progress where
  volume : Volume
  fixed : List String
  errors : List FileError
  log : List String

namespace Progress

/-- The mark at the beginning of every line that is logged. -/
def logMark : String := "[fix] "

/-- Fixes one more file. -/
def step (rules : List Rule) (p : Progress) (path : Bytes) : Progress :=
  let file := Text.display path
  match p.volume.fixFile rules path with
  | (.ok false, v) => { p with volume := v }
  | (.ok true, v) =>
    { p with
      volume := v
      fixed := p.fixed ++ [file]
      log := p.log ++ [logMark ++ "Fixed imports in: " ++ file] }
  | (.error f, v) =>
    { p with
      volume := v
      errors := p.errors ++ [⟨file, f.code, f.message⟩]
      log := p.log ++ [logMark ++ "Error processing " ++ file ++ ": " ++ f.message] }

end Progress

/-- What a run gives: its report, the lines that it logs and the volume after it. -/
structure RunResult where
  report : Report
  log : List String
  volume : Volume

namespace Volume

/-- The message of a run whose root does not exist. -/
def missingMessage (root : String) : String := "Project root not found: " ++ root

/-- The message of a run that found and fixed so many files. -/
def doneMessage (found fixed : Nat) : String :=
  "Found " ++ toString found ++ " files, fixed imports in " ++ toString fixed ++ " files"

/-- Fixes all files of a configuration. -/
def run (v : Volume) (c : Config) (rules : List Rule) : RunResult :=
  let root := Text.display c.root
  if !v.contains c.root then
    let message := missingMessage root
    ⟨⟨root, false, message, 0, 0, [], []⟩, [Progress.logMark ++ message], v⟩
  else
    let files := v.discover c
    let found := Progress.logMark ++ "Found " ++ toString files.length ++ " files matching " ++
      ", ".intercalate c.patterns
    let p := files.foldl (Progress.step rules) ⟨v, [], [], [found]⟩
    let message := doneMessage files.length p.fixed.length
    ⟨⟨root, true, message, files.length, p.fixed.length, p.fixed, p.errors⟩,
      p.log ++ [Progress.logMark ++ message], p.volume⟩

end Volume

end ImportSuffix
