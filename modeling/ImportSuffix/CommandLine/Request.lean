import ImportSuffix.Text.Utf8

/-!
# The command line

What the arguments of a call ask for: to fix the files below a directory, to explain the program or
its command, or to tell the version. Everything else is a usage error.

Arguments are read from left to right, and the first one that asks for an explanation or is in error
decides. An option takes the next argument as its value unless that begins with a hyphen and has
more to it; a value after an equals sign may be anything.
-/

namespace ImportSuffix

open Text (Bytes)

/-- What can be explained. -/
inductive HelpTopic
  /-- The program. -/
  | program
  /-- The command that fixes files. -/
  | fix
  /-- The command that explains. -/
  | help
  deriving Repr, DecidableEq

/-- What the arguments of a call ask for. -/
inductive Request
  /-- To fix the files below a directory, or below the default one. -/
  | fix (path : Option String)
  /-- To explain something. -/
  | explain (topic : HelpTopic)
  /-- To tell the version. -/
  | version
  deriving Repr, DecidableEq

namespace Request

/-- The name under which the program is called. -/
def programName : String := "importfix"

/-- The version of the program. -/
def versionText : String := programName ++ " 0.1.0\n"

/-- What the command that fixes files does. -/
def fixSummary : String := "Rewrite `.js`-suffixed import paths in place"

/-- What the command that explains does. -/
def helpSummary : String := "Print this message or the help of the given subcommand(s)"

/-- Lines as a text. -/
def unlines (lines : List String) : String :=
  String.join (lines.map (· ++ "\n"))

/-- The explanation of a topic. -/
def helpText : HelpTopic → String
  | .program => unlines [
      "Strip .js extensions from TypeScript import paths",
      "",
      "Usage: importfix <COMMAND>",
      "",
      "Commands:",
      "  fix   " ++ fixSummary,
      "  help  " ++ helpSummary,
      "",
      "Options:",
      "  -h, --help     Print help",
      "  -V, --version  Print version"]
  | .fix => unlines [
      fixSummary,
      "",
      "Usage: importfix fix [OPTIONS]",
      "",
      "Options:",
      "      --path <PATH>  Directory to scan (defaults to the built-in project root)",
      "  -h, --help         Print help"]
  | .help => unlines [
      helpSummary,
      "",
      "Usage: importfix help [COMMAND]...",
      "",
      "Arguments:",
      "  [COMMAND]...  Print help for the subcommand(s)"]

/-! ### Reading arguments -/

/-- Whether an argument is this word. -/
def isWord (arg : Bytes) (word : String) : Bool := arg == Text.bytesOf word

/-- Whether an argument is a group of short options of which this letter is the first. -/
def beginsShort (arg : Bytes) (letter : Char) : Bool :=
  (Text.bytesOf (String.ofList ['-', letter])).isPrefixOf arg

/-- The option of the command that fixes files. -/
def pathOption : String := "--path"

/-- The value that stands after an equals sign in an argument for the path. -/
def attachedPath? (arg : Bytes) : Option Bytes :=
  let start := Text.bytesOf (pathOption ++ "=")
  if start.isPrefixOf arg then some (arg.drop start.length) else none

/-- Whether an argument cannot be taken for the value of the option before it. -/
def looksLikeOption (arg : Bytes) : Bool :=
  arg.head? == some 0x2D && 1 < arg.length

/-- The request to fix files below a path, which is given for the first time and has to be a
text. -/
def settle? (path : Option String) (value : Bytes) : Option String :=
  if path.isSome then none else Text.decode? value

/-- Reads the arguments of the command that fixes files, given the path so far. -/
def readFix : Option String → List Bytes → Option Request
  | path, [] => some (.fix path)
  | path, arg :: rest =>
    if isWord arg "--" then
      if rest.isEmpty then some (.fix path) else none
    else if isWord arg "--help" || beginsShort arg 'h' then some (.explain .fix)
    else if isWord arg pathOption then
      match rest with
      | [] => none
      | value :: rest =>
        if looksLikeOption value then none
        else match settle? path value with
          | some path => readFix (some path) rest
          | none => none
    else match attachedPath? arg with
      | none => none
      | some value =>
        match settle? path value with
        | some path => readFix (some path) rest
        | none => none

/-- Reads the arguments of the command that explains. -/
def readHelp : List Bytes → Option Request
  | [] => some (.explain .program)
  | [topic] =>
    if isWord topic "fix" then some (.explain .fix)
    else if isWord topic "help" then some (.explain .help)
    else none
  | _ => none

/-- What the arguments of a call ask for; nothing if they are in error. -/
def read? : List Bytes → Option Request
  | [] => none
  | arg :: rest =>
    if isWord arg "fix" then readFix none rest
    else if isWord arg "help" then readHelp rest
    else if isWord arg "--help" || beginsShort arg 'h' then some (.explain .program)
    else if isWord arg "--version" || beginsShort arg 'V' then some .version
    else none

end Request

end ImportSuffix
