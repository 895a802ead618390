import ImportSuffix.CommandLine.Invoke
import ImportSuffix.Volume.Edit

/-!
# The program

The program works on a picture of the files. Everything below the root of the call is read into a
volume, the call is made on the volume, and the files whose content it changed are written back.
Links are put into the picture with the place that they lead to in the end.
-/

namespace ImportSuffix.Main

open Text (Bytes)

/-- A picture of the files: the volume, and the paths of the files in it. -/
structure Picture where
  volume : Volume
  files : List String

/-- A path that leads nowhere in a picture. -/
def nowhere : Bytes := Text.bytesOf "/nowhere/at/all"

/-- The picture with the file at a path. A file that cannot be opened for writing is closed to
writing. -/
def addFile (p : Picture) (path : String) : IO Picture := do
  let content ← IO.FS.readBinFile path
  let writable ← try
      let _ ← IO.FS.Handle.mk path .append
      pure true
    catch _ => pure false
  let volume :=
    if writable then p.volume.putFile (Text.bytesOf path) content
    else p.volume.putSealed (Text.bytesOf path) content
  return ⟨volume, path :: p.files⟩

/-- The picture with the link at a path and what it leads to, if that is a file or a directory. -/
def addLink (p : Picture) (path : String) : IO Picture := do
  let linked (target : Bytes) : Picture :=
    { p with volume := p.volume.putLink (Text.bytesOf path) target }
  try
    let _ ← IO.FS.Handle.mk path .read
    let target ← IO.FS.realPath path
    match (← target.metadata).type with
    | .dir =>
      let p := linked (Text.bytesOf target.toString)
      return { p with volume := p.volume.putDir (Text.bytesOf target.toString) }
    | .file =>
      let p := linked (Text.bytesOf target.toString)
      if p.files.contains target.toString then return p else addFile p target.toString
    | _ => return linked nowhere
  catch
    | .noFileOrDirectory .. => return linked nowhere
    | _ => return linked (Text.bytesOf path)

/-- The picture with everything below a directory. -/
partial def addTree (p : Picture) (path : String) : IO Picture := do
  let mut p := { p with volume := p.volume.putDir (Text.bytesOf path) }
  for entry in ← (← IO.FS.realPath path).readDir do
    let entryPath := path ++ "/" ++ entry.fileName
    match (← entry.path.symlinkMetadata).type with
    | .dir => p ← addTree p entryPath
    | .symlink => p ← addLink p entryPath
    | .file => p ← if p.files.contains entryPath then pure p else addFile p entryPath
    | .other => pure ()
  return p

/-- The picture of what lies below the root of a configuration. -/
def picture (root : String) : IO Picture := do
  let cwd := (← IO.currentDir).toString
  let start := (Volume.empty.putDir (Text.bytesOf cwd)).enter (Text.bytesOf cwd)
  let p : Picture := ⟨start, []⟩
  try
    let target ← IO.FS.realPath root
    match (← target.metadata).type with
    | .dir =>
      let p ← addTree p target.toString
      let volume := p.volume.makeParents (Text.bytesOf root)
      if volume.contains (Text.bytesOf root) then return { p with volume := volume }
      else return { p with
        volume := volume.putLink (Text.bytesOf root) (Text.bytesOf target.toString) }
    | _ => addFile p target.toString
  catch _ => return p

/-- Writes back the files whose content is another one in the volume than on the disk. -/
def writeBack (files : List String) (before after : Volume) : IO Unit :=
  for path in files do
    match before.read (Text.bytesOf path), after.read (Text.bytesOf path) with
    | .ok old, .ok new => if old.data != new.data then IO.FS.writeBinFile path new
    | _, _ => pure ()

/-- Writes the answer and says what became of it. -/
def answer (text : String) : IO Sink := do
  try
    let out ← IO.getStdout
    out.putStr text
    out.flush
    return .taken
  catch
    | .resourceVanished .. => return .closed
    | _ => return .full

end ImportSuffix.Main

open ImportSuffix in
/-- Calls the program with the arguments of the process. -/
def main (args : List String) : IO UInt32 := do
  let args := args.map Text.bytesOf
  let root? := match Request.read? args with
    | some (.fix path) => match Config.ofPath path with
      | .ok c => Text.decode? c.root
      | .error _ => none
    | _ => none
  let p ← match root? with
    | some root => Main.picture root
    | none => pure ⟨.empty, []⟩
  let result := p.volume.call .taken args
  Main.writeBack p.files p.volume result.volume
  if ← (← IO.getStderr).isTty then IO.eprint (Request.unlines result.status)
  let sink ← Main.answer result.output
  return (p.volume.call sink args).exitCode.toUInt32
