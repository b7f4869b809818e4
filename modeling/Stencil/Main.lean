/-
THE COMMAND LINE: an input folder, an output folder, and the options of a batch. The files of the input folder are
read, the batch is run on their texts, and what comes of it is written and told.
-/
import Stencil.Batch.Run

namespace Stencil.Batch

/-- the version that is told -/
def version : String := "1.0.0"

/-- how the command is used -/
def usage : String :=
  "usage: stencil INPUT OUTPUT [--pattern PATTERN] [--dataFile FILE] [--catalogFile FILE] [--mappingsFile FILE] " ++
  "[--strict] [-v] [-V] [-h]"

/-- a text as a string -/
def string (t : Text) : String := String.ofList t

/-- the files of a folder that hold text, with their paths in it -/
def readFolder (name : String) : IO Folder := do
  let root ← IO.FS.realPath name
  let depth := root.components.length
  let mut files : Files := []
  for path in ← root.walkDir do
    if !(← path.isDir) then
      match String.fromUTF8? (← IO.FS.readBinFile path) with
      | some s => files := (((path.components.drop depth).map String.toList), s.toList) :: files
      | none => pure ()
  return .ofFiles files

/-- the files of a folder written -/
def writeFolder (name : String) (files : Files) : IO Unit := do
  IO.FS.createDirAll name
  for f in files do
    let folder := string (Path.inside name.toList f.1.dropLast)
    IO.FS.createDirAll folder
    IO.FS.writeFile (string (Path.inside name.toList f.1)) (string f.2)

/-- a record as a line -/
def recordLine (r : Record) : String :=
  string (Text.cat [levelName r.message.level, " | ", r.template.getD noTemplate, " | ", r.message.text])

/-- a batch on folders -/
def runFolders (o : Options) (input output : String) : IO UInt32 := do
  let outcome := run o input.toList output.toList (← readFolder input)
  for r in outcome.records do IO.eprintln (recordLine r)
  IO.eprint (string outcome.errors)
  if !outcome.files.isEmpty then writeFolder output outcome.files
  match outcome.stop with
  | some _ => IO.eprintln "Error: the batch was stopped"; return 1
  | none => return UInt32.ofNat outcome.exit

/-- the command -/
def command (arguments : List String) : IO UInt32 := do
  match request ((arguments.drop 2).map String.toList), arguments with
  | .help, _ => IO.println usage; return 0
  | .version, _ => IO.println version; return 0
  | .run o, input :: output :: _ => runFolders o input output
  | _, _ => IO.eprintln usage; return 2

end Stencil.Batch

def main (arguments : List String) : IO UInt32 := Stencil.Batch.command arguments
