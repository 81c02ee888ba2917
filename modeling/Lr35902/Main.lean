import Lr35902.CommandLine.Arguments

/-!
The executable. The first argument names the tool; the tool works on a picture of the files below
the working directory and around the paths that the other arguments name, and what it changed is
written back.
-/
namespace Lr35902
namespace Executable

/-- The place at which a path ends when all links on the way are followed, if there is one. -/
def realSpot? (path : String) : IO (Option Spot) := do
  try return some ⟨(Path.ofString (← IO.FS.realPath path).toString).parts⟩
  catch _ => return none

/-- Whether there is a directory at a place. -/
def isDirectory (spot : Spot) : IO Bool := do
  try (← IO.FS.realPath spot.path.text).isDir catch _ => return false

/-- Adds what stands at a place, unless that is known already. -/
def addEntry (files : FileSystem) (spot : Spot) (entry : Entry) : FileSystem :=
  if (files.entryAt? spot).isSome then files
  else { files with entries := files.entries ++ [(spot, entry)] }

/-- Adds the directories on the way to a place, and the one there. -/
def addDirectories (files : FileSystem) (spot : Spot) : FileSystem :=
  (spot.names.foldl (fun (files, place) name =>
    (addEntry files (Spot.child place name) .directory, place.child name)) (files, Spot.root)).1

/-- Reads the files below the directory at a place, at most `depth` directories deep. -/
def load (depth : Nat) (spot : Spot) (files : FileSystem) : IO FileSystem := do
  match depth with
  | 0 => return files
  | depth + 1 =>
    let mut files := files
    for entry in ← (← IO.FS.realPath spot.path.text).readDir do
      let inner := spot.child entry.fileName
      match ← realSpot? inner.path.text with
      | none => pure ()
      | some real =>
        if real ≠ inner then
          files := addEntry files inner (.link real.path)
        else if ← isDirectory inner then
          files ← load depth inner (addEntry files inner .directory)
        else
          let data ← IO.FS.readBinFile inner.path.text
          files := addEntry files inner (.file files.newNumber data.toList)
    return files

/-- The path that a word of the command line may hold: the word itself, the value of a letter, or
the value of a long option. -/
def pathIn (word : String) : Path :=
  let attached :=
    match word.toList with
    | '-' :: '-' :: rest => (rest.dropWhile (· != '=')).drop 1
    | '-' :: _ :: rest => rest
    | whole => whole
  Path.ofString (String.ofList attached)

/-- Reads what a path leads to outside the working directory: a directory and what is in it, or the
directory of a file. -/
def loadOutside (files : FileSystem) (path : Path) : IO FileSystem := do
  for place in [path, path.parent] do
    if let some spot ← realSpot? place.text then
      if ← isDirectory spot then
        if files.here.leadsTo spot then return files
        return ← load 2 spot (addDirectories files spot)
  return files

/-- The data of the file at a place. -/
def dataAt? (files : FileSystem) (spot : Spot) : Option Bytes :=
  match files.entryAt? spot with
  | some (.file _ data) => some data
  | _ => none

/-- Writes back the files that are new or differ, and removes what is gone. -/
def save (before after : FileSystem) : IO Unit := do
  for (spot, data) in after.files do
    if dataAt? before spot != some data then
      IO.FS.writeBinFile spot.path.text ⟨data.toArray⟩
  for (spot, _) in before.entries do
    if (after.entryAt? spot).isNone then
      IO.FS.removeFile spot.path.text

/-- The report of the tool that the first argument names. -/
def report (files : FileSystem) : List String → Report
  | "gbasm" :: arguments => AssembleCommand.run files arguments
  | "gbobj" :: arguments => InspectCommand.run files arguments
  | _ => ⟨2, "", "usage: (gbasm | gbobj) [ARGUMENTS]\n", files⟩

end Executable
end Lr35902

/-- Runs a tool on the working directory. -/
def main (arguments : List String) : IO UInt32 := do
  let here := (← Lr35902.Executable.realSpot? ".").getD .root
  let below ← Lr35902.Executable.load 16 here ⟨here, []⟩
  let files ← (arguments.map Lr35902.Executable.pathIn).foldlM
    Lr35902.Executable.loadOutside below
  let report := Lr35902.Executable.report files arguments
  Lr35902.Executable.save files report.files
  IO.print report.out
  IO.eprint report.err
  return report.exitCode.toUInt32
