import Lr35902.File.System
import Lr35902.NameMap
import Lr35902.Token.Scan

/-!
Inclusion: where included files are looked for, and how their texts are read. A caller may supply
the texts itself; the files have to exist all the same.
-/
namespace Lr35902

/-- A supplied text, or the failure to be met in its place: one of the operating system, with its
number and reason, or any other. -/
inductive Supply where
  | text (text : List CodePoint)
  | systemFailure (number : Nat) (reason : String)
  | failure (message : String)
  deriving DecidableEq

/-- Where included files come from. -/
structure Surroundings where
  files : FileSystem
  includePaths : List Path
  supplies : Option (NameMap Supply)

/-- Why an included file has no text: reading it failed, or no text was supplied for it. -/
inductive TextFault where
  | unreadable (reason : String)
  | notSupplied
  deriving DecidableEq

/-- The end of a search for a file: it was found at a place, it is in none of the directories
searched, or a path could not be looked for. -/
inductive Search where
  | found (path : Path) (spot : Spot)
  | absent (searched : List String)
  | failed (error : FileError)
  deriving DecidableEq

namespace Supply

/-- The supplied text. A failure of the operating system is told by its reason, or with its number
if it has none. -/
def read : Supply → Except TextFault (List CodePoint)
  | .text content => .ok content
  | .systemFailure number reason =>
    .error (.unreadable
      (if reason.isEmpty then "[Errno " ++ Text.decimalNat number ++ "] " ++ reason else reason))
  | .failure message => .error (.unreadable message)

/-- The length of the supplied text. -/
def length : Supply → Nat
  | .text content => content.length
  | _ => 0

end Supply

/-- Why the text of a file is missing, in few words. -/
def ReadError.reason : ReadError → String
  | .file error => error.fault.reason
  | .encoding fault => fault.message

namespace Surroundings

/-- The paths that a file name may stand for: from the working directory, from the directory of the
including file, and from each include path. Text that came from no file has no directory. -/
def candidates (surroundings : Surroundings) (includer name : String) : List Path :=
  let path := Path.ofString name
  let beside :=
    if includer = Location.input then [] else [(Path.ofString includer).parent.join path]
  path :: (beside ++ surroundings.includePaths.map fun directory => directory.join path)

/-- The first of some paths that leads to a file, and the place of that file. -/
def firstFile (files : FileSystem) : List Path → Except FileError (Option (Path × Spot))
  | [] => .ok none
  | path :: rest =>
    match files.fileSpot? path with
    | .error error => .error error
    | .ok (some spot) => .ok (some (path, spot))
    | .ok none => firstFile files rest

/-- The first candidate that is a file, or the directories in which there was none. -/
def find (surroundings : Surroundings) (includer name : String) : Search :=
  let candidates := surroundings.candidates includer name
  match firstFile surroundings.files candidates with
  | .error error => .failed error
  | .ok (some (path, spot)) => .found path spot
  | .ok none => .absent (candidates.map fun path => path.parent.text).eraseDups

/-- The text of a file. -/
def readText (surroundings : Surroundings) (path : Path) : Except TextFault (List CodePoint) :=
  match surroundings.supplies with
  | some supplies =>
    match supplies.find? path.text with
    | some supply => supply.read
    | none => .error .notSupplied
  | none =>
    match surroundings.files.readText path with
    | .ok text => .ok (text.map .char)
    | .error error => .error (.unreadable error.reason)

/-- No text is longer than this. -/
def longestText (surroundings : Surroundings) : Nat :=
  let files := surroundings.files.files.map fun file => file.2.length
  let supplies := ((surroundings.supplies.getD .empty).entries).map fun entry => entry.2.length
  (files ++ supplies).foldl max 0

/-- How many files could be open at once. -/
def fileCount (surroundings : Surroundings) : Nat := surroundings.files.files.length

end Surroundings
end Lr35902
