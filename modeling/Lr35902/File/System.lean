import Lr35902.File.Spot
import Lr35902.Text.Lines
import Lr35902.Text.Utf8

/-!
A file system and its working directory: which files exist, what they hold, and what reading,
writing and removing does. One file can stand at several places, and a link stands for another path,
so several paths can lead to one file. Names and paths have a longest length, and a path cannot lead
through any number of links.
-/
namespace Lr35902

/-- What stands at a place: a file, a directory, or a link. Files are told apart by numbers; where
the same number stands, the same file does. The path of a link starts from the link's directory
unless it is absolute. -/
inductive Entry where
  | file (number : Nat) (data : Bytes)
  | directory
  | link (target : Path)
  deriving DecidableEq

/-- The working directory, and what stands at the places that are taken. The working directory, the
root and all directories between them exist in any case. -/
structure FileSystem where
  here : Spot
  entries : List (Spot × Entry)
  deriving DecidableEq

/-- Why a file cannot be read, written or removed. -/
inductive FileFault where
  | notFound
  | notDirectory
  | isDirectory
  | nameTooLong
  | tooManyLinks
  | embeddedNul
  deriving DecidableEq

/-- A fault and the path that it concerns. -/
structure FileError where
  fault : FileFault
  path : String
  deriving DecidableEq

/-- Why the text of a file cannot be read: the file cannot, or it is not UTF-8. -/
inductive ReadError where
  | file (error : FileError)
  | encoding (fault : Utf8.Fault)
  deriving DecidableEq

namespace FileFault

/-- What the operating system calls the fault. -/
def reason : FileFault → String
  | .notFound => "No such file or directory"
  | .notDirectory => "Not a directory"
  | .isDirectory => "Is a directory"
  | .nameTooLong => "File name too long"
  | .tooManyLinks => "Too many levels of symbolic links"
  | .embeddedNul => "embedded null byte"

/-- The number that the operating system gives the fault. -/
def number : FileFault → Nat
  | .notFound => 2
  | .notDirectory => 20
  | .isDirectory => 21
  | .nameTooLong => 36
  | .tooManyLinks => 40
  | .embeddedNul => 0

end FileFault

/-- The wording of a file error. -/
def FileError.message (error : FileError) : String :=
  match error.fault with
  | .embeddedNul => error.fault.reason
  | fault =>
    "[Errno " ++ Text.decimalNat fault.number ++ "] " ++ fault.reason ++ ": " ++
      Text.quoted error.path

/-- What a path leads to. A vacant place is free for a new file. -/
inductive Found where
  | file (spot : Spot) (number : Nat) (data : Bytes)
  | directory (spot : Spot)
  | vacant (spot : Spot)
  deriving DecidableEq

/-- An entry after a file has been written: all that stand for the file hold its new data. -/
def Entry.overwrite (number : Nat) (data : Bytes) : Entry → Entry
  | .file other old => .file other (if other = number then data else old)
  | .directory => .directory
  | .link target => .link target

namespace FileSystem

/-- No file at all, in the root directory. -/
def empty : FileSystem := ⟨.root, []⟩

/-- What stands at a place. -/
def entryAt? (fs : FileSystem) (spot : Spot) : Option Entry :=
  if spot.leadsTo fs.here then some .directory else fs.entries.lookup spot

/-- The number of bytes of a text. -/
def byteLength (text : String) : Nat := (Utf8.encode text.toList).length

/-- The most bytes of a name. -/
def nameLimit : Nat := 255

/-- The most bytes of a path. -/
def pathLimit : Nat := 4095

/-- The most links on the way along a path. -/
def linkLimit : Nat := 40

/-- Why no file system has a file at a path. -/
def pathFault? (path : Path) : Option FileFault :=
  if path.parts.any fun part => part.toList.any fun c => c.toNat == 0 then some .embeddedNul
  else if pathLimit < byteLength path.text then some .nameTooLong
  else none

/-- The directory from which a path starts, if a directory is given for the relative ones. -/
def origin (here : Spot) (path : Path) : Spot := if path.root.isEmpty then here else .root

/-- Follows components from a directory up to the first link, where `follow` goes on from the link's
directory. Every component but the last has to be a directory that exists. -/
def walkWith (fs : FileSystem) (follow : Spot → Path → List String → Except FileFault Found)
    (spot : Spot) : List String → Except FileFault Found
  | [] => .ok (.directory spot)
  | name :: rest =>
    if name = ".." then fs.walkWith follow spot.parent rest
    else if nameLimit < byteLength name then .error .nameTooLong
    else
      match fs.entryAt? (spot.child name) with
      | some .directory => fs.walkWith follow (spot.child name) rest
      | some (.file number data) =>
        if rest.isEmpty then .ok (.file (spot.child name) number data) else .error .notDirectory
      | some (.link target) => follow spot target rest
      | none => if rest.isEmpty then .ok (.vacant (spot.child name)) else .error .notFound

/-- Follows components from a directory and through at most `links` links. -/
def walk (fs : FileSystem) : Nat → Spot → List String → Except FileFault Found
  | 0 => fs.walkWith fun _ _ _ => .error .tooManyLinks
  | links + 1 => fs.walkWith fun spot target rest =>
    fs.walk links (origin spot target) (target.parts ++ rest)

/-- What a path leads to. -/
def locate (fs : FileSystem) (path : Path) : Except FileFault Found :=
  match pathFault? path with
  | some fault => .error fault
  | none => fs.walk linkLimit (origin fs.here path) path.parts

/-- What a path leads to, for those who only ask what is there: a path that leads nowhere is no
error, but one that is too long is. -/
def probe (fs : FileSystem) (path : Path) : Except FileError (Option Found) :=
  match fs.locate path with
  | .ok found => .ok (some found)
  | .error .nameTooLong => .error ⟨.nameTooLong, path.text⟩
  | .error _ => .ok none

/-- The place of the file that a path leads to, if it leads to one. -/
def fileSpot? (fs : FileSystem) (path : Path) : Except FileError (Option Spot) :=
  match fs.probe path with
  | .ok (some (.file spot _ _)) => .ok (some spot)
  | .ok _ => .ok none
  | .error error => .error error

/-- Whether a path leads to a directory. -/
def isDirectory (fs : FileSystem) (path : Path) : Except FileError Bool :=
  match fs.probe path with
  | .ok (some (.directory _)) => .ok true
  | .ok _ => .ok false
  | .error error => .error error

/-- The bytes of a file. -/
def read (fs : FileSystem) (path : Path) : Except FileError Bytes :=
  match fs.locate path with
  | .ok (.file _ _ data) => .ok data
  | .ok (.directory _) => .error ⟨.isDirectory, path.text⟩
  | .ok (.vacant _) => .error ⟨.notFound, path.text⟩
  | .error fault => .error ⟨fault, path.text⟩

/-- The text of a file, every line ending turned into a line feed. -/
def readText (fs : FileSystem) (path : Path) : Except ReadError (List Char) :=
  match fs.read path with
  | .error error => .error (.file error)
  | .ok data =>
    match Utf8.decode data with
    | .ok text => .ok (Text.unifyNewlines text)
    | .error fault => .error (.encoding fault)

/-- The file system after a file that exists has been written. -/
def overwrite (fs : FileSystem) (number : Nat) (data : Bytes) : FileSystem :=
  { fs with entries := fs.entries.map fun known => (known.1, known.2.overwrite number data) }

/-- A number that no file has. -/
def newNumber (fs : FileSystem) : Nat :=
  fs.entries.foldr (fun known bound =>
    match known.2 with
    | .file number _ => max (number + 1) bound
    | _ => bound) 0

/-- The file system with a new file at a vacant place. -/
def add (fs : FileSystem) (spot : Spot) (data : Bytes) : FileSystem :=
  { fs with entries := fs.entries ++ [(spot, .file fs.newNumber data)] }

/-- The file system after writing a file, which may exist; its directory has to. -/
def write (fs : FileSystem) (path : Path) (data : Bytes) : Except FileError FileSystem :=
  match fs.locate path with
  | .ok (.file _ number _) => .ok (fs.overwrite number data)
  | .ok (.vacant spot) => .ok (fs.add spot data)
  | .ok (.directory _) => .error ⟨.isDirectory, path.text⟩
  | .error fault => .error ⟨fault, path.text⟩

/-- A way of writing files: the file system afterwards, or why the file cannot be written. -/
abbrev Writer := FileSystem → Path → Bytes → Except FileError FileSystem

/-- The place of the last name of a path, whatever stands there: if that is a link, it is not
followed. -/
def locateName (fs : FileSystem) (path : Path) : Except FileFault Spot :=
  match pathFault? path, path.parts.getLast? with
  | some fault, _ => .error fault
  | none, none | none, some ".." => .error .isDirectory
  | none, some name =>
    match fs.walk linkLimit (origin fs.here path) path.parts.dropLast with
    | .ok (.directory spot) =>
      if nameLimit < byteLength name then .error .nameTooLong else .ok (spot.child name)
    | .ok (.file _ _ _) => .error .notDirectory
    | .ok (.vacant _) => .error .notFound
    | .error fault => .error fault

/-- The file system without what stands at a place. -/
def without (fs : FileSystem) (spot : Spot) : FileSystem :=
  { fs with entries := fs.entries.filter fun known => known.1 != spot }

/-- The file system after removing what the last name of a path stands for, a file or a link; there
may be none. -/
def remove (fs : FileSystem) (path : Path) : Except FileError FileSystem :=
  match fs.locateName path with
  | .error .notFound => .ok fs
  | .error fault => .error ⟨fault, path.text⟩
  | .ok spot =>
    match fs.entryAt? spot with
    | some .directory => .error ⟨.isDirectory, path.text⟩
    | _ => .ok (fs.without spot)

/-- A way of removing files: the file system afterwards, or why the file cannot be removed. -/
abbrev Remover := FileSystem → Path → Except FileError FileSystem

/-- The files and what they hold. -/
def files (fs : FileSystem) : List (Spot × Bytes) :=
  fs.entries.filterMap fun (spot, entry) =>
    match entry with
    | .file _ data => some (spot, data)
    | .directory | .link _ => none

end FileSystem
end Lr35902
