/-!
Paths as text writes them. Empty and `.` components are dropped when a path is read; `..` stays,
because what it means depends on the directories that exist.
-/
namespace Lr35902

/-- A path: its root, empty for a relative path, and its components. -/
structure Path where
  root : String
  parts : List String
  deriving DecidableEq

namespace Path

/-- Cuts a text at every slash. -/
def components : List Char → List (List Char)
  | [] => [[]]
  | c :: rest =>
    if c = '/' then [] :: components rest
    else
      match components rest with
      | [] => [[c]]
      | part :: parts => (c :: part) :: parts

/-- The root that a text starts with: exactly two slashes are a root of their own. -/
def rootOf : List Char → String
  | '/' :: '/' :: '/' :: _ => "/"
  | '/' :: '/' :: _ => "//"
  | '/' :: _ => "/"
  | _ => ""

/-- The path that a text writes. -/
def ofString (text : String) : Path :=
  let parts := (components text.toList).filter fun part => !part.isEmpty && part != ['.']
  ⟨rootOf text.toList, parts.map String.ofList⟩

/-- A path as text; the empty relative path is `.`. -/
def text (path : Path) : String :=
  if path.root.isEmpty && path.parts.isEmpty then "."
  else path.root ++ "/".intercalate path.parts

/-- A path below a directory; an absolute one stands alone. -/
def join (directory path : Path) : Path :=
  if path.root.isEmpty then ⟨directory.root, directory.parts ++ path.parts⟩ else path

/-- The directory of a path, by its text. -/
def parent (path : Path) : Path := ⟨path.root, path.parts.dropLast⟩

/-- The last component, empty if there is none. -/
def name (path : Path) : String := path.parts.getLastD ""

end Path
end Lr35902
