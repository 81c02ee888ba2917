import Lr35902.File.Path

/-!
Places of files and directories. A place is told by the names that lead down to it from the root, so
however a path is spelled, from wherever it starts and through whatever links it goes, what it leads
to stands at one place.
-/
namespace Lr35902

/-- The place of a file or directory: the names that lead down to it from the root. -/
structure Spot where
  names : List String
  deriving DecidableEq

/-- How a mark names the file that it closes: by its place, or, in a mark made by hand, by a
text. -/
inductive FileMark where
  | spot (spot : Spot)
  | text (text : String)
  deriving DecidableEq

namespace Spot

/-- The root directory. -/
def root : Spot := ⟨[]⟩

/-- The place one level up; above the root there is nothing. -/
def parent (spot : Spot) : Spot := ⟨spot.names.dropLast⟩

/-- The place of a name in the directory at a place. -/
def child (spot : Spot) (name : String) : Spot := ⟨spot.names ++ [name]⟩

/-- The last name on the way to a place, empty if there is none. -/
def name (spot : Spot) : String := spot.names.getLastD ""

/-- Whether the way down to another place leads through a place or ends there. -/
def leadsTo (spot other : Spot) : Bool := spot.names.isPrefixOf other.names

/-- The path to a place. -/
def path (spot : Spot) : Path := ⟨"/", spot.names⟩

end Spot

namespace FileMark

/-- Whether a mark closes the file at a place. A text does if it is the path of the place. -/
def closes (mark : FileMark) (spot : Spot) : Bool :=
  match mark with
  | .spot marked => marked == spot
  | .text written => spot.path.text == written

/-- A mark as text. -/
def spelling : FileMark → String
  | .spot marked => marked.path.text
  | .text written => written

end FileMark
end Lr35902
