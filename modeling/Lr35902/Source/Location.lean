import Lr35902.Text.Numeral

/-!
Places in source files.
-/
namespace Lr35902

/-- A place in a source file. Lines and columns count from one; other numbers occur only in places
that no text produced. -/
structure Location where
  file : String
  line : Int
  column : Int
  deriving DecidableEq

namespace Location

/-- The name that stands for text which came from no file. -/
def input : String := "<input>"

/-- A place as messages show it. -/
def text (location : Location) : String :=
  location.file ++ ":" ++ Text.decimal location.line ++ ":" ++ Text.decimal location.column

/-- The place one column further. -/
def next (location : Location) : Location := { location with column := location.column + 1 }

end Location
end Lr35902
