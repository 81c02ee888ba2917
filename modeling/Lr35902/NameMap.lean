/-!
Maps from names that remember the order in which their names came. Giving a known name a new value
keeps its place.
-/
namespace Lr35902

/-- A map from names, as a list in the order of first insertion. -/
structure NameMap (α : Type) where
  entries : List (String × α)
  deriving DecidableEq

namespace NameMap

variable {α : Type}

def empty : NameMap α := ⟨[]⟩

def find? (map : NameMap α) (name : String) : Option α := map.entries.lookup name

def size (map : NameMap α) : Nat := map.entries.length

/-- Puts a value in the place of a known name, or a new name at the end. -/
def insertInto (name : String) (value : α) : List (String × α) → List (String × α)
  | [] => [(name, value)]
  | entry :: rest =>
    if entry.1 = name then (name, value) :: rest else entry :: insertInto name value rest

def insert (map : NameMap α) (name : String) (value : α) : NameMap α :=
  ⟨insertInto name value map.entries⟩

/-- The map that a list of names and values describes; of a repeated name the last value counts. -/
def ofList (entries : List (String × α)) : NameMap α :=
  entries.foldl (fun map entry => map.insert entry.1 entry.2) empty

/-- Whether two maps give every name the same value, whatever their orders. -/
def agrees [BEq α] (map other : NameMap α) : Bool :=
  map.size == other.size && map.entries.all fun entry => other.find? entry.1 == some entry.2

end NameMap
end Lr35902
