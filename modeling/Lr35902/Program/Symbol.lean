import Lr35902.NameMap
import Lr35902.Source.Diagnostic
import Lr35902.Text.Case
import Lr35902.Text.EditDistance

/-!
The symbol table: labels and constants by name. A name is defined once; a second definition is
refused and changes nothing.
-/
namespace Lr35902

/-- A defined name. Names defined before the source is read have no place. -/
structure Symbol where
  name : String
  value : Int
  location : Option Location
  isConstant : Bool
  deriving DecidableEq

/-- The defined symbols. They are kept with the last one first. -/
structure SymbolTable where
  defined : List Symbol
  deriving DecidableEq

/-- The largest address, and the largest value of a symbol. -/
def maxAddress : Int := 0xFFFF

namespace SymbolTable

def empty : SymbolTable := ⟨[]⟩

/-- The symbols in the order of their definitions. -/
def symbols (table : SymbolTable) : List Symbol := table.defined.reverse

/-- The symbol of a name. -/
def lookup? (table : SymbolTable) (name : String) : Option Symbol :=
  table.defined.find? fun symbol => symbol.name == name

def contains (table : SymbolTable) (name : String) : Bool := (table.lookup? name).isSome

def size (table : SymbolTable) : Nat := table.defined.length

/-- Adds a symbol whose name is new and whose value fits in 16 bits. A known name is refused
whatever the value. -/
def define (table : SymbolTable) (symbol : Symbol) (sourceLine : Option String) :
    Except Diagnostic SymbolTable :=
  match table.lookup? symbol.name with
  | some known =>
    .error (.duplicate symbol.name symbol.location known.location sourceLine)
  | none =>
    if 0 ≤ symbol.value ∧ symbol.value ≤ maxAddress then .ok ⟨symbol :: table.defined⟩
    else
      .error ⟨.wideSymbol symbol.name symbol.value, symbol.location, none, sourceLine⟩

/-- A definition that is accepted comes last. -/
theorem symbols_define {table after : SymbolTable} {symbol : Symbol} {sourceLine : Option String}
    (h : table.define symbol sourceLine = .ok after) :
    after.symbols = table.symbols ++ [symbol] := by
  unfold define at h
  split at h
  · cases h
  · split at h
    · cases h
      exact List.reverse_cons
    · cases h

/-- The names and values of all symbols. -/
def values (table : SymbolTable) : NameMap Int :=
  ⟨table.symbols.map fun symbol => (symbol.name, symbol.value)⟩

/-- The names and addresses of the labels. -/
def labels (table : SymbolTable) : NameMap Int :=
  ⟨(table.symbols.filter fun symbol => !symbol.isConstant).map fun symbol =>
    (symbol.name, symbol.value)⟩

/-- Whether a defined name may have been meant by another: they are equal but for case, or nearly
equally long and at most two edits apart. -/
def resembles (name other : String) : Bool :=
  let lowered := Text.lower name
  let otherLowered := Text.lower other
  lowered == otherLowered ||
    (decide (other.length ≤ name.length + 1) && decide (name.length ≤ other.length + 1) &&
      decide (Text.editDistance lowered.toList otherLowered.toList ≤ 2))

/-- The first three defined names that may have been meant by a name. -/
def similar (table : SymbolTable) (name : String) : List String :=
  ((table.symbols.map Symbol.name).filter (resembles name)).take 3

end SymbolTable
end Lr35902
