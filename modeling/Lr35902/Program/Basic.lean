import Lr35902.Program.Item
import Lr35902.Program.Symbol

/-!
Programs: items in the order of the output, the symbols, and the address of the next item.
-/
namespace Lr35902

/-- A program, laid out up to `location`. The items are kept with the last one first. -/
structure Program where
  placed : List Item
  location : Int
  symbols : SymbolTable

namespace Program

def empty : Program := ⟨[], 0, .empty⟩

/-- The items in the order of the output. -/
def items (program : Program) : List Item := program.placed.reverse

/-- Adds an item and moves on by its size. -/
def append (program : Program) (item : Item) : Program :=
  { program with placed := item :: program.placed, location := program.location + item.size }

/-- The program with other items, given in the order of the output, in place of its own. -/
def withItems (program : Program) (items : List Item) : Program :=
  { program with placed := items.reverse }

@[simp]
theorem items_append (program : Program) (item : Item) :
    (program.append item).items = program.items ++ [item] :=
  List.reverse_cons

@[simp]
theorem items_withItems (program : Program) (items : List Item) :
    (program.withItems items).items = items :=
  List.reverse_reverse items

end Program
end Lr35902
