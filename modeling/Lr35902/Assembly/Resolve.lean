import Lr35902.Assembly.State

/-!
Resolution: once every statement is placed, each symbol operand is replaced by the value of its
symbol, fitted into its slot. Addresses and sizes stay as they are.
-/
namespace Lr35902
namespace Assembly

/-- The operand that a symbol operand stands for, in an instruction that ends at `next`. -/
def resolveOperand (symbols : SymbolTable) (lineAt : Location → Option String) (next : Int)
    (operand : Operand) : Except Diagnostic Operand :=
  match operand with
  | .symbol (.word name) (some (.number kind)) location =>
    match symbols.lookup? name with
    | none =>
      .error (.unresolved name location (location.bind lineAt) (symbols.similar name) none)
    | some symbol =>
      match kind.convert ⟨some name, symbol.value⟩ next with
      | .ok value => .ok (.number kind (.number value))
      | .error objection =>
        .error ⟨objection.cause, location, objection.hint, location.bind lineAt⟩
  | other => .ok other

/-- The operands of an instruction with every symbol resolved. -/
def resolveOperands (symbols : SymbolTable) (lineAt : Location → Option String) (next : Int) :
    List Operand → Except Diagnostic (List Operand)
  | [] => .ok []
  | operand :: rest =>
    match resolveOperand symbols lineAt next operand with
    | .error diagnostic => .error diagnostic
    | .ok resolved =>
      match resolveOperands symbols lineAt next rest with
      | .error diagnostic => .error diagnostic
      | .ok more => .ok (resolved :: more)

/-- An item with every symbol resolved. -/
def resolveItem (symbols : SymbolTable) (lineAt : Location → Option String) (item : Item) :
    Except Diagnostic Item :=
  match item.content with
  | .instruction mnemonic operands size =>
    match resolveOperands symbols lineAt (item.address + size) operands with
    | .ok resolved => .ok { item with content := .instruction mnemonic resolved size }
    | .error diagnostic => .error diagnostic
  | _ => .ok item

/-- Items with every symbol resolved; `done` holds those before, the last one first. -/
def resolveItems (symbols : SymbolTable) (lineAt : Location → Option String) (done : List Item) :
    List Item → Except Diagnostic (List Item)
  | [] => .ok done.reverse
  | item :: rest =>
    match resolveItem symbols lineAt item with
    | .error diagnostic => .error diagnostic
    | .ok resolved => resolveItems symbols lineAt (resolved :: done) rest

/-- Whether an item waits for the value of a symbol. -/
def awaits (item : Item) : Bool :=
  match item.content with
  | .instruction _ operands _ => operands.any Operand.isSymbol
  | _ => false

namespace State

/-- The state after resolution, which reports how many instructions it changed, if any, and the
extent of the program. -/
def resolve (state : State) : Except Fault State :=
  let program := state.program
  match resolveItems program.symbols state.lineAt [] program.items with
  | .error diagnostic => .error (.diagnostic diagnostic)
  | .ok items =>
    let changed := program.items.countP awaits
    let state := { state with program := program.withItems items }
    let state := if changed = 0 then state else state.report (.resolved changed)
    .ok (state.report (.parsed program.items.length program.location program.symbols.size))

end State
end Assembly
end Lr35902
