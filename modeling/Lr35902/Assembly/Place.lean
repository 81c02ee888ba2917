import Lr35902.Program.Basic
import Lr35902.Statement.Basic

/-!
Placing statements: how the operands of an instruction become operands at an address, and how
numbers are fitted into their slots. A jump counts from the end of its own instruction; a high-page
address becomes an offset.
-/
namespace Lr35902

/-- Why a statement cannot be placed: a cause and a hint. -/
structure Objection where
  cause : Cause
  hint : Option String
  deriving DecidableEq

namespace NumberKind

/-- A value as the number that a slot holds, in an instruction that ends at `next`. -/
def convert (kind : NumberKind) (referent : Referent) (next : Int) : Except Objection Int :=
  let value := referent.value
  match kind with
  | .immediate8 =>
    if 0xFF < value then .error ⟨.wideImmediate referent, none⟩ else .ok value
  | .address8 =>
    match highOffset? value with
    | some offset => .ok offset
    | none => .error ⟨.outsideHighPage referent, none⟩
  | .relative =>
    let offset := value - next
    if -128 ≤ offset ∧ offset ≤ 127 then .ok offset
    else
      .error ⟨.unreachable referent offset,
        some "jr reaches -128..+127 bytes from the next instruction; use jp"⟩
  | .immediate16 | .address16 | .bit | .vector => .ok value

end NumberKind

namespace WrittenOperand

/-- The operand that fills a slot: a number at once, a name as a symbol to be resolved later. -/
def fill (operand : WrittenOperand) (kind : NumberKind) (next : Int) :
    Except Objection Operand :=
  match operand.written with
  | .number value | .address value =>
    match kind.convert ⟨none, value⟩ next with
    | .ok number => .ok (.number kind (.number number))
    | .error objection => .error objection
  | .name name | .addressName name | .register name | .pair name | .flag name | .indirect name
  | .indirectPair name =>
    .ok (.symbol (.word name) (some (.number kind)) (some operand.location))

/-- The operand of a class that a written operand stands for, in an instruction that ends at
`next`. -/
def build (operand : WrittenOperand) (cls : OperandClass) (next : Int) :
    Except Objection Operand :=
  match cls with
  | .register r => .ok (.name .register (.word r.name))
  | .pair p => .ok (.name .pair (.word p.name))
  | .condition k => .ok (.name .condition (.word k.name))
  | .highC => .ok (.name .indirect (.word Register.c.name))
  | .through p => .ok (.name .indirectPair (.word p.name))
  | .bit i => .ok (.number .bit (.number i.val))
  | .vector i => .ok (.number .vector (.number (8 * i.val)))
  | .byte => operand.fill .immediate8 next
  | .word => operand.fill .immediate16 next
  | .high => operand.fill .address8 next
  | .memory => operand.fill .address16 next
  | .relative => operand.fill .relative next

end WrittenOperand

/-- The operands of an instruction that ends at `next`, class by class. An objection comes with the
place of the operand it concerns. -/
def buildOperands (next : Int) :
    List WrittenOperand → List OperandClass → Except (Objection × Location) (List Operand)
  | operand :: operands, cls :: classes =>
    match operand.build cls next with
    | .error objection => .error (objection, operand.location)
    | .ok built =>
      match buildOperands next operands classes with
      | .error failure => .error failure
      | .ok more => .ok (built :: more)
  | _, _ => .ok []

/-- The end of the address space. -/
def memorySize : Int := maxAddress + 1

namespace Program

/-- Adds an item, unless it would reach beyond the address space. -/
def place (program : Program) (item : Item) : Except (Objection × Location) Program :=
  let stop := item.address + item.size
  if memorySize < stop then
    .error (⟨.outputBeyondMemory stop item.size,
      some ("this statement starts at $" ++ Text.hex 0 item.address ++ " and emits " ++
        Text.decimal item.size ++ " byte(s)")⟩, item.location)
  else .ok (program.append item)

end Program
end Lr35902
