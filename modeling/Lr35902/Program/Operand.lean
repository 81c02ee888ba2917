import Lr35902.Cpu.OperandClass
import Lr35902.Source.Location
import Lr35902.Text.Numeral

/-!
Operands of laid-out instructions: a name that the opcode implies, a number, or a symbol whose value
is not yet known.
-/
namespace Lr35902

/-- The kinds of operands that the opcode alone expresses. -/
inductive NameKind where
  | register | pair | indirect | indirectPair | condition
  deriving DecidableEq

/-- The kinds of operands that are numbers. -/
inductive NumberKind where
  | immediate8 | immediate16 | address8 | address16 | relative | bit | vector
  deriving DecidableEq

/-- The kinds of operands. -/
inductive OperandKind where
  | name (kind : NameKind)
  | number (kind : NumberKind)
  deriving DecidableEq

/-- The value of an operand: a number, or a word. -/
inductive OperandValue where
  | number (value : Int)
  | word (text : String)
  deriving DecidableEq

/-- An operand. A symbol stands for a number to come, of the kind `target`, and remembers where it
was written. -/
inductive Operand where
  | name (kind : NameKind) (value : OperandValue)
  | number (kind : NumberKind) (value : OperandValue)
  | symbol (value : OperandValue) (target : Option OperandKind) (location : Option Location)
  deriving DecidableEq

/-- Why an operand made by hand has no key or no text: nothing says what its symbol stands for, or
it has a word where a number is to be written in hexadecimal, in decimal, or reckoned with. -/
inductive OperandFault where
  | noTarget
  | wordAsHex
  | wordAsDecimal
  | notNumber
  deriving DecidableEq

/-- The first address of the high page. -/
def highPage : Int := 0xFF00

namespace OperandValue

/-- A value as it is. -/
def text : OperandValue → String
  | .number value => Text.decimal value
  | .word text => text

/-- A number in hexadecimal after a dollar sign, filled up to a width. -/
def hex (width : Nat) : OperandValue → Except OperandFault String
  | .number value => .ok ("$" ++ Text.hex width value)
  | .word _ => .error .wordAsHex

end OperandValue

namespace NameKind

/-- The key of an operand of the kind with some name. -/
def key (kind : NameKind) (name : String) : String :=
  match kind with
  | .register | .pair | .condition => name
  | .indirect | .indirectPair => "(" ++ name ++ ")"

end NameKind

namespace NumberKind

/-- The key of an operand of the kind, which for bits and vectors depends on the value. -/
def key (kind : NumberKind) (value : OperandValue) : Except OperandFault String :=
  match kind with
  | .immediate8 => .ok "n8"
  | .immediate16 => .ok "n16"
  | .address8 => .ok "(n8)"
  | .address16 => .ok "(n16)"
  | .relative => .ok "e8"
  | .bit => .ok value.text
  | .vector => value.hex 2

/-- How an operand of the kind is written. High-page addresses are written in full, displacements
with their sign. -/
def text (kind : NumberKind) (value : OperandValue) : Except OperandFault String :=
  match kind, value with
  | .immediate8, _ | .vector, _ => value.hex 2
  | .immediate16, _ => value.hex 4
  | .address8, .number offset => .ok ("($" ++ Text.hex 4 (highPage + offset) ++ ")")
  | .address8, .word _ => .error .notNumber
  | .address16, .number address => .ok ("($" ++ Text.hex 4 address ++ ")")
  | .address16, .word _ => .error .wordAsHex
  | .relative, .number offset => .ok (Text.signedDecimal offset)
  | .relative, .word _ => .error .wordAsDecimal
  | .bit, _ => .ok value.text

end NumberKind

namespace Operand

/-- The key of the operand class that an operand belongs to. A symbol has the key of its target. -/
def key? : Operand → Except OperandFault String
  | .name kind value => .ok (kind.key value.text)
  | .number kind value => kind.key value
  | .symbol value (some (.name kind)) _ => .ok (kind.key value.text)
  | .symbol value (some (.number kind)) _ => kind.key value
  | .symbol _ none _ => .error .noTarget

/-- Whether an operand still waits for its value. -/
def isSymbol : Operand → Bool
  | .symbol _ _ _ => true
  | _ => false

/-- How an operand is written. -/
def text? : Operand → Except OperandFault String
  | .name kind value => .ok (kind.key value.text)
  | .number kind value => kind.text value
  | .symbol value (some (.number .address8)) _
  | .symbol value (some (.number .address16)) _ => .ok ("(" ++ value.text ++ ")")
  | .symbol value _ _ => .ok value.text

end Operand
end Lr35902
