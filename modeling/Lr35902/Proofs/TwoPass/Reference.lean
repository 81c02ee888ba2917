import Lr35902.Cpu.Form
import Lr35902.Statement.Written
import Lr35902.Text.Utf8
import Lr35902.Token.Basic

/-!
A two-pass assembler, as a reference. It works on whole lists: the source is cut into lines and the
lines into clauses; the first pass gives every clause its address and collects all definitions; the
second looks names up in the complete table and encodes each clause on its own. There is no cursor,
no state and nothing to patch, and it says nothing about why a source is refused.
-/
namespace Lr35902.TwoPass

/-! ## Clauses -/

/-- A clause of the source: a label, or a statement that fills a line. -/
inductive Clause where
  | label (name : String)
  | instruction (form : Form) (operands : List Written)
  | data (bytes : Bytes)
  | fill (count value : Int)
  | origin (target value : Int)
  | constant (name : String) (value : Int)
  | sectionMark
  deriving DecidableEq

def isNewline (lexeme : Lexeme) : Bool := lexeme == .newline

def isComma : Lexeme → Bool
  | .delimiter .comma _ => true
  | _ => false

/-- What stands between commas. Nothing at all is no argument. -/
def arguments (body : List Lexeme) : List (List Lexeme) :=
  if body.isEmpty then [] else body.splitOnP isComma

/-- An operand: one word or number, bare or in parentheses. -/
def operand? : List Lexeme → Option Written
  | [.register name] => some (.register name)
  | [.pair name] => some (.pair name)
  | [.flag name] => some (.flag name)
  | [.number value] => some (.number value)
  | [.identifier name] => some (.name name)
  | [.delimiter .leftParen _, .register name, .delimiter .rightParen _] => some (.indirect name)
  | [.delimiter .leftParen _, .pair name, .delimiter .rightParen _] => some (.indirectPair name)
  | [.delimiter .leftParen _, .number value, .delimiter .rightParen _] => some (.address value)
  | [.delimiter .leftParen _, .identifier name, .delimiter .rightParen _] =>
    some (.addressName name)
  | _ => none

/-- Whether an operand may stand where a form has a class: the register, pair or condition of that
name, a literal in the range of the class, or any name where a value is wanted. -/
def suits (cls : OperandClass) (written : Written) : Bool :=
  match cls, written with
  | .register r, .register name => name == r.name
  | .pair p, .pair name => name == p.name
  | .condition k, .flag name => name == k.name
  | .condition k, .register name => k == .cr && name == "c"
  | .highC, .indirect name => name == "c"
  | .through p, .indirectPair name => name == p.name
  | .byte, .number value => decide (value ≤ 0xFF)
  | .word, .number _ | .relative, .number _ | .memory, .address _ => true
  | .high, .address value => decide (value ≤ 0xFF ∨ 0xFF00 ≤ value)
  | .bit i, .number value => value == i.val
  | .vector i, .number value => value == 8 * i.val
  | .byte, .name _ | .word, .name _ | .relative, .name _ => true
  | .high, .addressName _ | .memory, .addressName _ => true
  | _, _ => false

/-- The form of a mnemonic that operands choose. -/
def form? (mnemonic : String) (operands : List Written) : Option Form :=
  Form.table.find? fun form =>
    form.mnemonic.name == mnemonic && form.operands.length == operands.length &&
      (form.operands.zip operands).all fun pair => suits pair.1 pair.2

def instruction? (mnemonic : String) (body : List Lexeme) : Option Clause := do
  let operands ← (arguments body).mapM operand?
  let form ← form? mnemonic operands
  return .instruction form operands

def byteValue? : List Lexeme → Option Int
  | [.number value] => if value ≤ 0xFF then some value else none
  | _ => none

/-- Literal bytes, one zero if there are none. -/
def bytes? (body : List Lexeme) : Option Clause := do
  let values ← (arguments body).mapM byteValue?
  return .data (if values.isEmpty then [0] else values.map fun value => value.toNat.toUInt8)

/-- A string of seven-bit characters, with what is to follow it. -/
def ascii? (suffix : Bytes) : List Lexeme → Option Clause
  | [.string text] =>
    if text.toList.all fun c => decide (c.toNat < 0x80) then
      some (.data (text.toList.map (fun c => c.toNat.toUInt8) ++ suffix))
    else none
  | _ => none

def utf8? : List Lexeme → Option Clause
  | [.string text] => some (.data (text.toList.flatMap String.utf8EncodeChar))
  | _ => none

def fill? : List Lexeme → Option Clause
  | [.number count, .delimiter .comma _, .number value] =>
    if value ≤ 0xFF then some (.fill count value) else none
  | _ => none

def origin? : List Lexeme → Option Clause
  | [.number target] => some (.origin target 0)
  | [.number target, .delimiter .comma _, .number value] =>
    if value ≤ 0xFF then some (.origin target value) else none
  | _ => none

def constant? : List Lexeme → Option Clause
  | [.identifier name, .delimiter .comma _, .number value] => some (.constant name value)
  | _ => none

/-- A section marker stands alone. -/
def sectionMark? : List Lexeme → Option Clause
  | [] => some .sectionMark
  | _ => none

/-- The clause of a directive. Inclusion is not one of them. -/
def directive? (name : String) (body : List Lexeme) : Option Clause :=
  match name with
  | ".byte" => bytes? body
  | ".ascii" => ascii? [] body
  | ".asciz" => ascii? [0] body
  | ".utf8" => utf8? body
  | ".fill" => fill? body
  | ".org" => origin? body
  | ".equ" => constant? body
  | ".text" | ".data" => sectionMark? body
  | _ => none

def statement? (head : Lexeme) (body : List Lexeme) : Option Clause :=
  match head with
  | .mnemonic name => instruction? name body
  | .directive name => directive? name body
  | _ => none

/-- The clauses of a line: any number of labels, then at most one statement. -/
def line? : List Lexeme → Option (List Clause)
  | [] => some []
  | .identifier name :: .delimiter .colon _ :: rest => (line? rest).map (.label name :: ·)
  | head :: body => (statement? head body).map ([·])

/-- The clauses of a source, line by line. -/
def clauses? (source : List Lexeme) : Option (List Clause) :=
  ((source.splitOnP isNewline).mapM line?).map List.flatten

/-! ## The first pass -/

/-- The number of bytes of a clause at an address. -/
def Clause.size (address : Int) : Clause → Int
  | .instruction form _ => form.size
  | .data bytes => bytes.length
  | .fill count _ => count
  | .origin target _ => target - address
  | .label _ | .constant _ _ | .sectionMark => 0

/-- The clauses with their addresses, the first at a given one. -/
def addressed (address : Int) : List Clause → List (Int × Clause)
  | [] => []
  | clause :: rest => (address, clause) :: addressed (address + clause.size address) rest

/-- Whether a clause may stand at an address: a label needs an address of 16 bits, an origin cannot
lie behind, and nothing may end beyond the address space. -/
def Clause.admissible (address : Int) (clause : Clause) : Bool :=
  decide (address + clause.size address ≤ 0x10000) &&
    match clause with
    | .label _ => decide (address ≤ 0xFFFF)
    | .origin target _ => decide (address ≤ target)
    | _ => true

/-- A defined name. -/
structure Definition where
  name : String
  value : Int
  isConstant : Bool
  deriving DecidableEq

def Clause.definition? (address : Int) : Clause → Option Definition
  | .label name => some ⟨name, address, false⟩
  | .constant name value => some ⟨name, value, true⟩
  | _ => none

/-- The definitions of clauses at their addresses, in their order. -/
def definedIn (placed : List (Int × Clause)) : List Definition :=
  placed.filterMap fun (address, clause) => clause.definition? address

/-- All definitions: those made beforehand, then those of the source. -/
def definitions (defines : List (String × Int)) (placed : List (Int × Clause)) : List Definition :=
  defines.map (fun entry => ⟨entry.1, entry.2, true⟩) ++ definedIn placed

/-! ## The second pass -/

def valueOf? (table : List Definition) (name : String) : Option Int :=
  (table.find? fun entry => entry.name == name).map Definition.value

def operandValue? (table : List Definition) : Written → Option Int
  | .number value | .address value => some value
  | .name word | .addressName word => valueOf? table word
  | _ => none

/-- A value in the slot of a class, in an instruction that ends at `next`. -/
def slot? (cls : OperandClass) (next value : Int) : Option Bytes :=
  match cls with
  | .byte => if value ≤ 0xFF then some [value.toNat.toUInt8] else none
  | .word | .memory => some [(value.toNat % 256).toUInt8, (value.toNat / 256).toUInt8]
  | .high =>
    if value ≤ 0xFF then some [value.toNat.toUInt8]
    else if 0xFF00 ≤ value then some [(value - 0xFF00).toNat.toUInt8]
    else none
  | .relative =>
    if -128 ≤ value - next ∧ value - next ≤ 127 then
      some [((value - next) % 256).toNat.toUInt8]
    else none
  | _ => some []

/-- The bytes of an operand. Only slots have a value to look up. -/
def part? (table : List Definition) (next : Int) (cls : OperandClass) (written : Written) :
    Option Bytes :=
  if cls.size = 0 then some [] else (operandValue? table written).bind (slot? cls next)

/-- The bytes of a clause at an address. -/
def Clause.encode? (table : List Definition) (address : Int) : Clause → Option Bytes
  | .instruction form operands => do
    let parts ← (form.operands.zip operands).mapM fun pair =>
      part? table (address + form.size) pair.1 pair.2
    return form.opcode ++ parts.flatten
  | .data bytes => some bytes
  | .fill count value => some (List.replicate count.toNat value.toNat.toUInt8)
  | .origin target value => some (List.replicate (target - address).toNat value.toNat.toUInt8)
  | .label _ | .constant _ _ | .sectionMark => some []

/-- The reference assembler: the bytes and the table of a source, if it has any. -/
def assemble? (defines : List (String × Int)) (source : List Lexeme) :
    Option (Bytes × List Definition) := do
  let clauses ← clauses? source
  let placed := addressed 0 clauses
  let table := definitions defines placed
  guard (placed.all (fun (address, clause) => clause.admissible address) = true ∧
    (table.map Definition.name).Nodup)
  let pieces ← placed.mapM fun (address, clause) => clause.encode? table address
  return (pieces.flatten, table)

end Lr35902.TwoPass
