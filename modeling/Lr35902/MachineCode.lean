import Lr35902.Event
import Lr35902.Program.Basic
import Lr35902.Text.Length

/-!
Machine code: the bytes of each item, delivered in writes. Instructions are an opcode and the
payloads of their operands; runs of one byte are delivered in chunks of bounded size. After each
item the bytes delivered are compared with the item's size, because every later address depends on
it.

The operations of the code generator and what stands for them here:
* writing a program to a sink: `deliver`, whose loop over the items is `deliverFrom`;
* generating the code as one sequence of bytes: `generate`;
* writing one item, and a run of one byte: `itemWrites`, `runWrites`;
* encoding an instruction: `encodeInstruction`, with `keys` and `payloads` of its operands;
* the chunk size, which has to be positive: `ChunkSize.ofInt?`.
-/
namespace Lr35902

/-- The most bytes of a run that one write delivers, which is at least one. -/
structure ChunkSize where
  size : Nat
  positive : 0 < size

/-- Why an item cannot be encoded. -/
inductive EncodeFault where
  | noEncoding (location : Location) (text : String)
  | unresolved (location : Location) (name : String)
  | sizeMismatch (location : Location) (emitted : Int) (kind : String) (address size : Int)
  | operand (fault : OperandFault)
  | operandByte
  | operandWord
  | displacement
  | runByte
  | runLength
  | unencodable (data : RefusedString)
  deriving DecidableEq

namespace ChunkSize

/-- The chunk size that is used unless another is asked for. -/
def standard : ChunkSize := ⟨0xFF, by decide⟩

/-- A number as a chunk size. -/
def ofInt? (n : Int) : Option ChunkSize :=
  if positive : 0 < n.toNat then some ⟨n.toNat, positive⟩ else none

end ChunkSize

namespace MachineCode

/-- A number in `width` bytes, the least significant first. -/
def littleEndian : Nat → Nat → Bytes
  | 0, _ => []
  | width + 1, n => (n % 256).toUInt8 :: littleEndian width (n / 256)

/-- The payload of an operand that is a number by its kind. Bits and vectors are part of the
opcode. -/
def payload (kind : NumberKind) (value : OperandValue) : Except EncodeFault Bytes :=
  match kind, value with
  | .immediate8, .number value | .address8, .number value =>
    if 0 ≤ value ∧ value ≤ 0xFF then .ok [value.toNat.toUInt8] else .error .operandByte
  | .immediate8, .word _ | .address8, .word _ => .error (.operand .notNumber)
  | .immediate16, .number value | .address16, .number value =>
    if 0 ≤ value ∧ value ≤ 0xFFFF then .ok (littleEndian 2 value.toNat) else .error .operandWord
  | .immediate16, .word _ | .address16, .word _ => .error .operandWord
  | .relative, .number value =>
    if -128 ≤ value ∧ value ≤ 127 then .ok [(value % 256).toNat.toUInt8]
    else .error .displacement
  | .relative, .word _ => .error .displacement
  | .bit, _ | .vector, _ => .ok []

/-- The payloads of operands in order. -/
def payloads (location : Location) : List Operand → Except EncodeFault Bytes
  | [] => .ok []
  | .name _ _ :: rest => payloads location rest
  | .symbol value _ _ :: _ => .error (.unresolved location value.text)
  | .number kind value :: rest =>
    match payload kind value with
    | .error fault => .error fault
    | .ok bytes =>
      match payloads location rest with
      | .error fault => .error fault
      | .ok more => .ok (bytes ++ more)

/-- The keys of operands in order. -/
def keys : List Operand → Except OperandFault (List String)
  | [] => .ok []
  | operand :: rest =>
    match operand.key? with
    | .error fault => .error fault
    | .ok key =>
      match keys rest with
      | .error fault => .error fault
      | .ok more => .ok (key :: more)

/-- The bytes of an instruction: the opcode of the form that its operands have, then their
payloads. -/
def encodeInstruction (location : Location) (mnemonic : String) (operands : List Operand) :
    Except EncodeFault Bytes :=
  match keys operands with
  | .error fault => .error (.operand fault)
  | .ok keys =>
    match Form.lookup? mnemonic keys with
    | none =>
      match instructionText? mnemonic operands with
      | .ok text => .error (.noEncoding location text)
      | .error fault => .error (.operand fault)
    | some form =>
      match payloads location operands with
      | .error fault => .error fault
      | .ok bytes => .ok (form.opcode ++ bytes)

/-- The writes that deliver what remains of a run: as long as any bytes remain, a full chunk or all
of them. `done` holds the writes before, the last one first. -/
def runFrom (chunk : ChunkSize) (byte : UInt8) (done : List Bytes) (remaining : Nat) :
    List Bytes :=
  if 0 < remaining then
    let length := min remaining chunk.size
    runFrom chunk byte (List.replicate length byte :: done) (remaining - length)
  else done.reverse
termination_by remaining
decreasing_by
  have hChunk := chunk.positive
  omega

/-- The writes that deliver a run of one byte. An empty run needs none, whatever the byte; the first
write is the longest, and has to have a length that it can have. -/
def runWrites (chunk : ChunkSize) (count value : Int) : Except EncodeFault (List Bytes) :=
  if count ≤ 0 then .ok []
  else if ¬(0 ≤ value ∧ value ≤ 0xFF) then .error .runByte
  else if Text.lengthLimit < min count.toNat chunk.size then .error .runLength
  else .ok (runFrom chunk value.toNat.toUInt8 [] count.toNat)

/-- The writes that deliver an item, and the number of bytes that they count for. -/
def itemWrites (chunk : ChunkSize) (item : Item) : Except EncodeFault (List Bytes × Int) :=
  match item.content with
  | .instruction mnemonic operands _ =>
    match encodeInstruction item.location mnemonic operands with
    | .error fault => .error fault
    | .ok bytes => .ok ([bytes], bytes.length)
  | .bytes data => .ok ([data], data.length)
  | .string data => .ok ([data.payload], data.payload.length)
  | .refusedString data => .error (.unencodable data)
  | .fill count value =>
    match runWrites chunk count value with
    | .error fault => .error fault
    | .ok writes => .ok (writes, count)
  | .pad target value =>
    match runWrites chunk (target - item.address) value with
    | .error fault => .error fault
    | .ok writes => .ok (writes, target - item.address)
  | .constant _ _ | .inclusion _ | .marker => .ok ([], 0)

/-- What encoding has delivered: the writes in order, and the number of bytes they count for or the
fault that ended it. -/
structure Delivery where
  writes : List Bytes
  total : Except EncodeFault Int

/-- Delivers items. `total` counts the bytes before them, and `done` holds the writes before them,
the last one first. -/
def deliverFrom (chunk : ChunkSize) (total : Int) (done : List Bytes) : List Item → Delivery
  | [] => ⟨done.reverse, .ok total⟩
  | item :: rest =>
    match itemWrites chunk item with
    | .error fault => ⟨done.reverse, .error fault⟩
    | .ok (writes, count) =>
      let done := writes.reverse ++ done
      if count = item.size then deliverFrom chunk (total + count) done rest
      else
        ⟨done.reverse,
          .error (.sizeMismatch item.location count item.kindName item.address item.size)⟩

/-- Delivers a program. -/
def deliver (chunk : ChunkSize) (program : Program) : Delivery :=
  deliverFrom chunk 0 [] program.items

/-- The bytes of a program, all writes joined, and the event that reports them. -/
def generate (chunk : ChunkSize) (program : Program) : Except EncodeFault (Bytes × Event) :=
  let delivery := deliver chunk program
  match delivery.total with
  | .error fault => .error fault
  | .ok total => .ok (delivery.writes.flatten, .emitted total program.items.length)

end MachineCode

/-- The wording of an encoding fault. -/
def EncodeFault.message : EncodeFault → String
  | .noEncoding location text => location.text ++ ": no encoding for '" ++ text ++ "'"
  | .unresolved location name =>
    location.text ++ ": symbol '" ++ name ++ "' was not back-patched"
  | .sizeMismatch location emitted kind address size =>
    location.text ++ ": emitted " ++ Text.decimal emitted ++ " bytes for " ++ kind ++ " at $" ++
      Text.hex 4 address ++ ", expected " ++ Text.decimal size
  | .operand .noTarget => "the operand stands for nothing"
  | .operand .wordAsHex => "Unknown format code 'X' for object of type 'str'"
  | .operand .wordAsDecimal => "Unknown format code 'd' for object of type 'str'"
  | .operand .notNumber => "the operand is no number"
  | .operandByte => "byte must be in range(0, 256)"
  | .operandWord => "ushort format requires 0 <= number <= (0x7fff * 2 + 1)"
  | .displacement => "byte format requires -128 <= number <= 127"
  | .runByte => "bytes must be in range(0, 256)"
  | .runLength => Text.lengthLimitMessage
  | .unencodable data => data.message

end Lr35902
