import Lr35902.Cpu.Mnemonic
import Lr35902.Cpu.OperandClass
import Lr35902.Text.Numeral

/-!
The instruction forms: every combination of a mnemonic and operand classes that the processor has,
with its opcode. One table serves both the matching of written operands and the encoding. Its order
is the order in which a listing shows the forms of a mnemonic.
-/
namespace Lr35902

/-- An instruction form: mnemonic, operand classes, and the opcode bytes, which include the byte
that opens the second opcode page. -/
structure Form where
  mnemonic : Mnemonic
  operands : List OperandClass
  opcode : List UInt8
  deriving DecidableEq

namespace Form

/-- The number of payload bytes after the opcode. -/
def payloadSize (form : Form) : Nat := OperandClass.payloadSize form.operands

/-- The number of bytes of an instruction of the form. -/
def size (form : Form) : Nat := form.opcode.length + form.payloadSize

/-- The keys of the operand classes. -/
def keys (form : Form) : List String := form.operands.map OperandClass.key

/-- The operands of the 8-bit grid, in the order in which opcodes count them. -/
def gridOperands : List OperandClass :=
  [.register .b, .register .c, .register .d, .register .e, .register .h, .register .l,
    .through .hl, .register .a]

/-- The opcodes below `0x40`. -/
def lowForms : List Form :=
  [⟨.nop, [], [0x00]⟩,
    ⟨.ld, [.pair .bc, .word], [0x01]⟩,
    ⟨.ld, [.through .bc, .register .a], [0x02]⟩,
    ⟨.inc, [.pair .bc], [0x03]⟩,
    ⟨.inc, [.register .b], [0x04]⟩,
    ⟨.dec, [.register .b], [0x05]⟩,
    ⟨.ld, [.register .b, .byte], [0x06]⟩,
    ⟨.rlca, [], [0x07]⟩,
    ⟨.ld, [.memory, .pair .sp], [0x08]⟩,
    ⟨.add, [.pair .hl, .pair .bc], [0x09]⟩,
    ⟨.ld, [.register .a, .through .bc], [0x0A]⟩,
    ⟨.dec, [.pair .bc], [0x0B]⟩,
    ⟨.inc, [.register .c], [0x0C]⟩,
    ⟨.dec, [.register .c], [0x0D]⟩,
    ⟨.ld, [.register .c, .byte], [0x0E]⟩,
    ⟨.rrca, [], [0x0F]⟩,
    ⟨.stop, [], [0x10, 0x00]⟩,
    ⟨.ld, [.pair .de, .word], [0x11]⟩,
    ⟨.ld, [.through .de, .register .a], [0x12]⟩,
    ⟨.inc, [.pair .de], [0x13]⟩,
    ⟨.inc, [.register .d], [0x14]⟩,
    ⟨.dec, [.register .d], [0x15]⟩,
    ⟨.ld, [.register .d, .byte], [0x16]⟩,
    ⟨.rla, [], [0x17]⟩,
    ⟨.jr, [.relative], [0x18]⟩,
    ⟨.add, [.pair .hl, .pair .de], [0x19]⟩,
    ⟨.ld, [.register .a, .through .de], [0x1A]⟩,
    ⟨.dec, [.pair .de], [0x1B]⟩,
    ⟨.inc, [.register .e], [0x1C]⟩,
    ⟨.dec, [.register .e], [0x1D]⟩,
    ⟨.ld, [.register .e, .byte], [0x1E]⟩,
    ⟨.rra, [], [0x1F]⟩,
    ⟨.jr, [.condition .nz, .relative], [0x20]⟩,
    ⟨.ld, [.pair .hl, .word], [0x21]⟩,
    ⟨.ldi, [.through .hl, .register .a], [0x22]⟩,
    ⟨.inc, [.pair .hl], [0x23]⟩,
    ⟨.inc, [.register .h], [0x24]⟩,
    ⟨.dec, [.register .h], [0x25]⟩,
    ⟨.ld, [.register .h, .byte], [0x26]⟩,
    ⟨.daa, [], [0x27]⟩,
    ⟨.jr, [.condition .z, .relative], [0x28]⟩,
    ⟨.add, [.pair .hl, .pair .hl], [0x29]⟩,
    ⟨.ldi, [.register .a, .through .hl], [0x2A]⟩,
    ⟨.dec, [.pair .hl], [0x2B]⟩,
    ⟨.inc, [.register .l], [0x2C]⟩,
    ⟨.dec, [.register .l], [0x2D]⟩,
    ⟨.ld, [.register .l, .byte], [0x2E]⟩,
    ⟨.cpl, [], [0x2F]⟩,
    ⟨.jr, [.condition .nc, .relative], [0x30]⟩,
    ⟨.ld, [.pair .sp, .word], [0x31]⟩,
    ⟨.ldd, [.through .hl, .register .a], [0x32]⟩,
    ⟨.inc, [.pair .sp], [0x33]⟩,
    ⟨.inc, [.through .hl], [0x34]⟩,
    ⟨.dec, [.through .hl], [0x35]⟩,
    ⟨.ld, [.through .hl, .byte], [0x36]⟩,
    ⟨.scf, [], [0x37]⟩,
    ⟨.jr, [.condition .cr, .relative], [0x38]⟩,
    ⟨.add, [.pair .hl, .pair .sp], [0x39]⟩,
    ⟨.ldd, [.register .a, .through .hl], [0x3A]⟩,
    ⟨.dec, [.pair .sp], [0x3B]⟩,
    ⟨.inc, [.register .a], [0x3C]⟩,
    ⟨.dec, [.register .a], [0x3D]⟩,
    ⟨.ld, [.register .a, .byte], [0x3E]⟩,
    ⟨.ccf, [], [0x3F]⟩]

/-- Moves inside the grid. The place of a move from memory to itself is taken by `halt`, which is
listed first. -/
def moveForms : List Form :=
  ⟨.halt, [], [0x76]⟩ ::
    gridOperands.zipIdx.flatMap fun (target, row) =>
      (gridOperands.zipIdx.filter fun (source, _) =>
          !(target == .through .hl && source == .through .hl)).map
        fun (source, column) => ⟨.ld, [target, source], [(0x40 + 8 * row + column).toUInt8]⟩

/-- The rows of 8-bit arithmetic: some name the accumulator, the others imply it. -/
def arithmeticRows : List (Mnemonic × List OperandClass) :=
  [(.add, [.register .a]), (.adc, [.register .a]), (.sub, []), (.sbc, [.register .a]), (.and, []),
    (.xor, []), (.or, []), (.cp, [])]

/-- Arithmetic on the grid. -/
def arithmeticForms : List Form :=
  arithmeticRows.zipIdx.flatMap fun ((mnemonic, accumulator), row) =>
    gridOperands.zipIdx.map fun (source, column) =>
      ⟨mnemonic, accumulator ++ [source], [(0x80 + 8 * row + column).toUInt8]⟩

/-- The opcodes from `0xC0` on. -/
def highForms : List Form :=
  [⟨.ret, [.condition .nz], [0xC0]⟩,
    ⟨.pop, [.pair .bc], [0xC1]⟩,
    ⟨.jp, [.condition .nz, .word], [0xC2]⟩,
    ⟨.jp, [.word], [0xC3]⟩,
    ⟨.call, [.condition .nz, .word], [0xC4]⟩,
    ⟨.push, [.pair .bc], [0xC5]⟩,
    ⟨.add, [.register .a, .byte], [0xC6]⟩,
    ⟨.rst, [.vector 0], [0xC7]⟩,
    ⟨.ret, [.condition .z], [0xC8]⟩,
    ⟨.ret, [], [0xC9]⟩,
    ⟨.jp, [.condition .z, .word], [0xCA]⟩,
    ⟨.call, [.condition .z, .word], [0xCC]⟩,
    ⟨.call, [.word], [0xCD]⟩,
    ⟨.adc, [.register .a, .byte], [0xCE]⟩,
    ⟨.rst, [.vector 1], [0xCF]⟩,
    ⟨.ret, [.condition .nc], [0xD0]⟩,
    ⟨.pop, [.pair .de], [0xD1]⟩,
    ⟨.jp, [.condition .nc, .word], [0xD2]⟩,
    ⟨.call, [.condition .nc, .word], [0xD4]⟩,
    ⟨.push, [.pair .de], [0xD5]⟩,
    ⟨.sub, [.byte], [0xD6]⟩,
    ⟨.rst, [.vector 2], [0xD7]⟩,
    ⟨.ret, [.condition .cr], [0xD8]⟩,
    ⟨.reti, [], [0xD9]⟩,
    ⟨.jp, [.condition .cr, .word], [0xDA]⟩,
    ⟨.call, [.condition .cr, .word], [0xDC]⟩,
    ⟨.sbc, [.register .a, .byte], [0xDE]⟩,
    ⟨.rst, [.vector 3], [0xDF]⟩,
    ⟨.ldh, [.high, .register .a], [0xE0]⟩,
    ⟨.pop, [.pair .hl], [0xE1]⟩,
    ⟨.ld, [.highC, .register .a], [0xE2]⟩,
    ⟨.ldh, [.highC, .register .a], [0xE2]⟩,
    ⟨.push, [.pair .hl], [0xE5]⟩,
    ⟨.and, [.byte], [0xE6]⟩,
    ⟨.rst, [.vector 4], [0xE7]⟩,
    ⟨.add, [.pair .sp, .byte], [0xE8]⟩,
    ⟨.jp, [.pair .hl], [0xE9]⟩,
    ⟨.jp, [.through .hl], [0xE9]⟩,
    ⟨.ld, [.memory, .register .a], [0xEA]⟩,
    ⟨.xor, [.byte], [0xEE]⟩,
    ⟨.rst, [.vector 5], [0xEF]⟩,
    ⟨.ldh, [.register .a, .high], [0xF0]⟩,
    ⟨.pop, [.pair .af], [0xF1]⟩,
    ⟨.ld, [.register .a, .highC], [0xF2]⟩,
    ⟨.ldh, [.register .a, .highC], [0xF2]⟩,
    ⟨.di, [], [0xF3]⟩,
    ⟨.push, [.pair .af], [0xF5]⟩,
    ⟨.or, [.byte], [0xF6]⟩,
    ⟨.rst, [.vector 6], [0xF7]⟩,
    ⟨.ldhl, [.pair .sp, .byte], [0xF8]⟩,
    ⟨.ld, [.pair .sp, .pair .hl], [0xF9]⟩,
    ⟨.ld, [.register .a, .memory], [0xFA]⟩,
    ⟨.ei, [], [0xFB]⟩,
    ⟨.cp, [.byte], [0xFE]⟩,
    ⟨.rst, [.vector 7], [0xFF]⟩]

/-- The mnemonics of the rotate and shift rows of the second page. -/
def rotateRows : List Mnemonic := [.rlc, .rrc, .rl, .rr, .sla, .sra, .swap, .srl]

/-- Rotates and shifts, on the second opcode page. -/
def rotateForms : List Form :=
  rotateRows.zipIdx.flatMap fun (mnemonic, row) =>
    gridOperands.zipIdx.map fun (target, column) =>
      ⟨mnemonic, [target], [0xCB, (8 * row + column).toUInt8]⟩

/-- The mnemonics of the single-bit operations. -/
def bitRows : List Mnemonic := [.bit, .res, .set]

/-- Single-bit operations, on the second opcode page. -/
def bitForms : List Form :=
  bitRows.zipIdx.flatMap fun (mnemonic, group) =>
    OperandClass.octet.flatMap fun i =>
      gridOperands.zipIdx.map fun (target, column) =>
        ⟨mnemonic, [.bit i, target], [0xCB, (0x40 * (group + 1) + 8 * i.val + column).toUInt8]⟩

/-- Every form. -/
def table : List Form :=
  lowForms ++ moveForms ++ arithmeticForms ++ highForms ++ rotateForms ++ bitForms

/-- The forms of the mnemonic that a text spells, none if it spells no mnemonic. -/
def ofName (text : String) : List Form :=
  match Mnemonic.ofName? text with
  | some mnemonic => table.filter fun form => form.mnemonic == mnemonic
  | none => []

/-- The form of a mnemonic with given operand classes. -/
def find? (mnemonic : Mnemonic) (operands : List OperandClass) : Option Form :=
  table.find? fun form => form.mnemonic == mnemonic && form.operands == operands

/-- The form of a mnemonic with given operand keys, all as texts. -/
def lookup? (mnemonic : String) (keys : List String) : Option Form :=
  match Mnemonic.ofName? mnemonic, keys.mapM OperandClass.ofKey? with
  | some m, some operands => find? m operands
  | _, _ => none

/-- How a form or an instruction is written: the mnemonic, then the operands between commas. -/
def text (mnemonic : String) (operands : List String) : String :=
  match operands with
  | [] => mnemonic
  | _ => mnemonic ++ " " ++ ", ".intercalate operands

/-- How a listing shows the form. -/
def display (form : Form) : String := text form.mnemonic.name form.keys

/-- Two hexadecimal digits of a byte. -/
def byteText (b : UInt8) : String := Text.hex 2 b.toNat

/-- How a listing shows the encoding of the form. -/
def encodingText (form : Form) : String :=
  "InstructionInfo(opcode=" ++ " ".intercalate (form.opcode.map byteText) ++ ", size=" ++
    Text.decimalNat form.size ++ ")"

end Form
end Lr35902
