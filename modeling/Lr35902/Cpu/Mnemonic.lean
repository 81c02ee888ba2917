/-!
The mnemonics of the instruction set.
-/
namespace Lr35902

/-- A mnemonic. -/
inductive Mnemonic where
  | adc | add | and | bit | call | ccf | cp | cpl | daa | dec | di | ei
  | halt | inc | jp | jr | ld | ldd | ldh | ldhl | ldi | nop | or | pop
  | push | res | ret | reti | rl | rla | rlc | rlca | rr | rra | rrc | rrca
  | rst | sbc | scf | set | sla | sra | srl | stop | sub | swap | xor
  deriving DecidableEq

namespace Mnemonic

/-- The spelling of a mnemonic, always in small letters. -/
def name : Mnemonic → String
  | .adc => "adc" | .add => "add" | .and => "and" | .bit => "bit"
  | .call => "call" | .ccf => "ccf" | .cp => "cp" | .cpl => "cpl"
  | .daa => "daa" | .dec => "dec" | .di => "di" | .ei => "ei"
  | .halt => "halt" | .inc => "inc" | .jp => "jp" | .jr => "jr"
  | .ld => "ld" | .ldd => "ldd" | .ldh => "ldh" | .ldhl => "ldhl"
  | .ldi => "ldi" | .nop => "nop" | .or => "or" | .pop => "pop"
  | .push => "push" | .res => "res" | .ret => "ret" | .reti => "reti"
  | .rl => "rl" | .rla => "rla" | .rlc => "rlc" | .rlca => "rlca"
  | .rr => "rr" | .rra => "rra" | .rrc => "rrc" | .rrca => "rrca"
  | .rst => "rst" | .sbc => "sbc" | .scf => "scf" | .set => "set"
  | .sla => "sla" | .sra => "sra" | .srl => "srl" | .stop => "stop"
  | .sub => "sub" | .swap => "swap" | .xor => "xor"

def all : List Mnemonic :=
  [.adc, .add, .and, .bit, .call, .ccf, .cp, .cpl, .daa, .dec, .di, .ei,
    .halt, .inc, .jp, .jr, .ld, .ldd, .ldh, .ldhl, .ldi, .nop, .or, .pop,
    .push, .res, .ret, .reti, .rl, .rla, .rlc, .rlca, .rr, .rra, .rrc, .rrca,
    .rst, .sbc, .scf, .set, .sla, .sra, .srl, .stop, .sub, .swap, .xor]

/-- The mnemonic that a text spells. -/
def ofName? (text : String) : Option Mnemonic := all.find? fun m => m.name == text

end Mnemonic
end Lr35902
