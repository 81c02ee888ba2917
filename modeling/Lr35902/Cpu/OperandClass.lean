import Lr35902.Cpu.Register

/-!
Operand classes. An instruction form names one class per operand; the class fixes how the operand
is written and how many payload bytes it adds after the opcode.
-/
namespace Lr35902

/-- What an operand of a form may be. `highC` is the high-page address held in `c`, `high` a
high-page address given by its offset, and `memory` any address; `vector i` is the restart at
`8 * i`. -/
inductive OperandClass where
  | register (r : Register)
  | pair (p : Pair)
  | condition (k : Condition)
  | highC
  | through (p : Pair)
  | byte
  | word
  | high
  | memory
  | relative
  | bit (i : Fin 8)
  | vector (i : Fin 8)
  deriving DecidableEq

namespace OperandClass

/-- The text of a bit index. -/
def bitText : Fin 8 → String
  | 0 => "0" | 1 => "1" | 2 => "2" | 3 => "3" | 4 => "4" | 5 => "5" | 6 => "6" | 7 => "7"

/-- The text of a restart vector. -/
def vectorText : Fin 8 → String
  | 0 => "$00" | 1 => "$08" | 2 => "$10" | 3 => "$18"
  | 4 => "$20" | 5 => "$28" | 6 => "$30" | 7 => "$38"

/-- The key of a class: how a listing of forms shows it, and how an operand finds its form. -/
def key : OperandClass → String
  | .register r => r.name
  | .pair p => p.name
  | .condition k => k.name
  | .highC => "(c)"
  | .through p => "(" ++ p.name ++ ")"
  | .byte => "n8"
  | .word => "n16"
  | .high => "(n8)"
  | .memory => "(n16)"
  | .relative => "e8"
  | .bit i => bitText i
  | .vector i => vectorText i

/-- The eight bit positions, and the eight restart vectors. -/
def octet : List (Fin 8) := List.finRange 8

/-- Every class, each once. -/
def all : List OperandClass :=
  Register.all.map register ++ Pair.all.map pair ++ Condition.all.map condition ++ [highC] ++
    Pair.all.map through ++ [byte, word, high, memory, relative] ++ octet.map bit ++
    octet.map vector

/-- The class with a given key. -/
def ofKey? (text : String) : Option OperandClass := all.find? fun cls => cls.key == text

/-- The number of payload bytes that an operand of the class adds. -/
def size : OperandClass → Nat
  | .byte | .high | .relative => 1
  | .word | .memory => 2
  | _ => 0

/-- The number of payload bytes that operands of some classes add together. -/
def payloadSize : List OperandClass → Nat
  | [] => 0
  | cls :: rest => cls.size + payloadSize rest

end OperandClass
end Lr35902
