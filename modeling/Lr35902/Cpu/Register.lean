/-!
Registers, register pairs and branch conditions of the processor, with the names that source text
uses for them.
-/
namespace Lr35902

/-- An 8-bit register. -/
inductive Register where
  | a | b | c | d | e | h | l
  deriving DecidableEq

/-- A 16-bit register. -/
inductive Pair where
  | af | bc | de | hl | sp | pc
  deriving DecidableEq

/-- A condition that a jump, call or return may test; `cr` is carry. -/
inductive Condition where
  | nz | z | nc | cr
  deriving DecidableEq

namespace Register

def name : Register → String
  | .a => "a" | .b => "b" | .c => "c" | .d => "d" | .e => "e" | .h => "h" | .l => "l"

def all : List Register := [.a, .b, .c, .d, .e, .h, .l]

end Register

namespace Pair

def name : Pair → String
  | .af => "af" | .bc => "bc" | .de => "de" | .hl => "hl" | .sp => "sp" | .pc => "pc"

def all : List Pair := [.af, .bc, .de, .hl, .sp, .pc]

end Pair

namespace Condition

def name : Condition → String
  | .nz => "nz" | .z => "z" | .nc => "nc" | .cr => "cr"

def all : List Condition := [.nz, .z, .nc, .cr]

end Condition

/-- The names of flags. The subtract and half-carry flags are named, but nothing branches on
them. -/
def flagNames : List String := ["z", "nz", "n", "hc", "cr", "nc"]

end Lr35902
