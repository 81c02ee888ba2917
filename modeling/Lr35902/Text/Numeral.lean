import Lr35902.Text.Digit

/-!
Numbers as text: decimal and hexadecimal notation of integers, the value of a run of digits, and
the longest decimal text that a number may have.
-/
namespace Lr35902.Text

/-- The digit of value `d`, capital letters from ten on. -/
def digitChar (d : Nat) : Char :=
  if d < 10 then Char.ofNat (0x30 + d) else Char.ofNat (0x41 + (d - 10))

/-- The digits of `n` in a base, most significant first, without leading zeros; zero is `0`. -/
def digits (base n : Nat) : List Char :=
  if base < 2 ∨ n < base then [digitChar n]
  else digits base (n / base) ++ [digitChar (n % base)]
termination_by n
decreasing_by exact Nat.div_lt_self (by omega) (by omega)

/-- `n` in decimal notation. -/
def decimalNat (n : Nat) : String := String.ofList (digits 10 n)

/-- An integer in decimal notation, a minus sign before a negative one. -/
def decimal (v : Int) : String :=
  if v < 0 then "-" ++ decimalNat v.natAbs else decimalNat v.natAbs

/-- An integer in decimal notation with its sign always written. -/
def signedDecimal (v : Int) : String :=
  if v < 0 then decimal v else "+" ++ decimal v

/-- An integer in hexadecimal, filled with zeros after the sign up to `width` characters, the sign
included. -/
def hex (width : Nat) (v : Int) : String :=
  let sign := if v < 0 then ['-'] else []
  let body := digits 16 v.natAbs
  String.ofList (sign ++ List.replicate (width - sign.length - body.length) '0' ++ body)

/-- The value of a digit or letter as a digit of a base up to sixteen, and sixteen for any other
character. -/
def digitValue (c : Char) : Nat :=
  let n := c.toNat
  if 0x30 ≤ n ∧ n ≤ 0x39 then n - 0x30
  else if 0x41 ≤ n ∧ n ≤ 0x46 then n - 0x41 + 10
  else if 0x61 ≤ n ∧ n ≤ 0x66 then n - 0x61 + 10
  else 16

/-- The number that a run of digits denotes. -/
def valueOf (base : Nat) (cs : List Char) : Nat :=
  cs.foldl (fun n c => n * base + digitValue c) 0

/-- The most digits that decimal text may have, read or written. -/
def decimalLimit : Nat := 4300

/-- Whether the decimal text of a number would be longer than the limit. -/
def exceedsDecimalLimit (v : Int) : Bool := decide (Nat.pow 10 decimalLimit ≤ v.natAbs)

/-- What is said of a number whose decimal text would be longer than the limit. -/
def decimalLimitMessage : String :=
  "Exceeds the limit (4300 digits) for integer string conversion; " ++
    "use sys.set_int_max_str_digits() to increase the limit"

end Lr35902.Text
