import Lr35902.Text.Blank
import Lr35902.Text.Numeral

/-!
Integers as people type them: blanks around, a sign, digits of any script, single underscores
between digits, and for bases sixteen and two an optional prefix of the base's own.
-/
namespace Lr35902.Text

/-- Whether a character may stand before or after a typed integer. The separators of records are
blank elsewhere, but not here. -/
def isIntegerBlank (c : Char) : Bool :=
  if c.toNat < 0x7F then inRanges [(0x09, 0x0D), (0x20, 0x20)] c.toNat else isBlank c

/-- A decimal digit of another script as one of the ten digits; other characters stay. -/
def asciiDigit (c : Char) : Char :=
  if c.toNat < 0x7F then c
  else
    match decimalValue? c with
    | some value => digitChar value
    | none => c

/-- The digits after the prefix of a base, if they have one. One underscore may follow it. -/
def afterPrefix (base : Nat) (cs : List Char) : List Char :=
  match cs with
  | '0' :: letter :: rest =>
    if (base = 16 ∧ (letter = 'x' ∨ letter = 'X')) ∨ (base = 2 ∧ (letter = 'b' ∨ letter = 'B')) then
      match rest with
      | '_' :: digits => digits
      | _ => rest
    else cs
  | _ => cs

/-- Whether underscores stand only between digits. -/
def underscoresApart : List Char → Bool
  | [] => true
  | ['_'] => false
  | '_' :: '_' :: _ => false
  | _ :: rest => underscoresApart rest

/-- The number that unsigned text denotes in a base. Decimal text has a longest length. -/
def readUnsigned? (base : Nat) (cs : List Char) : Option Nat :=
  let body := afterPrefix base cs
  let run := body.takeWhile fun c => c == '_' || decide (digitValue c < base)
  let digits := run.filter (· != '_')
  if digits.isEmpty || run.head? == some '_' || !underscoresApart run then none
  else if base = 10 ∧ decimalLimit < digits.length then none
  else if (body.drop run.length).all isIntegerBlank then some (valueOf base digits)
  else none

/-- The integer that a text denotes in a base. -/
def readInteger? (base : Nat) (text : List Char) : Option Int :=
  match (text.dropWhile isIntegerBlank).map asciiDigit with
  | '-' :: rest => (readUnsigned? base rest).map fun n => -(n : Int)
  | '+' :: rest => (readUnsigned? base rest).map Int.ofNat
  | cs => (readUnsigned? base cs).map Int.ofNat

end Lr35902.Text
