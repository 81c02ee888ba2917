import Lr35902.Cpu.Form
import Lr35902.Program.Operand
import Lr35902.Source.Diagnostic

/-!
Written operands and the choice of an instruction form. A written operand fits an operand class, or
has the right shape but a value out of range, or does not match; the form of a statement is the one
whose classes all its operands fit.
-/
namespace Lr35902

/-- An operand as it is written: bare or in parentheses, a word or a number. -/
inductive Written where
  | register (name : String)
  | pair (name : String)
  | flag (name : String)
  | number (value : Int)
  | name (name : String)
  | indirect (register : String)
  | indirectPair (pair : String)
  | address (value : Int)
  | addressName (name : String)
  deriving DecidableEq

/-- A written operand and where it stands. -/
structure WrittenOperand where
  written : Written
  location : Location
  deriving DecidableEq

/-- How well a written operand suits an operand class. -/
inductive Fit where
  | fits
  | mismatch
  | outOfRange
  deriving DecidableEq

/-- The offset of an address in the high page, which may be given as an offset or in full. -/
def highOffset? (value : Int) : Option Int :=
  if value ≤ 0xFF then some value
  else if highPage ≤ value then some (value - highPage)
  else none

/-- Fitting exactly if a condition holds. -/
def Fit.when (condition : Bool) : Fit := if condition then .fits else .mismatch

namespace Written

/-- How well a written operand suits a class. The register `c` also stands for the carry
condition. -/
def fit (written : Written) (cls : OperandClass) : Fit :=
  match cls, written with
  | .register r, .register word => .when (word == r.name)
  | .pair p, .pair word => .when (word == p.name)
  | .condition k, .flag word => .when (word == k.name)
  | .condition .cr, .register word => .when (word == Register.c.name)
  | .highC, .indirect word => .when (word == Register.c.name)
  | .through p, .indirectPair word => .when (word == p.name)
  | .byte, .number value => if 0xFF < value then .outOfRange else .fits
  | .byte, .name _ | .word, .number _ | .word, .name _ | .relative, .number _
  | .relative, .name _ | .memory, .address _ | .memory, .addressName _ | .high, .addressName _ =>
    .fits
  | .high, .address value => if (highOffset? value).isNone then .outOfRange else .fits
  | .bit i, .number value => if 7 < value then .outOfRange else .when (value == i.val)
  | .vector i, .number value =>
    if OperandClass.octet.any fun j => value == 8 * j.val then .when (value == 8 * i.val)
    else .outOfRange
  | _, _ => .mismatch

/-- The number in a written operand. -/
def value? : Written → Option Int
  | .number value | .address value => some value
  | _ => none

end Written

namespace Form

/-- How well written operands suit the operand classes of a form, one by one; nothing if their
numbers differ. -/
def fits? (form : Form) (operands : List WrittenOperand) : Option (List Fit) :=
  if form.operands.length = operands.length then
    some (List.zipWith (fun operand cls => operand.written.fit cls) operands form.operands)
  else none

/-- Whether every operand fits. -/
def accepts (form : Form) (operands : List WrittenOperand) : Bool :=
  match form.fits? operands with
  | some fits => fits.all (· == .fits)
  | none => false

/-- The first operand whose value is out of range, if the operands otherwise fit the form. -/
def culprit? (form : Form) (operands : List WrittenOperand) : Option WrittenOperand :=
  match form.fits? operands with
  | some fits =>
    if fits.contains .mismatch then none
    else ((operands.zip fits).find? fun pair => pair.2 == .outOfRange).map Prod.fst
  | none => none

/-- The numbers of operands that some of the forms take, in increasing order. -/
def arities (forms : List Form) : List Nat :=
  (List.range 3).filter fun n => forms.any fun form => form.operands.length == n

/-- How many forms a hint lists. -/
def listingLimit : Nat := 8

/-- A hint that lists forms, and says how many there are if it leaves some out. -/
def listing (forms : List Form) : String :=
  let shown := (forms.take listingLimit).map display
  let more :=
    if listingLimit < forms.length then ["... (" ++ Text.decimalNat forms.length ++ " forms)"]
    else []
  "valid forms: " ++ "; ".intercalate (shown ++ more)

/-- The form that written operands choose among the forms of a mnemonic. Otherwise the cause: an
operand out of range, a wrong number of operands, or no form that matches. -/
def select (mnemonic : String) (operands : List WrittenOperand) (location : Location) :
    Except (Cause × Location × Option String) Form :=
  let forms := ofName mnemonic
  match forms.find? fun form => form.accepts operands with
  | some form => .ok form
  | none =>
    match forms.findSome? fun form => form.culprit? operands with
    | some culprit =>
      .error (.operandOutOfRange (culprit.written.value?.getD 0) mnemonic, culprit.location, none)
    | none =>
      let cause : Cause :=
        if (arities forms).contains operands.length then .noMatchingForm mnemonic
        else .wrongArity mnemonic (arities forms) operands.length
      .error (cause, (operands.head?.map WrittenOperand.location).getD location,
        some (listing forms))

end Form
end Lr35902
