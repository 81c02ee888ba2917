import Lr35902.Cpu.Form
import Lr35902.Program.Operand
import Lr35902.Text.CodePoint
import Lr35902.Text.Utf8

/-!
Items: the pieces of a laid-out program. Each has a place in the source, an address, and a size that
is known before it is encoded.
-/
namespace Lr35902

/-- How the text of a string directive becomes bytes. -/
inductive TextEncoding where
  | ascii | asciz | utf8
  deriving DecidableEq

/-- Whether an encoding has bytes for a code point: only UTF-8 takes characters beyond ASCII, and no
encoding takes surrogates. -/
def TextEncoding.takes (encoding : TextEncoding) : CodePoint → Bool
  | .char c => encoding == .utf8 || decide (c.toNat < 0x80)
  | .surrogate _ => false

/-- Whether a text can be encoded. -/
def TextEncoding.accepts (encoding : TextEncoding) (literal : StringLiteral) : Bool :=
  literal.points.all encoding.takes

/-- A text that its encoding accepts. -/
structure StringData where
  text : String
  encoding : TextEncoding
  accepted : encoding.accepts (.text text) = true
  deriving DecidableEq

/-- A text that its encoding refuses. -/
structure RefusedString where
  literal : StringLiteral
  encoding : TextEncoding
  refused : encoding.accepts literal = false
  deriving DecidableEq

/-- What an item puts into the output. Constants, inclusions and markers put nothing there; a text
that its encoding refuses, in an item made by hand, cannot be put there. -/
inductive Content where
  | instruction (mnemonic : String) (operands : List Operand) (size : Int)
  | bytes (data : Bytes)
  | string (data : StringData)
  | refusedString (data : RefusedString)
  | fill (count value : Int)
  | pad (target value : Int)
  | constant (name : String) (value : Int)
  | inclusion (file : String)
  | marker
  deriving DecidableEq

/-- A piece of a program. -/
structure Item where
  location : Location
  address : Int
  content : Content
  deriving DecidableEq

/-- No encoding accepts a surrogate. -/
theorem BrokenText.accepts_eq_false (text : BrokenText) (encoding : TextEncoding) :
    encoding.accepts (.broken text) = false := by
  obtain ⟨point, hMem, hSurrogate⟩ := List.any_eq_true.1 text.broken
  refine List.all_eq_false.2 ⟨point, hMem, ?_⟩
  cases point with
  | char c => cases hSurrogate
  | surrogate index => exact Bool.false_ne_true

namespace RefusedString

/-- How a message shows a code point: by its number. -/
def escape (point : CodePoint) : List Char :=
  if point.toNat < 0x100 then '\\' :: 'x' :: Text.smallHex 2 point.toNat
  else if point.toNat < 0x10000 then '\\' :: 'u' :: Text.smallHex 4 point.toNat
  else '\\' :: 'U' :: Text.smallHex 8 point.toNat

/-- The name of an encoding, and what a code point must be for it. -/
def rule : TextEncoding → String × String
  | .utf8 => ("utf-8", "surrogates not allowed")
  | .ascii | .asciz => ("ascii", "ordinal not in range(128)")

/-- The wording of the refusal: it tells where the first code points stand that are refused. -/
def message (data : RefusedString) : String :=
  let taken := data.literal.points.takeWhile data.encoding.takes
  let culprits := (data.literal.points.drop taken.length).takeWhile fun point =>
    !data.encoding.takes point
  let (name, reason) := rule data.encoding
  let place :=
    match culprits with
    | [point] =>
      "character '" ++ String.ofList (escape point) ++ "' in position " ++
        Text.decimalNat taken.length
    | _ =>
      "characters in position " ++ Text.decimalNat taken.length ++ "-" ++
        Text.decimalNat (taken.length + culprits.length - 1)
  "'" ++ name ++ "' codec can't encode " ++ place ++ ": " ++ reason

end RefusedString

/-- A text with its encoding, which accepts or refuses it. -/
def TextEncoding.apply (encoding : TextEncoding) : StringLiteral → Except RefusedString StringData
  | .text text =>
    if accepted : encoding.accepts (.text text) = true then .ok ⟨text, encoding, accepted⟩
    else .error ⟨.text text, encoding, Bool.eq_false_iff.2 accepted⟩
  | .broken text => .error ⟨.broken text, encoding, text.accepts_eq_false encoding⟩

namespace StringData

/-- The bytes of the text. One of the encodings ends it with a zero. -/
def payload (data : StringData) : Bytes :=
  let bytes := Utf8.encode data.text.toList
  if data.encoding = .asciz then bytes ++ [0] else bytes

end StringData

namespace Item

/-- The number of bytes that an item takes. Padding reaches from the item's address to its target. A
text that its encoding refuses has no bytes. -/
def size (item : Item) : Int :=
  match item.content with
  | .instruction _ _ size => size
  | .bytes data => data.length
  | .string data => data.payload.length
  | .fill count _ => count
  | .pad target _ => target - item.address
  | .refusedString _ | .constant _ _ | .inclusion _ | .marker => 0

/-- The name of an item's kind, as messages show it. -/
def kindName (item : Item) : String :=
  match item.content with
  | .instruction _ _ _ => "Instruction"
  | .bytes _ => "ByteData"
  | .string _ | .refusedString _ => "StringData"
  | .fill _ _ => "Fill"
  | .pad _ _ => "Pad"
  | .constant _ _ => "Constant"
  | .inclusion _ => "Include"
  | .marker => "Directive"

end Item

/-- How operands are written. -/
def operandTexts? : List Operand → Except OperandFault (List String)
  | [] => .ok []
  | operand :: rest =>
    match operand.text? with
    | .error fault => .error fault
    | .ok text =>
      match operandTexts? rest with
      | .error fault => .error fault
      | .ok texts => .ok (text :: texts)

/-- How an instruction is written. -/
def instructionText? (mnemonic : String) (operands : List Operand) :
    Except OperandFault String :=
  match operandTexts? operands with
  | .ok texts => .ok (Form.text mnemonic texts)
  | .error fault => .error fault

end Lr35902
