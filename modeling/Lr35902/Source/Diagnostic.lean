import Lr35902.Text.Length
import Lr35902.Token.Basic

/-!
Diagnostics: what is wrong with a source text, where, and how to mend it. A cause says what is wrong
and has one wording; a diagnostic adds the place, the quoted line and a hint.
-/
namespace Lr35902

/-- The notations of numeric literals. -/
inductive Radix where
  | binary | octal | decimal | hexadecimal
  deriving DecidableEq

/-- What the grammar asks for at some point of a statement. -/
inductive Expectation where
  | operand | closingParen | comma | string | byteValue | fillCount | targetAddress | constantName
  | constantValue | fileName | endOfLine
  deriving DecidableEq

/-- A value as messages name it: alone, or with the symbol it came from. -/
structure Referent where
  symbol : Option String
  value : Int
  deriving DecidableEq

/-- Why a file could not be included. -/
inductive InclusionFault where
  | notFound
  | circular (chain : List String)
  | unreadable (reason : String)
  deriving DecidableEq

/-- The families of diagnostics. -/
inductive DiagnosticKind where
  | general | lexical | grammar | range | unresolved | duplicate | inclusion | circular
  deriving DecidableEq

/-- What is wrong. -/
inductive Cause where
  /- Lexical causes. -/
  | unexpectedCharacter (c : Char)
  | missingDirectiveName
  | unknownDirective (name : String)
  | malformedLiteral (radix : Radix)
  | missingDigits (radix : Radix)
  | wideLiteral (value : Nat)
  | unterminatedString
  /- Statements that do not follow the grammar. -/
  | unexpectedStart (found : Lexeme)
  | expected (what : Expectation) (found : Option Lexeme)
  | missingOperand
  | emptyParentheses
  | wrongArity (mnemonic : String) (arities : List Nat) (given : Nat)
  | noMatchingForm (mnemonic : String)
  /- Values out of range. -/
  | operandOutOfRange (value : Int) (mnemonic : String)
  | wideByte (value : Int)
  | wideImmediate (referent : Referent)
  | outsideHighPage (referent : Referent)
  | unreachable (referent : Referent) (offset : Int)
  | nonAsciiText (directive : String)
  | originBehind (target location : Int)
  | labelBeyondMemory (name : String) (address : Int)
  | outputBeyondMemory (stop size : Int)
  | wideSymbol (name : String) (value : Int)
  /- Names and files. -/
  | unresolvedSymbol (name : String) (similar : List String)
  | duplicateSymbol (name : String) (first : Option Location)
  | inclusion (file : String) (fault : InclusionFault) (searched : List String)
  /- A cause that is told in words only. -/
  | told (kind : DiagnosticKind) (message : String)
  deriving DecidableEq

/-- A cause with its place, if it has one, a hint, and the source line to quote. -/
structure Diagnostic where
  cause : Cause
  location : Option Location
  hint : Option String
  sourceLine : Option String
  deriving DecidableEq

namespace Radix

def name : Radix → String
  | .binary => "binary" | .octal => "octal" | .decimal => "decimal" | .hexadecimal => "hexadecimal"

def base : Radix → Nat
  | .binary => 2 | .octal => 8 | .decimal => 10 | .hexadecimal => 16

end Radix

/-- The wording of an expectation. -/
def Expectation.text : Expectation → String
  | .operand => "operand"
  | .closingParen => "')'"
  | .comma => "','"
  | .string => "string"
  | .byteValue => "byte value"
  | .fillCount => "fill count"
  | .targetAddress => "target address"
  | .constantName => "constant name"
  | .constantValue => "constant value"
  | .fileName => "file name"
  | .endOfLine => "end of line"

/-- The wording of a referent. A symbol without a name is shown by its value alone. -/
def Referent.text (referent : Referent) : String :=
  match referent.symbol with
  | none | some "" => "$" ++ Text.hex 0 referent.value
  | some name => "'" ++ name ++ "' ($" ++ Text.hex 4 referent.value ++ ")"

/-- The wording of a failed inclusion. -/
def InclusionFault.text : InclusionFault → String
  | .notFound => "file not found"
  | .circular chain => "circular include (" ++ " -> ".intercalate chain ++ ")"
  | .unreadable reason => reason

namespace Cause

/-- The family of a cause. -/
def kind : Cause → DiagnosticKind
  | .unexpectedCharacter _ | .missingDirectiveName | .unknownDirective _ | .malformedLiteral _
  | .missingDigits _ | .wideLiteral _ | .unterminatedString => .lexical
  | .unexpectedStart _ | .expected _ _ | .missingOperand | .emptyParentheses | .wrongArity _ _ _
  | .noMatchingForm _ => .grammar
  | .operandOutOfRange _ _ | .wideByte _ | .wideImmediate _ | .outsideHighPage _
  | .unreachable _ _ | .nonAsciiText _ | .originBehind _ _ | .labelBeyondMemory _ _
  | .outputBeyondMemory _ _ | .wideSymbol _ _ => .range
  | .unresolvedSymbol _ _ => .unresolved
  | .duplicateSymbol _ _ => .duplicate
  | .inclusion _ (.circular _) _ => .circular
  | .inclusion _ _ _ => .inclusion
  | .told kind _ => kind

/-- The wording of a cause. -/
def message : Cause → String
  | .unexpectedCharacter c => "unexpected character '" ++ String.singleton c ++ "'"
  | .missingDirectiveName => "expected directive name after '.'"
  | .unknownDirective name => "unknown directive '" ++ name ++ "'"
  | .malformedLiteral radix => "malformed " ++ radix.name ++ " literal"
  | .missingDigits radix => "expected " ++ radix.name ++ " digits"
  | .wideLiteral value =>
    "numeric literal " ++ Text.decimalNat value ++ " does not fit in 16 bits"
  | .unterminatedString => "unterminated string literal"
  | .unexpectedStart found => "unexpected " ++ found.describe ++ " at start of statement"
  | .expected what none => "expected " ++ what.text ++ ", found end of input"
  | .expected what (some found) => "expected " ++ what.text ++ ", found " ++ found.describe
  | .missingOperand => "expected operand"
  | .emptyParentheses => "expected register, address or label inside parentheses"
  | .wrongArity mnemonic arities given =>
    "'" ++ mnemonic ++ "' takes " ++ " or ".intercalate (arities.map Text.decimalNat) ++
      " operand(s), got " ++ Text.decimalNat given
  | .noMatchingForm mnemonic => "invalid operands for '" ++ mnemonic ++ "'"
  | .operandOutOfRange value mnemonic =>
    "value " ++ Text.decimal value ++ " is out of range for '" ++ mnemonic ++ "'"
  | .wideByte value => "byte value " ++ Text.decimal value ++ " does not fit in 8 bits"
  | .wideImmediate referent => "value " ++ referent.text ++ " does not fit in 8 bits"
  | .outsideHighPage referent =>
    "address " ++ referent.text ++ " is not in the high page ($FF00-$FFFF)"
  | .unreachable referent offset =>
    "relative jump to " ++ referent.text ++ " is out of range (offset " ++ Text.decimal offset ++
      ")"
  | .nonAsciiText directive => directive ++ " string contains non-ASCII characters"
  | .originBehind target location =>
    ".org $" ++ Text.hex 4 target ++ " is behind the current location $" ++ Text.hex 4 location
  | .labelBeyondMemory name address =>
    "label '" ++ name ++ "' at $" ++ Text.hex 0 address ++ " is beyond the 16-bit address space"
  | .outputBeyondMemory stop _ =>
    "output ends at $" ++ Text.hex 0 stop ++ ", beyond the 16-bit address space"
  | .wideSymbol name value =>
    "value $" ++ Text.hex 0 value ++ " of '" ++ name ++ "' does not fit in 16 bits"
  | .unresolvedSymbol name _ => "unresolved symbol '" ++ name ++ "'"
  | .duplicateSymbol name _ => "duplicate symbol '" ++ name ++ "'"
  | .inclusion file fault _ => "cannot include '" ++ file ++ "': " ++ fault.text
  | .told _ message => message

/-- The numbers that a cause and its hint write in decimal. -/
def decimals : Cause → List Int
  | .wideLiteral value => [value]
  | .unexpectedStart (.number value) | .expected _ (some (.number value)) => [value]
  | .operandOutOfRange value _ | .wideByte value => [value]
  | .unreachable _ offset => [offset]
  | .outputBeyondMemory _ size => [size]
  | _ => []

end Cause

/-- Why a diagnostic cannot be put into words: a number has too many digits, or the caret stands too
far to the right. -/
inductive Obstacle where
  | longNumber
  | farCaret
  deriving DecidableEq

/-- The wording of an obstacle. -/
def Obstacle.message : Obstacle → String
  | .longNumber => Text.decimalLimitMessage
  | .farCaret => Text.lengthLimitMessage

namespace Diagnostic

/-- A reference to a name that is never defined. Without a hint of its own, up to three similar
names are suggested. -/
def unresolved (name : String) (location : Option Location) (sourceLine : Option String)
    (similar : List String) (hint : Option String) : Diagnostic :=
  let hint :=
    if (hint.getD "").isEmpty && !similar.isEmpty then
      some ("did you mean " ++ ", ".intercalate ((similar.take 3).map fun s => "'" ++ s ++ "'") ++
        "?")
    else hint
  ⟨.unresolvedSymbol name similar, location, hint, sourceLine⟩

/-- A second definition of a name; the hint points at the first. -/
def duplicate (name : String) (location : Option Location) (first : Option Location)
    (sourceLine : Option String) : Diagnostic :=
  ⟨.duplicateSymbol name first, location,
    first.map fun place => "'" ++ name ++ "' was first defined at " ++ place.text, sourceLine⟩

/-- A file that cannot be included; the hint lists the directories that were searched. -/
def inclusion (file : String) (fault : InclusionFault) (location : Option Location)
    (sourceLine : Option String) (searched : List String) : Diagnostic :=
  ⟨.inclusion file fault searched, location,
    match searched with
    | [] => none
    | _ => some ("searched in: " ++ ", ".intercalate searched),
    sourceLine⟩

/-- The first line of a diagnostic. -/
def heading (d : Diagnostic) : String :=
  match d.location with
  | some location => location.text ++ ": error: " ++ d.cause.message
  | none => "error: " ++ d.cause.message

/-- The quoted source line, and a caret below the column of the place if it has one. -/
def quotation (d : Diagnostic) : List String :=
  match d.sourceLine, d.location with
  | some line, some location =>
    let quote := "    " ++ line
    if 0 < location.column then
      [quote, String.ofList (List.replicate (3 + location.column.toNat) ' ') ++ "^"]
    else [quote]
  | _, _ => []

/-- What keeps a diagnostic from being put into words, if anything does. -/
def obstacle? (d : Diagnostic) : Option Obstacle :=
  let place :=
    match d.location with
    | some location => [location.line, location.column]
    | none => []
  if (d.cause.decimals ++ place).any Text.exceedsDecimalLimit then some .longNumber
  else
    match d.sourceLine, d.location with
    | some _, some location =>
      if Text.lengthLimit < 3 + location.column then some .farCaret else none
    | _, _ => none

/-- The hint line. -/
def hintLine (d : Diagnostic) : List String :=
  match d.hint with
  | none | some "" => []
  | some hint => ["hint: " ++ hint]

/-- The whole text of a diagnostic. -/
def render (d : Diagnostic) : String :=
  "\n".intercalate (d.heading :: (d.quotation ++ d.hintLine))

end Diagnostic
end Lr35902
