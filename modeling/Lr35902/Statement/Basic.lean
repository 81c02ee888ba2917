import Lr35902.Program.Item
import Lr35902.Text.Case
import Lr35902.Statement.Written

/-!
Statements and their grammar. A statement is read from the tokens in front; what remains starts
after its line end. Reading depends on nothing but the tokens: where a statement is placed, and what
its names stand for, is settled afterwards.

The operations of the parser and what stands for them here:
* telling what a statement begins with, and objecting to anything else: `readCommand`, `startHint`;
* asking for a token of some type, for a number, for a byte: `expect`, `number?`, `readByte`;
* asking for the end of a statement: `finish`;
* taking the operands of an instruction and selecting its form: `readOperand`, `readList` and
  `readInstruction`;
* taking the arguments of a directive, one reader for each kind: `readDirective`.
What these do to the program, once the statement is read, is in `Assembly.State`.
-/
namespace Lr35902

/-- What a statement asks for. `blank` is a line end that ends no statement, and `endInclude` the
end of an included file. -/
inductive Command where
  | blank
  | endInclude (file : FileMark)
  | label (name : String)
  | instruction (mnemonic : String) (form : Form) (operands : List WrittenOperand)
  | bytes (data : Bytes)
  | string (data : StringData)
  | fill (count value : Int)
  | origin (target : Int) (targetLocation : Location) (value : Int)
  | constant (name : String) (nameLocation : Location) (value : Int)
  | use (file : String) (fileLocation : Location)
  | sectionMark (name : String)
  deriving DecidableEq

/-- A command and the place where its statement starts. -/
structure Statement where
  location : Location
  command : Command
  deriving DecidableEq

namespace Statement

/-- Why no statement can be read: the tokens do not follow the grammar, a string holds a surrogate
where bytes are needed, or tokens made by hand hold a directive that does not exist or a byte below
zero. -/
inductive Fault where
  | rejected (cause : Cause) (location : Location) (hint : Option String)
  | unencodable (data : RefusedString)
  | unknownDirective (name : String)
  | negativeByte
  deriving DecidableEq

/-- The tokens ahead, and the place of the last token taken. -/
structure Ahead where
  last : Location
  tokens : List Token

/-- A function that takes one thing, and at least one token, from the tokens ahead. -/
structure Reader (α : Type) where
  read : Ahead → Except Fault (α × Ahead)
  shrinks : ∀ ahead a rest, read ahead = .ok (a, rest) → rest.tokens.length < ahead.tokens.length

/-- Takes the next token if it is what the grammar expects. The end of the tokens is reported one
column after the last of them. -/
def expect {α : Type} (what : Expectation) (accept : Lexeme → Option α) (ahead : Ahead) :
    Except Fault ((α × Location) × Ahead) :=
  match ahead.tokens with
  | [] => .error (.rejected (.expected what none) ahead.last.next none)
  | token :: rest =>
    match accept token.lexeme with
    | some a => .ok ((a, token.location), ⟨token.location, rest⟩)
    | none => .error (.rejected (.expected what (some token.lexeme)) token.location none)

/-- Taking an expected token leaves fewer tokens. -/
theorem expect_shrinks {α : Type} {what : Expectation} {accept : Lexeme → Option α}
    {ahead rest : Ahead} {a : α × Location} (h : expect what accept ahead = .ok (a, rest)) :
    rest.tokens.length < ahead.tokens.length := by
  unfold expect at h
  split at h
  · cases h
  · next token tokens hTokens =>
    split at h
    · cases h
      simp [hTokens]
    · cases h

def number? : Lexeme → Option Int
  | .number value => some value
  | _ => none

def string? : Lexeme → Option StringLiteral
  | .string text => some (.text text)
  | .brokenString text => some (.broken text)
  | _ => none

def identifier? : Lexeme → Option String
  | .identifier name => some name
  | _ => none

/-- Accepts one delimiter, whatever its spelling. -/
def mark? (mark : Delimiter) : Lexeme → Option Unit
  | .delimiter found _ => if found = mark then some () else none
  | _ => none

/-- The tokens after a comma, if one is next. -/
def afterComma? (ahead : Ahead) : Option Ahead :=
  match ahead.tokens with
  | ⟨.delimiter .comma _, location⟩ :: rest => some ⟨location, rest⟩
  | _ => none

theorem afterComma?_shrinks {ahead rest : Ahead} (h : afterComma? ahead = some rest) :
    rest.tokens.length < ahead.tokens.length := by
  unfold afterComma? at h
  split at h
  · next hTokens => cases h; simp [hTokens]
  · cases h

/-- Whether the statement ends here. -/
def atEnd (ahead : Ahead) : Bool :=
  match ahead.tokens with
  | [] => true
  | token :: _ => token.lexeme.endsStatement

/-- The tokens after the end of the statement. The end of an included file ends a statement without
being part of it. -/
def finish (ahead : Ahead) : Except Fault (List Token) :=
  match ahead.tokens with
  | [] => .ok []
  | token :: rest =>
    match token.lexeme with
    | .newline => .ok rest
    | .endInclude _ => .ok (token :: rest)
    | found => .error (.rejected (.expected .endOfLine (some found)) token.location none)

/-- Further things after commas. -/
def readMore {α : Type} (reader : Reader α) (ahead : Ahead) : Except Fault (List α × Ahead) :=
  match _ : afterComma? ahead with
  | none => .ok ([], ahead)
  | some after =>
    match _ : reader.read after with
    | .error fault => .error fault
    | .ok (a, rest) =>
      match readMore reader rest with
      | .error fault => .error fault
      | .ok (more, rest) => .ok (a :: more, rest)
termination_by ahead.tokens.length
decreasing_by
  exact Nat.lt_trans (reader.shrinks _ _ _ (by assumption)) (afterComma?_shrinks (by assumption))

/-- Things between commas, up to the end of the statement; there may be none. -/
def readList {α : Type} (reader : Reader α) (ahead : Ahead) : Except Fault (List α × Ahead) :=
  if atEnd ahead then .ok ([], ahead)
  else
    match reader.read ahead with
    | .error fault => .error fault
    | .ok (a, rest) =>
      match readMore reader rest with
      | .error fault => .error fault
      | .ok (more, rest) => .ok (a :: more, rest)

/-- What a lexeme is as a bare operand. -/
def bare? : Lexeme → Option Written
  | .register name => some (.register name)
  | .pair name => some (.pair name)
  | .flag name => some (.flag name)
  | .number value => some (.number value)
  | .identifier name => some (.name name)
  | _ => none

/-- What a lexeme is as an operand in parentheses. -/
def inner? : Lexeme → Option Written
  | .register name => some (.indirect name)
  | .pair name => some (.indirectPair name)
  | .number value => some (.address value)
  | .identifier name => some (.addressName name)
  | _ => none

/-- The operand after an opening parenthesis, which stands at `opening`, and the closing one. -/
def readInner (opening : Location) (tokens : List Token) :
    Except Fault (WrittenOperand × Ahead) :=
  match tokens with
  | [] => .error (.rejected .emptyParentheses opening none)
  | inner :: rest =>
    if inner.lexeme.endsStatement then .error (.rejected .emptyParentheses opening none)
    else
      match inner? inner.lexeme with
      | none => .error (.rejected .emptyParentheses inner.location none)
      | some written =>
        match expect .closingParen (mark? .rightParen) ⟨inner.location, rest⟩ with
        | .error fault => .error fault
        | .ok (_, rest) => .ok (⟨written, inner.location⟩, rest)

/-- One operand. -/
def readOperand (ahead : Ahead) : Except Fault (WrittenOperand × Ahead) :=
  match ahead.tokens with
  | [] => .error (.rejected .missingOperand ahead.last.next none)
  | token :: rest =>
    if token.lexeme.endsStatement then .error (.rejected .missingOperand token.location none)
    else
      match bare? token.lexeme, token.lexeme with
      | some written, _ => .ok (⟨written, token.location⟩, ⟨token.location, rest⟩)
      | none, .delimiter .leftParen _ => readInner token.location rest
      | none, found =>
        .error (.rejected (.expected .operand (some found)) token.location none)

theorem readInner_shrinks {opening : Location} {tokens : List Token} {operand : WrittenOperand}
    {rest : Ahead} (h : readInner opening tokens = .ok (operand, rest)) :
    rest.tokens.length < tokens.length := by
  unfold readInner at h
  split at h
  · cases h
  · split at h
    · cases h
    · split at h
      · cases h
      · split at h
        · cases h
        · next hExpect =>
          cases h
          exact Nat.lt_succ_of_lt (expect_shrinks hExpect)

theorem readOperand_shrinks {ahead rest : Ahead} {operand : WrittenOperand}
    (h : readOperand ahead = .ok (operand, rest)) :
    rest.tokens.length < ahead.tokens.length := by
  unfold readOperand at h
  split at h
  · cases h
  · next hTokens =>
    rw [hTokens, List.length_cons]
    split at h
    · cases h
    · split at h
      · cases h
        exact Nat.lt_succ_self _
      · exact Nat.lt_succ_of_lt (readInner_shrinks h)
      · cases h

/-- The reader of operands. -/
def operandReader : Reader WrittenOperand :=
  ⟨readOperand, fun _ _ _ h => readOperand_shrinks h⟩

/-- A number that is no larger than a byte. -/
def readByte (ahead : Ahead) : Except Fault (Int × Ahead) :=
  match expect .byteValue number? ahead with
  | .error fault => .error fault
  | .ok ((value, location), rest) =>
    if 0xFF < value then .error (.rejected (.wideByte value) location none) else .ok (value, rest)

theorem readByte_shrinks {ahead rest : Ahead} {value : Int}
    (h : readByte ahead = .ok (value, rest)) : rest.tokens.length < ahead.tokens.length := by
  unfold readByte at h
  split at h
  · cases h
  · next hExpect =>
    split at h
    · cases h
    · cases h
      exact expect_shrinks hExpect

/-- The reader of byte values. -/
def byteReader : Reader Int := ⟨readByte, fun _ _ _ h => readByte_shrinks h⟩

/-- An instruction after its mnemonic. The form is chosen before the line has to end. -/
def readInstruction (mnemonic : String) (ahead : Ahead) : Except Fault (Command × List Token) :=
  match readList operandReader ahead with
  | .error fault => .error fault
  | .ok (operands, rest) =>
    match Form.select mnemonic operands ahead.last with
    | .error (cause, location, hint) => .error (.rejected cause location hint)
    | .ok form =>
      match finish rest with
      | .error fault => .error fault
      | .ok rest => .ok (.instruction mnemonic form operands, rest)

/-- Literal bytes; a list without any is one zero byte. -/
def readBytes (ahead : Ahead) : Except Fault (Command × List Token) :=
  match readList byteReader ahead with
  | .error fault => .error fault
  | .ok (values, rest) =>
    match finish rest with
    | .error fault => .error fault
    | .ok rest =>
      if values.any (· < 0) then .error .negativeByte
      else if values.isEmpty then .ok (.bytes [0], rest)
      else .ok (.bytes (values.map fun value => value.toNat.toUInt8), rest)

/-- A string in an encoding, which has to accept it. What is not ASCII is found out at once; what is
not UTF-8 shows when the bytes are needed. -/
def readString (directive : String) (encoding : TextEncoding) (ahead : Ahead) :
    Except Fault (Command × List Token) :=
  match expect .string string? ahead with
  | .error fault => .error fault
  | .ok ((literal, location), rest) =>
    match finish rest with
    | .error fault => .error fault
    | .ok rest =>
      match encoding.apply literal with
      | .ok data => .ok (.string data, rest)
      | .error refused =>
        if encoding = .utf8 then .error (.unencodable refused)
        else
          .error (.rejected (.nonAsciiText directive) location
            (some "use .utf8 for text outside 7-bit ASCII"))

/-- A count and a byte to repeat. -/
def readFill (ahead : Ahead) : Except Fault (Command × List Token) :=
  match expect .fillCount number? ahead with
  | .error fault => .error fault
  | .ok ((count, _), rest) =>
    match expect .comma (mark? .comma) rest with
    | .error fault => .error fault
    | .ok (_, rest) =>
      match readByte rest with
      | .error fault => .error fault
      | .ok (value, rest) =>
        match finish rest with
        | .error fault => .error fault
        | .ok rest => .ok (.fill count value, rest)

/-- The byte after a comma, or zero if there is no comma. -/
def readPadding (ahead : Ahead) : Except Fault (Int × Ahead) :=
  match afterComma? ahead with
  | some rest => readByte rest
  | none => .ok (0, ahead)

/-- A target address and the byte to pad with. -/
def readOrigin (ahead : Ahead) : Except Fault (Command × List Token) :=
  match expect .targetAddress number? ahead with
  | .error fault => .error fault
  | .ok ((target, location), rest) =>
    match readPadding rest with
    | .error fault => .error fault
    | .ok (value, rest) =>
      match finish rest with
      | .error fault => .error fault
      | .ok rest => .ok (.origin target location value, rest)

/-- The name and the value of a constant. -/
def readConstant (ahead : Ahead) : Except Fault (Command × List Token) :=
  match expect .constantName identifier? ahead with
  | .error fault => .error fault
  | .ok ((name, location), rest) =>
    match expect .comma (mark? .comma) rest with
    | .error fault => .error fault
    | .ok (_, rest) =>
      match expect .constantValue number? rest with
      | .error fault => .error fault
      | .ok ((value, _), rest) =>
        match finish rest with
        | .error fault => .error fault
        | .ok rest => .ok (.constant name location value, rest)

/-- The name of a file to include. -/
def readUse (ahead : Ahead) : Except Fault (Command × List Token) :=
  match expect .fileName string? ahead with
  | .error fault => .error fault
  | .ok ((literal, location), rest) =>
    match finish rest with
    | .error fault => .error fault
    | .ok rest => .ok (.use literal.fileName location, rest)

/-- A section marker, which stands alone. -/
def readSection (name : String) (ahead : Ahead) : Except Fault (Command × List Token) :=
  match finish ahead with
  | .error fault => .error fault
  | .ok rest => .ok (.sectionMark name, rest)

/-- A directive after its name. -/
def readDirective (name : String) (ahead : Ahead) : Except Fault (Command × List Token) :=
  match name with
  | ".byte" => readBytes ahead
  | ".ascii" => readString name .ascii ahead
  | ".asciz" => readString name .asciz ahead
  | ".utf8" => readString name .utf8 ahead
  | ".fill" => readFill ahead
  | ".org" => readOrigin ahead
  | ".equ" => readConstant ahead
  | ".use" => readUse ahead
  | ".text" | ".data" => readSection name ahead
  | _ => .error (.unknownDirective name)

/-- The hint for a word that starts no statement: a mnemonic in capital letters, or a label without
its colon. -/
def startHint : Lexeme → Option String
  | .identifier name =>
    let lowered := Text.lower name
    if (Mnemonic.ofName? lowered).isSome then
      some ("mnemonics are lowercase; did you mean '" ++ lowered ++ "'?")
    else some ("labels are defined as '" ++ name ++ ":'")
  | _ => none

/-- The command at the front of the tokens. -/
def readCommand (token : Token) (rest : List Token) : Except Fault (Command × List Token) :=
  match token.lexeme, rest with
  | .newline, _ => .ok (.blank, rest)
  | .endInclude file, _ => .ok (.endInclude file, rest)
  | .identifier name, ⟨.delimiter .colon _, _⟩ :: rest => .ok (.label name, rest)
  | .mnemonic name, _ => readInstruction name ⟨token.location, rest⟩
  | .directive name, _ => readDirective name ⟨token.location, rest⟩
  | found, _ => .error (.rejected (.unexpectedStart found) token.location (startHint found))

/-- The statement at the front of the tokens, and the tokens after it. -/
def read (token : Token) (rest : List Token) : Except Fault (Statement × List Token) :=
  match readCommand token rest with
  | .error fault => .error fault
  | .ok (command, rest) => .ok (⟨token.location, command⟩, rest)

end Statement
end Lr35902
