import Lr35902.Cpu.Mnemonic
import Lr35902.Cpu.Register
import Lr35902.Source.Diagnostic

/-!
Scanning: from source text to tokens. The scanner looks at one character, decides what begins there,
and counts how many further characters belong to it. Blanks and comments vanish, and so do line ends
that end no statement.

The operations of the scanner and what stands for them here:
* scanning a text under a file name: `scan`, and `scanText` if the text may hold surrogates;
* its loop, which skips blanks and comments, collapses line ends and emits tokens: `scanFrom`;
* telling what begins at a character: `readLexeme`, with `classify` for an identifier, `readNumber`
  for a number, `readDirective` for a directive and `readString` for a string;
* keeping line and column, and quoting the line of an error: `Cursor` and `Cursor.diagnose`.
-/
namespace Lr35902

namespace Scan

/-- Whether a character separates words without ending a line. -/
def isSpace (c : Char) : Bool :=
  c == ' ' || c == '\t' || c == '\r' || c.toNat == 0x0B || c.toNat == 0x0C

/-- Whether a character may start an identifier. -/
def isIdentifierStart (c : Char) : Bool := c.isAlpha || c == '_'

/-- Whether a character may continue an identifier. -/
def isIdentifierChar (c : Char) : Bool := c.isAlphanum || c == '_'

/-- The directives. -/
def directiveNames : List String :=
  [".ascii", ".asciz", ".byte", ".data", ".equ", ".fill", ".org", ".text", ".use", ".utf8"]

/-- A word as a lexeme: a register, a pair, a flag or a mnemonic if it names one, in this order, and
an identifier otherwise. -/
def classify (word : String) : Lexeme :=
  if Register.all.any fun r => r.name == word then .register word
  else if Pair.all.any fun p => p.name == word then .pair word
  else if flagNames.contains word then .flag word
  else if (Mnemonic.ofName? word).isSome then .mnemonic word
  else .identifier word

/-- The digits of a literal, as the scanner takes them: octal literals take any of the ten digits
and are judged afterwards. -/
def takesDigit : Radix → Char → Bool
  | .hexadecimal, c => decide (Text.digitValue c < 16)
  | .binary, c => c == '0' || c == '1'
  | .octal, c | .decimal, c => Text.isAsciiDigit c

/-- The notation of the literal that starts with `c`, and how many characters stand before its
digits. -/
def literalNotation (c : Char) (rest : List Char) : Radix × Nat :=
  if c = '0' then
    match rest with
    | x :: _ =>
      if x = 'x' ∨ x = 'X' then (.hexadecimal, 2)
      else if x = 'b' ∨ x = 'B' then (.binary, 2)
      else if Text.isDigit x then (.octal, 1)
      else (.decimal, 0)
    | [] => (.decimal, 0)
  else (.decimal, 0)

/-- Whether a non-empty run of digits can be read in its notation. -/
def readable (radix : Radix) (digits : List Char) : Bool :=
  match radix with
  | .octal => digits.all fun c => decide (Text.digitValue c < 8)
  | .decimal => decide (digits.length ≤ Text.decimalLimit)
  | _ => true

/-- The largest value of a numeric literal. -/
def maxLiteral : Nat := 0xFFFF

/-- The value of a run of digits, judged by what follows it: a literal ends where no identifier
could go on, has digits of its notation, and fits in 16 bits. -/
def literalValue (radix : Radix) (digits following : List Char) : Except Cause Nat :=
  if following.head?.any isIdentifierChar then .error (.malformedLiteral radix)
  else if digits.isEmpty then .error (.missingDigits radix)
  else if !readable radix digits then .error (.malformedLiteral radix)
  else
    let value := Text.valueOf radix.base digits
    if value ≤ maxLiteral then .ok value else .error (.wideLiteral value)

/-- The number that starts with `c`, and how many characters after `c` it takes. -/
def readNumber (c : Char) (rest : List Char) : Except Cause (Lexeme × Nat) :=
  let (radix, lead) := literalNotation c rest
  let text := (c :: rest).drop lead
  let digits := text.takeWhile (takesDigit radix)
  match literalValue radix digits (text.drop digits.length) with
  | .ok value => .ok (.number value, lead + digits.length - 1)
  | .error cause => .error cause

/-- The directive after a full stop. -/
def readDirective (rest : List Char) : Except Cause (Lexeme × Nat) :=
  let word := rest.takeWhile isIdentifierChar
  let name := String.ofList ('.' :: word)
  if directiveNames.contains name then .ok (.directive name, word.length)
  else if word.isEmpty then .error .missingDirectiveName
  else .error (.unknownDirective name)

/-- The string after a double quote: everything up to the next one, on the same line. -/
def readString (rest : List Char) : Except Cause (Lexeme × Nat) :=
  let body := rest.takeWhile fun c => c != '"' && c != '\n'
  if (rest.drop body.length).head? = some '"' then
    .ok (.string (String.ofList body), body.length + 1)
  else .error .unterminatedString

/-- The lexeme that starts with `c`, and how many characters after `c` it takes. -/
def readLexeme (c : Char) (rest : List Char) : Except Cause (Lexeme × Nat) :=
  if isIdentifierStart c then
    let word := rest.takeWhile isIdentifierChar
    .ok (classify (String.ofList (c :: word)), word.length)
  else if Text.isDigit c then readNumber c rest
  else if c = '.' then readDirective rest
  else if c = '"' then readString rest
  else
    match Delimiter.ofChar? c with
    | some mark => .ok (mark.lexeme, 0)
    | none => .error (.unexpectedCharacter c)

/-- Where the scanner stands: line, column, and the text from the start of the line on. -/
structure Cursor where
  line : Nat
  column : Nat
  lineText : List Char

namespace Cursor

/-- The cursor at the start of a text. -/
def start (text : List Char) : Cursor := ⟨1, 1, text⟩

/-- The cursor after `n` more characters of the line. -/
def forward (cursor : Cursor) (n : Nat) : Cursor := { cursor with column := cursor.column + n }

/-- The cursor at the start of the next line, which begins with `text`. -/
def nextLine (cursor : Cursor) (text : List Char) : Cursor := ⟨cursor.line + 1, 1, text⟩

/-- The place of the cursor in a file. -/
def location (cursor : Cursor) (file : String) : Location := ⟨file, cursor.line, cursor.column⟩

/-- The whole line that the cursor stands in. -/
def lineOf (cursor : Cursor) : String := String.ofList (cursor.lineText.takeWhile (· != '\n'))

/-- The diagnostic for a cause at the cursor, which quotes the line it stands in. -/
def diagnose (cursor : Cursor) (file : String) (cause : Cause) : Diagnostic :=
  ⟨cause, some (cursor.location file), none, some cursor.lineOf⟩

end Cursor

/-- Whether a line end now would end no statement: no token came before, or a line end did. -/
def atLineStart : List Token → Bool
  | [] => true
  | last :: _ => last.lexeme == .newline

/-- Scans the text at the cursor; `done` holds the tokens before it, the last one first. -/
def scanFrom (file : String) (cursor : Cursor) (done : List Token) :
    List Char → Except Diagnostic (List Token)
  | [] => .ok done.reverse
  | c :: rest =>
    if isSpace c then scanFrom file (cursor.forward 1) done rest
    else if c = ';' then
      let comment := (rest.takeWhile (· != '\n')).length
      scanFrom file (cursor.forward (1 + comment)) done (rest.drop comment)
    else if c = '\n' then
      let done :=
        if atLineStart done then done else ⟨.newline, cursor.location file⟩ :: done
      scanFrom file (cursor.nextLine rest) done rest
    else
      match readLexeme c rest with
      | .error cause => .error (cursor.diagnose file cause)
      | .ok (lexeme, taken) =>
        scanFrom file (cursor.forward (1 + taken)) (⟨lexeme, cursor.location file⟩ :: done)
          (rest.drop taken)
termination_by text => text.length
decreasing_by all_goals simp only [List.length_cons, List.length_drop]; omega

end Scan

/-- The tokens of a source text, which messages ascribe to `file`. -/
def scan (source : String) (file : String) : Except Diagnostic (List Token) :=
  Scan.scanFrom file (Scan.Cursor.start source.toList) [] source.toList

namespace Scan

/-- What is left of a text after some lines. -/
def afterLines (text : List CodePoint) : Nat → List CodePoint
  | 0 => text
  | lines + 1 => ((afterLines text lines).dropWhile (· != .char '\n')).drop 1

/-- The code points behind the one at a line and a column, both counted from one. -/
def behind (text : List CodePoint) (line column : Int) : List CodePoint :=
  (afterLines text (line - 1).toNat).drop column.toNat

/-- A token of the characters that stand in for a text, as a token of the text: a string says what
stands behind its quote. -/
def restore (text : List CodePoint) (token : Token) : Token :=
  match token.lexeme with
  | .string written =>
    match BrokenText.ofPoints?
        ((behind text token.location.line token.location.column).take written.length) with
    | some broken => { token with lexeme := .brokenString broken }
    | none => token
  | _ => token

end Scan

/-- The tokens of a text that may hold surrogates. A diagnostic shows the characters that stand in
for them. -/
def scanText (text : List CodePoint) (file : String) : Except Diagnostic (List Token) :=
  match scan (String.ofList (text.map CodePoint.shadow)) file with
  | .error diagnostic => .error diagnostic
  | .ok tokens => .ok (tokens.map (Scan.restore text))

end Lr35902
