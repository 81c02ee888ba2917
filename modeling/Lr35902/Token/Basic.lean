import Lr35902.File.Spot
import Lr35902.Source.Location
import Lr35902.Text.CodePoint

/-!
Tokens: the words of a source text, each with the place where it starts.
-/
namespace Lr35902

/-- A punctuation mark. -/
inductive Delimiter where
  | comma | colon | leftParen | rightParen
  deriving DecidableEq

/-- What a token says. Keywords keep their spelling. A string that holds a surrogate is broken. A
delimiter read from text has a spelling; one made by hand may have none. `endInclude` marks where
the text of an included file ends. -/
inductive Lexeme where
  | identifier (name : String)
  | number (value : Int)
  | string (text : String)
  | brokenString (text : BrokenText)
  | register (name : String)
  | pair (name : String)
  | flag (name : String)
  | mnemonic (name : String)
  | directive (name : String)
  | delimiter (mark : Delimiter) (spelling : Option String)
  | newline
  | endInclude (file : FileMark)
  deriving DecidableEq

/-- A lexeme and where it starts. -/
structure Token where
  lexeme : Lexeme
  location : Location
  deriving DecidableEq

namespace Delimiter

/-- The character of a delimiter. -/
def char : Delimiter → Char
  | .comma => ',' | .colon => ':' | .leftParen => '(' | .rightParen => ')'

/-- The delimiter that a character is. -/
def ofChar? (c : Char) : Option Delimiter :=
  [.comma, .colon, .leftParen, .rightParen].find? fun mark => mark.char == c

/-- The lexeme that text gives for the delimiter. -/
def lexeme (mark : Delimiter) : Lexeme := .delimiter mark (some (String.singleton mark.char))

end Delimiter

/-- The lexeme that text gives for a string literal. -/
def StringLiteral.lexeme : StringLiteral → Lexeme
  | .text content => .string content
  | .broken content => .brokenString content

namespace Lexeme

/-- The name of the kind of a lexeme, as messages show it. -/
def kindName : Lexeme → String
  | .identifier _ => "identifier"
  | .number _ => "number"
  | .string _ | .brokenString _ => "string"
  | .register _ => "register"
  | .pair _ => "register16"
  | .flag _ => "flag"
  | .mnemonic _ => "mnemonic"
  | .directive _ => "directive"
  | .delimiter .comma _ => "comma"
  | .delimiter .colon _ => "colon"
  | .delimiter .leftParen _ => "lparen"
  | .delimiter .rightParen _ => "rparen"
  | .newline => "newline"
  | .endInclude _ => "end_include"

/-- The spelling of a lexeme that is a word or a mark. -/
def spelling? : Lexeme → Option String
  | .identifier name | .register name | .pair name | .flag name | .mnemonic name
  | .directive name => some name
  | .endInclude file => some file.spelling
  | .delimiter _ spelling => spelling
  | .string text => some text
  | .brokenString text => some text.shadow
  | .number _ | .newline => none

/-- How messages describe a lexeme. -/
def describe (lexeme : Lexeme) : String :=
  match lexeme with
  | .newline => "end of line"
  | .endInclude _ => "end of included file"
  | .number value => "number " ++ Text.decimal value
  | .string text => "string " ++ Text.quoted text
  | .brokenString text => "string " ++ text.quoted
  | _ =>
    match lexeme.spelling? with
    | some spelling => lexeme.kindName ++ " '" ++ spelling ++ "'"
    | none => lexeme.kindName

/-- Whether a lexeme ends a statement. -/
def endsStatement : Lexeme → Bool
  | .newline | .endInclude _ => true
  | _ => false

end Lexeme

namespace Token

/-- How a listing of tokens shows a token: kind, value if it has one, and place. -/
def display (token : Token) : String :=
  let value :=
    match token.lexeme with
    | .number v => "$" ++ Text.hex 0 v ++ ", "
    | .brokenString text => text.quoted ++ ", "
    | lexeme =>
      match lexeme.spelling? with
      | some spelling => Text.quoted spelling ++ ", "
      | none => ""
  "Token(" ++ token.lexeme.kindName.map Char.toUpper ++ ", " ++ value ++
    Text.decimal token.location.line ++ ":" ++ Text.decimal token.location.column ++ ")"

end Token
end Lr35902
