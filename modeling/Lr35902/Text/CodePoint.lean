import Lr35902.Text.Quoted

/-!
Texts by their code points. A text that was not decoded from bytes may hold surrogates, the code
points for the halves of a character. A surrogate is no character and has no bytes in any encoding.
-/
namespace Lr35902

/-- A code point: a character, or the surrogate with some index. -/
inductive CodePoint where
  | char (c : Char)
  | surrogate (index : Fin 0x800)
  deriving DecidableEq

namespace CodePoint

/-- The character that stands in for a code point. For a surrogate that is the null character: like
it, a surrogate is part of no word and of no name of a file. -/
def shadow : CodePoint → Char
  | .char c => c
  | .surrogate _ => '\x00'

/-- Whether a code point is a surrogate. -/
def isSurrogate : CodePoint → Bool
  | .char _ => false
  | .surrogate _ => true

/-- The number of a code point. -/
def toNat : CodePoint → Nat
  | .char c => c.toNat
  | .surrogate index => 0xD800 + index.val

/-- One code point inside quotes. -/
def escape (quote : Char) : CodePoint → List Char
  | .char c => Text.escapeChar quote c
  | .surrogate index => '\\' :: 'u' :: Text.smallHex 4 (0xD800 + index.val)

end CodePoint

/-- A text that holds a surrogate. -/
structure BrokenText where
  points : List CodePoint
  broken : points.any CodePoint.isSurrogate = true
  deriving DecidableEq

namespace BrokenText

/-- Code points as a broken text, if they hold a surrogate. -/
def ofPoints? (points : List CodePoint) : Option BrokenText :=
  if broken : points.any CodePoint.isSurrogate = true then some ⟨points, broken⟩ else none

/-- The text with the null character for every surrogate. -/
def shadow (text : BrokenText) : String := String.ofList (text.points.map CodePoint.shadow)

/-- The text between quotes. -/
def quoted (text : BrokenText) : String :=
  let quote := Text.quoteFor (text.points.map CodePoint.shadow)
  String.ofList (quote :: (text.points.flatMap (CodePoint.escape quote) ++ [quote]))

end BrokenText

/-- What a string literal says: a text, or a broken one. -/
inductive StringLiteral where
  | text (text : String)
  | broken (text : BrokenText)
  deriving DecidableEq

namespace StringLiteral

/-- The code points of a literal. -/
def points : StringLiteral → List CodePoint
  | .text content => content.toList.map .char
  | .broken content => content.points

/-- The name of a file that a literal stands for. No file has a name that holds a surrogate, nor one
that holds the null character. -/
def fileName : StringLiteral → String
  | .text content => content
  | .broken content => content.shadow

end StringLiteral
end Lr35902
