import Lr35902.Text.Numeral
import Lr35902.Text.Printable

/-!
Quoted text, for showing a string exactly in a message. The single quote is used unless the text
holds one and no double quote; the quote, the backslash and whatever is not printable are escaped.
-/
namespace Lr35902.Text

/-- The quote that encloses a text. -/
def quoteFor (cs : List Char) : Char :=
  if cs.contains '\'' && !cs.contains '"' then '"' else '\''

/-- `n` in small hexadecimal digits, `width` of them. -/
def smallHex (width n : Nat) : List Char :=
  let body := (digits 16 n).map Char.toLower
  List.replicate (width - body.length) '0' ++ body

/-- One character inside quotes. -/
def escapeChar (quote c : Char) : List Char :=
  if c = quote ∨ c = '\\' then ['\\', c]
  else if c = '\n' then ['\\', 'n']
  else if c = '\r' then ['\\', 'r']
  else if c = '\t' then ['\\', 't']
  else if isPrintable c then [c]
  else if c.toNat < 0x100 then '\\' :: 'x' :: smallHex 2 c.toNat
  else if c.toNat < 0x10000 then '\\' :: 'u' :: smallHex 4 c.toNat
  else '\\' :: 'U' :: smallHex 8 c.toNat

/-- A text between quotes. -/
def quoted (text : String) : String :=
  let quote := quoteFor text.toList
  String.ofList (quote :: (text.toList.flatMap (escapeChar quote) ++ [quote]))

end Lr35902.Text
