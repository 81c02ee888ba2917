import Lr35902.Text.Digit

/-!
Blank characters: those that trimming removes from the ends of a text.
-/
namespace Lr35902.Text

/-- The ranges of blank characters: controls that move the cursor or separate records, and spaces
of every width. -/
def blankRanges : List (Nat × Nat) :=
  [(0x09, 0x0D), (0x1C, 0x20), (0x85, 0x85), (0xA0, 0xA0), (0x1680, 0x1680), (0x2000, 0x200A),
    (0x2028, 0x2029), (0x202F, 0x202F), (0x205F, 0x205F), (0x3000, 0x3000)]

/-- Whether a character is blank. -/
def isBlank (c : Char) : Bool := inRanges blankRanges c.toNat

/-- A list of characters without what satisfies `p` at either end. -/
def trimBy (p : Char → Bool) (cs : List Char) : List Char :=
  ((cs.dropWhile p).reverse.dropWhile p).reverse

/-- A text without the blanks at either end. -/
def trim (text : String) : String := String.ofList (trimBy isBlank text.toList)

end Lr35902.Text
