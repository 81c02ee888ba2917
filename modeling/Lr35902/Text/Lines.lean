/-!
Lines of a text. Diagnostics quote lines that end at any of the characters that break a line on a
display; source files are read with every line ending turned into a line feed.
-/
namespace Lr35902.Text

/-- Whether a character ends a displayed line. -/
def isLineBreak (c : Char) : Bool :=
  let n := c.toNat
  (decide (0x0A ≤ n) && decide (n ≤ 0x0D)) || (decide (0x1C ≤ n) && decide (n ≤ 0x1E)) ||
    n == 0x85 || n == 0x2028 || n == 0x2029

/-- The displayed lines of a text, without their endings. A carriage return and the line feed after
it end one line; a break at the very end starts no further line. -/
def displayLines : List Char → List (List Char)
  | [] => []
  | '\r' :: '\n' :: rest => [] :: displayLines rest
  | c :: rest =>
    if isLineBreak c then [] :: displayLines rest
    else
      match displayLines rest with
      | [] => [[c]]
      | line :: lines => (c :: line) :: lines

/-- A text with each carriage return, and the line feed right after it, turned into one line
feed. -/
def unifyNewlines : List Char → List Char
  | [] => []
  | '\r' :: '\n' :: rest => '\n' :: unifyNewlines rest
  | c :: rest => (if c = '\r' then '\n' else c) :: unifyNewlines rest

end Lr35902.Text
