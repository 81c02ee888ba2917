/-!
Edit distance: the least number of single-character insertions, deletions and replacements that
turn one text into another, computed row by row.
-/
namespace Lr35902.Text

/-- The entries of a row after its first one, `left`. The row above starts with the entry diagonally
above; equal characters carry that entry down. -/
def rowAfter (c : Char) (left : Nat) : List Char → List Nat → List Nat
  | d :: others, diagonal :: above :: row =>
    let entry := if c = d then diagonal else 1 + min (min diagonal above) left
    entry :: rowAfter c entry others (above :: row)
  | _, _ => []

/-- The row for one more character of the first text. -/
def nextRow (others : List Char) (row : List Nat) (c : Char) : List Nat :=
  let first := row.headD 0 + 1
  first :: rowAfter c first others row

/-- The last entry of the last row, where `others` is the text along the rows. -/
def distanceAlong (text others : List Char) : Nat :=
  (text.foldl (nextRow others) (List.range (others.length + 1))).getLastD 0

/-- The edit distance of two texts; the shorter one lies along the rows. -/
def editDistance (a b : List Char) : Nat :=
  if a.length < b.length then distanceAlong b a else distanceAlong a b

end Lr35902.Text
