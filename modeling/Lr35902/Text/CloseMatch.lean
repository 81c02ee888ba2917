/-!
Close matches: words alike enough to be offered in place of an unknown one. Two words are compared
by their longest common stretch, and by those to the left and to the right of it.
-/
namespace Lr35902.Text

/-- The length of the common start of two texts. -/
def commonStart : List Char → List Char → Nat
  | a :: as, b :: bs => if a = b then commonStart as bs + 1 else 0
  | _, _ => 0

/-- Where two texts have their longest common stretch, and its length: the leftmost in the first
text, and of those the leftmost in the second. -/
def longestStretch (a b : List Char) : Nat × Nat × Nat :=
  let starts := (List.range a.length).flatMap fun i => (List.range b.length).map fun j => (i, j)
  starts.foldl
    (fun best (i, j) =>
      let length := commonStart (a.drop i) (b.drop j)
      if best.2.2 < length then (i, j, length) else best)
    (0, 0, 0)

/-- The number of characters in the common stretches of two texts. The first argument bounds the
number of stretches inside one another. -/
def commonSize : Nat → List Char → List Char → Nat
  | 0, _, _ => 0
  | bound + 1, a, b =>
    match longestStretch a b with
    | (_, _, 0) => 0
    | (i, j, length) =>
      length + commonSize bound (a.take i) (b.take j) +
        commonSize bound (a.drop (i + length)) (b.drop (j + length))

/-- Whether at least three fifths of the characters of two words are common. -/
def isClose (word other : String) : Bool :=
  let size := commonSize other.length other.toList word.toList
  decide (6 * (word.length + other.length) ≤ 10 * (2 * size))

/-- How alike two words are: twice the common characters, out of all of them. -/
def likeness (word other : String) : Nat × Nat :=
  (2 * commonSize other.length other.toList word.toList, word.length + other.length)

/-- Whether `a` comes before `b` among the words alike to `word`: it is more alike, or equally alike
and later in the alphabet. -/
def closerLE (word a b : String) : Bool :=
  let (sizeA, totalA) := likeness word a
  let (sizeB, totalB) := likeness word b
  decide (sizeB * totalA < sizeA * totalB) ||
    (sizeB * totalA == sizeA * totalB && decide (b ≤ a))

/-- Up to three words close to a given one, in alphabetical order. -/
def closeMatches (word : String) (words : List String) : List String :=
  (((words.filter (isClose word)).mergeSort (closerLE word)).take 3).mergeSort
    fun a b => decide (a ≤ b)

end Lr35902.Text
