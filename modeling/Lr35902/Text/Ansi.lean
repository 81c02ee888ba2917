/-!
Terminal control sequences: an escape character, a bracket, parameters, and a closing letter. Text
that does not go to a terminal is written without them.
-/
namespace Lr35902.Text

/-- Whether a character may stand among the parameters of a control sequence. -/
def isParameter (c : Char) : Bool := c == ';' || c == '?' || c.isDigit

/-- Whether the text after an escape character completes a control sequence, and how many of its
characters the sequence takes. -/
def sequenceLength? : List Char → Option Nat
  | '[' :: rest =>
    let parameters := (rest.takeWhile isParameter).length
    match rest.drop parameters with
    | c :: _ => if c.isAlpha then some (parameters + 2) else none
    | [] => none
  | _ => none

/-- The characters outside control sequences, after those in `kept`, the last one first. -/
def stripSequencesFrom (kept : List Char) : List Char → List Char
  | [] => kept.reverse
  | c :: rest =>
    if c.toNat = 0x1B then
      match sequenceLength? rest with
      | some n => stripSequencesFrom kept (rest.drop n)
      | none => stripSequencesFrom (c :: kept) rest
    else stripSequencesFrom (c :: kept) rest
termination_by cs => cs.length
decreasing_by all_goals simp only [List.length_cons, List.length_drop]; omega

/-- A text without its terminal control sequences. -/
def stripSequences (text : String) : String :=
  String.ofList (stripSequencesFrom [] text.toList)

end Lr35902.Text
