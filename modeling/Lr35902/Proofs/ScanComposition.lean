import Lr35902.Proofs.Places
import Lr35902.Proofs.Positions

/-!
Scanning is compositional at line feeds. The scanner comes out of a line with nothing but its tokens
and its line number (`Scan.scanFrom_line`), and lines further down it finds the same tokens and the
same faults, each so much further down (`Scan.scanFrom_below`). So two texts with a line feed
between them are scanned each on its own (`scan_joined`).
-/
namespace Lr35902

/-! ## Further down -/

/-- The place so many lines further down. -/
def Location.below (lines : Nat) (location : Location) : Location :=
  { location with line := location.line + lines }

/-- The token so many lines further down. -/
def Token.below (lines : Nat) (token : Token) : Token :=
  { token with location := token.location.below lines }

/-- The diagnostic so many lines further down, which quotes the same line. -/
def Diagnostic.below (lines : Nat) (diagnostic : Diagnostic) : Diagnostic :=
  { diagnostic with location := diagnostic.location.map (Location.below lines) }

namespace Scan

/-- The cursor so many lines further down. -/
def Cursor.below (lines : Nat) (cursor : Cursor) : Cursor :=
  { cursor with line := cursor.line + lines }

/-- The cursor where a line feed and more text follow what was the text. -/
def Cursor.followed (rest : List Char) (cursor : Cursor) : Cursor :=
  { cursor with lineText := cursor.lineText ++ '\n' :: rest }

/-- What follows on further lines is not quoted. -/
theorem Cursor.diagnose_followed {file : String} {cursor : Cursor} {rest : List Char}
    {cause : Cause} :
    (cursor.followed rest).diagnose file cause = cursor.diagnose file cause := by
  have hLine : (cursor.followed rest).lineOf = cursor.lineOf := by
    rw [Cursor.lineOf, Cursor.followed, takeWhile_line (· != '\n') rfl]
    rfl
  rw [Cursor.diagnose, hLine]
  rfl

/-! ## The end of a line -/

/-- The line end after the tokens of a text, unless it would end no statement. -/
def separator (file : String) (text : List Char) (tokens : List Token) : List Token :=
  match tokens.getLast? with
  | none => []
  | some last =>
    if last.lexeme = .newline then [] else [⟨.newline, .after file text⟩]

theorem reverse_separator (file : String) (text : List Char) (done : List Token) :
    (done.reverse ++ separator file text done.reverse).reverse =
      if atLineStart done then done else ⟨.newline, .after file text⟩ :: done := by
  cases done with
  | nil => rfl
  | cons last done =>
    by_cases hNewline : last.lexeme = .newline
    · simp [separator, atLineStart, hNewline]
    · simp [separator, atLineStart, hNewline]

theorem atLineStart_separator (file : String) (text : List Char) (tokens : List Token) :
    atLineStart (tokens ++ separator file text tokens).reverse = true := by
  have hClosed := reverse_separator file text tokens.reverse
  rw [List.reverse_reverse] at hClosed
  rw [hClosed]
  by_cases hStart : atLineStart tokens.reverse = true
  · rw [if_pos hStart]
    exact hStart
  · rw [if_neg hStart]
    rfl

section
variable {file : String} {cursor : Cursor} {done : List Token} {source before text : List Char}

/-- A text is scanned up to a line feed, and then the text after it, with no more than the tokens
and the line number kept. -/
theorem scanFrom_line {result : Except Diagnostic (List Token)}
    (h : scanFrom file cursor done text = result) (hSource : source = before ++ text)
    (hCursor : cursor.Stands source before) (rest : List Char) :
    scanFrom file (cursor.followed rest) done (text ++ '\n' :: rest) =
      result.bind fun tokens => scanFrom file ⟨1 + (source.count '\n' + 1), 1, rest⟩
        (tokens ++ separator file source tokens).reverse rest := by
  revert before
  fun_induction scanFrom file cursor done text with
  | case1 cursor done =>
    intro before hSource hCursor
    subst h
    rw [List.append_nil] at hSource
    subst hSource
    have hLine : cursor.line + 1 = 1 + (source.count '\n' + 1) := by
      rw [hCursor.line_eq]
      omega
    simp only [Except.bind, reverse_separator, ← hCursor.location_eq, ← hLine]
    rw [List.nil_append, scanFrom, if_neg (by decide), if_neg (by decide), if_pos rfl]
    rfl
  | case2 cursor done c text hSpace ih =>
    intro before hSource hCursor
    rw [List.cons_append, scanFrom, if_pos hSpace]
    exact ih h (by simpa using hSource) (hCursor.forward (not_lineEnd_of_isSpace hSpace))
  | case3 cursor done text comment hSpace ih =>
    intro before hSource hCursor
    have hPassed : source = before ++ ';' :: text.takeWhile (· != '\n') ++ text.drop comment := by
      rw [List.append_assoc, List.cons_append, takeWhile_append_drop, hSource]
    rw [List.cons_append, scanFrom, if_neg hSpace, if_pos rfl, takeWhile_line (· != '\n') rfl]
    simp only [List.drop_append_of_le_length (length_takeWhile_le _ _)]
    exact ih h hPassed (hCursor.comment text)
  | case4 cursor done text after hSpace hComment ih =>
    intro before hSource hCursor
    rw [List.cons_append, scanFrom, if_neg hSpace, if_neg hComment, if_pos rfl]
    exact ih h (by simpa using hSource) (hCursor.nextLine hSource)
  | case5 cursor done c text hSpace hComment hBreak cause hRead =>
    intro before hSource hCursor
    subst h
    rw [List.cons_append, scanFrom, if_neg hSpace, if_neg hComment, if_neg hBreak, readLexeme_line,
      hRead]
    simp only [Cursor.diagnose_followed, Except.bind]
  | case6 cursor done c text hSpace hComment hBreak lexeme taken hRead ih =>
    intro before hSource hCursor
    rw [List.cons_append, scanFrom, if_neg hSpace, if_neg hComment, if_neg hBreak, readLexeme_line,
      hRead]
    simp only [List.drop_append_of_le_length (readLexeme_le hRead)]
    exact ih h (by simpa using hSource) (hCursor.lexeme hBreak hRead)

theorem atLineStart_below (lines : Nat) {earlier : List Token}
    (hStart : atLineStart earlier = true) :
    atLineStart (done.map (Token.below lines) ++ earlier) = atLineStart done := by
  cases done with
  | nil => exact hStart
  | cons last done => rfl

/-- Further down the scanner finds the same, where a line end would end no statement. -/
theorem scanFrom_below (lines : Nat) {earlier : List Token} (hStart : atLineStart earlier = true) :
    scanFrom file (cursor.below lines) (done.map (Token.below lines) ++ earlier) text =
      match scanFrom file cursor done text with
      | .error diagnostic => .error (diagnostic.below lines)
      | .ok tokens => .ok (earlier.reverse ++ tokens.map (Token.below lines)) := by
  fun_induction scanFrom file cursor done text with
  | case1 cursor done => simp [scanFrom]
  | case2 cursor done c text hSpace ih =>
    rw [scanFrom, if_pos hSpace]
    exact ih
  | case3 cursor done text comment hSpace ih =>
    rw [scanFrom, if_neg hSpace, if_pos rfl]
    exact ih
  | case4 cursor done text after hSpace hComment ih =>
    rw [scanFrom, if_neg hSpace, if_neg hComment, if_pos rfl, atLineStart_below lines hStart]
    have hNext : (cursor.below lines).nextLine text = (cursor.nextLine text).below lines := by
      simp only [Cursor.nextLine, Cursor.below, Cursor.mk.injEq, and_true]
      omega
    rw [hNext]
    by_cases hEnds : atLineStart done = true
    · rw [show after = done from if_pos hEnds] at ih
      rw [if_pos hEnds, show after = done from if_pos hEnds]
      exact ih
    · have hAfter : after = ⟨.newline, cursor.location file⟩ :: done := if_neg hEnds
      rw [hAfter] at ih
      rw [if_neg hEnds, hAfter]
      exact ih
  | case5 cursor done c text hSpace hComment hBreak cause hRead =>
    rw [scanFrom, if_neg hSpace, if_neg hComment, if_neg hBreak, hRead]
    rfl
  | case6 cursor done c text hSpace hComment hBreak lexeme taken hRead ih =>
    rw [scanFrom, if_neg hSpace, if_neg hComment, if_neg hBreak, hRead]
    exact ih

end
end Scan

/-! ## Two texts -/

/-- Further down a diagnostic can be put into words as well as before, in a text that fits in
memory. -/
theorem Diagnostic.obstacle?_below {limit lines : Nat} {diagnostic : Diagnostic}
    (hFits : ((limit + lines : Nat) : Int) + 4 ≤ Text.lengthLimit)
    (hPlace : ∀ location, diagnostic.location = some location → location.Within limit) :
    (diagnostic.below lines).obstacle? = diagnostic.obstacle? := by
  have hBelow : ∀ location, (diagnostic.below lines).location = some location →
      location.Within (limit + lines) := by
    intro location hLocation
    obtain ⟨place, hOld, rfl⟩ := Option.map_eq_some_iff.1 hLocation
    obtain ⟨hLine, hColumn, hSum⟩ := hPlace place hOld
    refine ⟨?_, hColumn, ?_⟩
    · show 1 ≤ place.line + lines
      omega
    · show place.line + lines + place.column ≤ (limit + lines : Nat) + 2
      omega
  rw [obstacle?_eq hFits hBelow, obstacle?_eq (by omega) hPlace]
  rfl

/-- Texts with a line feed between them are scanned each on its own. A fault of the first one is the
fault of both. Otherwise a fault of the second one is, so many lines further down, with the same
line quoted and the same kind of report. Otherwise the tokens of the first one come first, then a
line end unless it would end no statement, and then the tokens of the second one, so many lines
further down. -/
theorem scan_joined (first second file : String) :
    let lines := first.toList.count '\n' + 1
    (scan (first ++ "\n" ++ second) file =
      match scan first file with
      | .error diagnostic => .error diagnostic
      | .ok tokens =>
        match scan second file with
        | .error diagnostic => .error (diagnostic.below lines)
        | .ok more => .ok (tokens ++ Scan.separator file first.toList tokens ++
            more.map (Token.below lines))) ∧
      ∀ diagnostic, scan second file = .error diagnostic →
        ((first ++ "\n" ++ second).length : Int) + 4 ≤ Text.lengthLimit →
        (diagnostic.below lines).obstacle? = diagnostic.obstacle? := by
  intro lines
  constructor
  · have hText : (first ++ "\n" ++ second).toList = first.toList ++ '\n' :: second.toList := by simp
    have hStart : Scan.Cursor.start (first.toList ++ '\n' :: second.toList) =
        (Scan.Cursor.start first.toList).followed second.toList := rfl
    have hFirst : Scan.scanFrom file (.start first.toList) [] first.toList = scan first file := rfl
    have hWhole : first.toList = [] ++ first.toList := rfl
    have hStands := Scan.Cursor.start_stands first.toList
    have hBelow : (⟨1 + (first.toList.count '\n' + 1), 1, second.toList⟩ : Scan.Cursor) =
        (Scan.Cursor.start second.toList).below lines := rfl
    rw [scan, hText, hStart, Scan.scanFrom_line hFirst hWhole hStands, hBelow]
    cases scan first file with
    | error diagnostic => rfl
    | ok tokens =>
      have hEnded := Scan.atLineStart_separator file first.toList tokens
      have hSecond :=
        @Scan.scanFrom_below file (.start second.toList) [] second.toList lines _ hEnded
      rw [List.map_nil, List.nil_append, List.reverse_reverse] at hSecond
      exact hSecond
  · intro diagnostic hError hFits
    have hLines : lines ≤ first.length + 1 := by
      rw [← String.length_toList]
      exact Nat.succ_le_succ List.count_le_length
    have hLength : (first ++ "\n" ++ second).length = first.length + 1 + second.length := by
      simp only [String.length_append]
      rfl
    have hPlace : ∀ location, diagnostic.location = some location →
        location.Within second.length := by
      intro location hLocation
      obtain ⟨found, hFound, hWithin⟩ := scan_within.2 diagnostic hError
      obtain rfl := Option.some.inj (hFound.symm.trans hLocation)
      exact hWithin
    exact Diagnostic.obstacle?_below (by omega) hPlace

/-- The first text ends in a comment with a quote in it, and the second one has an open string. -/
theorem scan_joined_open_string :
    let diagnostic : Diagnostic :=
      ⟨.unterminatedString, some ⟨"<input>", 1, 4⟩, none, some "ld \"a"⟩
    scan "ld \"a" "<input>" = .error diagnostic ∧
      (("nop\n; \"" ++ "\n" ++ "ld \"a").length : Int) + 4 ≤ Text.lengthLimit ∧
      scan ("nop\n; \"" ++ "\n" ++ "ld \"a") "<input>" = .error (diagnostic.below 2) ∧
      (diagnostic.below 2).obstacle? = none := by
  have hError : scan "ld \"a" "<input>" =
      .error ⟨.unterminatedString, some ⟨"<input>", 1, 4⟩, none, some "ld \"a"⟩ := by
    decide +kernel
  have hFits : (("nop\n; \"" ++ "\n" ++ "ld \"a").length : Int) + 4 ≤ Text.lengthLimit := by decide
  have hFirst : scan "nop\n; \"" "<input>" =
      .ok [⟨.mnemonic "nop", ⟨"<input>", 1, 1⟩⟩, ⟨.newline, ⟨"<input>", 1, 4⟩⟩] := by decide +kernel
  obtain ⟨hJoined, hReport⟩ := scan_joined "nop\n; \"" "ld \"a" "<input>"
  rw [hFirst, hError] at hJoined
  refine ⟨hError, hFits, hJoined, (hReport _ hError hFits).trans ?_⟩
  decide +kernel

end Lr35902
