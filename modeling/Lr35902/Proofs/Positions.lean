import Mathlib.Data.List.Induction
import Mathlib.Data.Nat.Find
import Lr35902.Proofs.LexemeSpelling

/-!
Where tokens stand. A text is divided into lexemes and gaps (`Scan.Divides`): each token stands
where its lexeme is spelled, and blanks, comments and line ends that end no statement fill what is
left. The scanner keeps its cursor at the place of the text it comes to (`Scan.Cursor.Stands`), so
the places of tokens and diagnostics are those of their first characters (`scan_exact`). From these
places the strings of a text that holds surrogates are read again, so they say what stands between
their quotes (`scanText_standsIn`).
-/
namespace Lr35902

/-- The offset at which the last line of a text starts: after its last line feed, or at 0. -/
def Text.lineStart (text : List Char) : Nat :=
  Nat.findGreatest (fun offset => (text.take offset).getLast? = some '\n') text.length

/-- The place of what comes after some text. Its line is one more than the line feeds before it,
and its column counts from the start of that line. -/
def Location.after (file : String) (before : List Char) : Location :=
  ⟨file, (1 + before.count '\n' : Nat), (before.length - Text.lineStart before + 1 : Nat)⟩

namespace Scan

/-- A text that holds no lexeme, with what follows it: blanks, comments up to the end of their line,
and, if they are collapsed, line ends. -/
inductive Gap (collapsed : Bool) : List Char → List Char → Prop where
  | nil (following : List Char) : Gap collapsed [] following
  | space {c : Char} {text following : List Char} (hSpace : isSpace c = true)
      (hMore : Gap collapsed text following) : Gap collapsed (c :: text) following
  | comment {body text following : List Char} (hLine : '\n' ∉ body)
      (hEnd : (text ++ following).head?.all (· == '\n') = true)
      (hMore : Gap collapsed text following) : Gap collapsed (';' :: (body ++ text)) following
  | lineEnd {text following : List Char} (hCollapsed : collapsed = true)
      (hMore : Gap collapsed text following) : Gap collapsed ('\n' :: text) following

/-- From after one text to after another, what stands between them is divided into gaps and the
lexemes of some tokens. A line end is a token or, where it is collapsed, part of a gap. -/
inductive Divides (file : String) :
    Bool → List Char → List Char → List Token → List Char → List Char → Prop where
  | stop {collapsed : Bool} {before gap rest : List Char} (hGap : Gap collapsed gap rest) :
      Divides file collapsed before (gap ++ rest) [] (before ++ gap) rest
  | token {collapsed : Bool} {before gap text rest reached left : List Char} {lexeme : Lexeme}
      {tokens : List Token} (hGap : Gap collapsed gap (text ++ rest))
      (hText : lexeme.SpelledBy text rest) (hEnds : lexeme = .newline → collapsed = false)
      (hMore : Divides file (lexeme == .newline) (before ++ gap ++ text) rest tokens reached left) :
      Divides file collapsed before (gap ++ (text ++ rest))
        (⟨lexeme, .after file (before ++ gap)⟩ :: tokens) reached left

/-! ## Lines -/

section
variable {before piece : List Char}

theorem lineStart_le (text : List Char) : Text.lineStart text ≤ text.length :=
  Nat.findGreatest_le _

theorem lineStart_lineEnd (before : List Char) :
    Text.lineStart (before ++ ['\n']) = (before ++ ['\n']).length := by
  apply Nat.findGreatest_eq
  rw [List.take_length, List.getLast?_concat]

/-- A piece of a line does not move the start of the line. -/
theorem lineStart_append (h : '\n' ∉ piece) :
    Text.lineStart (before ++ piece) = Text.lineStart before := by
  obtain ⟨hLe, hStart, hNone⟩ := Nat.findGreatest_eq_iff.1
    (show Text.lineStart before = Text.lineStart before from rfl)
  refine Nat.findGreatest_eq_iff.2 ⟨?_, ?_, ?_⟩
  · rw [List.length_append]
    exact Nat.le_trans hLe (Nat.le_add_right _ _)
  · intro hPos
    rw [List.take_append_of_le_length hLe]
    exact hStart hPos
  · intro offset hAfter hWithin hFeed
    by_cases hBefore : offset ≤ before.length
    · rw [List.take_append_of_le_length hBefore] at hFeed
      exact hNone hAfter hBefore hFeed
    · -- the last character lies in the piece, which has no line feed
      rw [List.take_append, List.take_of_length_le (by omega)] at hFeed
      have hSome : piece.take (offset - before.length) ≠ [] := by
        intro hNil
        rw [List.length_append] at hWithin
        have hLength := congrArg List.length hNil
        rw [List.length_take, List.length_nil] at hLength
        omega
      rw [List.getLast?_append_of_ne_nil _ hSome] at hFeed
      exact h (List.mem_of_mem_take (List.mem_of_getLast? hFeed))

/-- The last line of a text has no line feed. -/
theorem not_mem_drop_lineStart (text : List Char) : '\n' ∉ text.drop (Text.lineStart text) := by
  induction text using List.reverseRecOn with
  | nil => exact List.not_mem_nil
  | append_singleton text c ih =>
    by_cases hFeed : c = '\n'
    · rw [hFeed, lineStart_lineEnd, List.drop_length]
      exact List.not_mem_nil
    · have hPiece : '\n' ∉ [c] := by simpa using Ne.symm hFeed
      rw [lineStart_append hPiece, List.drop_append_of_le_length (lineStart_le text)]
      exact List.not_mem_append ih hPiece

/-- The first line of a text. -/
theorem head?_splitOn (text : List Char) :
    (text.splitOn '\n')[0]? = some (text.takeWhile (· != '\n')) := by
  have hLine : '\n' ∉ text.takeWhile (· != '\n') := by
    intro hFeed
    simpa using List.all_eq_true.1 List.all_takeWhile _ hFeed
  have hStop := head?_drop_takeWhile (· != '\n') text
  have hText := takeWhile_append_drop (· != '\n') text
  generalize text.takeWhile (· != '\n') = line at hLine hStop hText ⊢
  generalize text.drop line.length = rest at hStop hText
  subst hText
  cases rest with
  | nil => rw [List.append_nil, List.splitOn_eq_singleton hLine]; rfl
  | cons c rest =>
    obtain rfl : c = '\n' := by simpa using hStop
    rw [List.splitOn_append_cons_self_of_not_mem hLine]
    rfl

end

/-! ## The cursor -/

/-- A cursor stands after some text. -/
structure Cursor.Stands (source before : List Char) (cursor : Cursor) : Prop where
  line_eq : cursor.line = 1 + before.count '\n'
  column_eq : cursor.column = before.length - Text.lineStart before + 1
  lineText_eq : cursor.lineText = source.drop (Text.lineStart before)
  lines_eq : cursor.lineText.splitOn '\n' = (source.splitOn '\n').drop (before.count '\n')

section
variable {source before piece rest : List Char} {cursor : Cursor}

theorem Cursor.start_stands (source : List Char) : (Cursor.start source).Stands source [] :=
  ⟨rfl, rfl, rfl, rfl⟩

theorem Cursor.Stands.location_eq (h : cursor.Stands source before) (file : String) :
    cursor.location file = .after file before := by
  rw [Cursor.location, h.line_eq, h.column_eq]
  rfl

theorem Cursor.Stands.forward (h : cursor.Stands source before) (hLine : '\n' ∉ piece) :
    (cursor.forward piece.length).Stands source (before ++ piece) := by
  have hStart := lineStart_le before
  refine ⟨?_, ?_, ?_, ?_⟩
  · rw [List.count_append, List.count_eq_zero_of_not_mem hLine]
    exact h.line_eq
  · rw [lineStart_append hLine, List.length_append]
    show cursor.column + piece.length = _
    rw [h.column_eq]
    omega
  · rw [lineStart_append hLine]
    exact h.lineText_eq
  · rw [List.count_append, List.count_eq_zero_of_not_mem hLine]
    exact h.lines_eq

theorem Cursor.Stands.nextLine (h : cursor.Stands source before)
    (hSource : source = before ++ '\n' :: rest) :
    (cursor.nextLine rest).Stands source (before ++ ['\n']) := by
  have hCount : (before ++ ['\n']).count '\n' = before.count '\n' + 1 := by
    rw [List.count_append]
    rfl
  have hRest : rest = source.drop (before ++ ['\n']).length := by
    rw [hSource, List.append_cons before '\n' rest, List.drop_left]
  refine ⟨?_, ?_, ?_, ?_⟩
  · rw [hCount, ← Nat.add_assoc, ← h.line_eq]
    rfl
  · rw [lineStart_lineEnd, Nat.sub_self]
    rfl
  · rw [lineStart_lineEnd, ← hRest]
    rfl
  · -- the line that ends here is the first one left
    have hLine : source.drop (Text.lineStart before) =
        before.drop (Text.lineStart before) ++ '\n' :: rest := by
      rw [hSource, List.drop_append_of_le_length (lineStart_le before)]
    rw [hCount, ← List.drop_drop, ← h.lines_eq, h.lineText_eq, hLine,
      List.splitOn_append_cons_self_of_not_mem (not_mem_drop_lineStart before)]
    rfl

/-- Every place of a text has its cursor. -/
theorem Cursor.exists_stands (h : before <+: source) :
    ∃ cursor : Cursor, cursor.Stands source before := by
  induction before using List.reverseRecOn with
  | nil => exact ⟨.start source, Cursor.start_stands source⟩
  | append_singleton before c ih =>
    obtain ⟨rest, hSource⟩ := h
    rw [List.append_assoc, List.singleton_append] at hSource
    obtain ⟨cursor, hCursor⟩ := ih ⟨c :: rest, hSource⟩
    by_cases hFeed : c = '\n'
    · subst hFeed
      exact ⟨cursor.nextLine rest, hCursor.nextLine hSource.symm⟩
    · exact ⟨_, hCursor.forward (by simpa using Ne.symm hFeed)⟩

theorem Cursor.Stands.lineOf_eq (h : cursor.Stands source before) :
    (source.splitOn '\n')[before.count '\n']? = some cursor.lineOf.toList := by
  have hFirst := head?_splitOn cursor.lineText
  rw [h.lines_eq, List.getElem?_drop, Nat.add_zero] at hFirst
  rw [hFirst, Cursor.lineOf, String.toList_ofList]

end

/-! ## Lexemes and gaps -/

theorem not_lineEnd_of_isSpace {c : Char} (h : isSpace c = true) : '\n' ∉ [c] := by
  intro hFeed
  rw [← List.mem_singleton.1 hFeed] at h
  cases h

theorem Literal.all_isIdentifierChar {radix : Radix} {mark digits : List Char}
    (h : Literal radix mark digits) : ∀ c ∈ mark ++ digits, isIdentifierChar c = true := by
  have hMarks : (marks.all fun entry => entry.2.all isIdentifierChar) = true := by decide
  have hMark := List.all_eq_true.1 (List.all_eq_true.1 hMarks _ h.marked)
  refine List.forall_mem_append.2 ⟨hMark, ?_⟩
  intro c hc
  exact isIdentifierChar_of_takesDigit (takesDigit_of_digitValue (h.digits_lt c hc))

theorem not_lineEnd_of_isIdentifierChar {text : List Char}
    (h : ∀ c ∈ text, isIdentifierChar c = true) : '\n' ∉ text := by
  intro hFeed
  cases h _ hFeed

end Scan

/-- Only a line end is spelled with a line feed. -/
theorem Lexeme.SpelledBy.not_lineEnd {lexeme : Lexeme} {text following : List Char}
    (h : lexeme.SpelledBy text following) (hOther : text.head? ≠ some '\n') : '\n' ∉ text := by
  cases h with
  | word _ _ hWord _ =>
    exact Scan.not_lineEnd_of_isIdentifierChar (Scan.isIdentifierChar_of_isWordText hWord)
  | @directive name _ hKnown _ =>
    have hAll : ∀ name ∈ Scan.directiveNames, '\n' ∉ name.toList := by decide
    exact hAll name hKnown
  | @number radix mark digits _ hLiteral _ _ =>
    exact Scan.not_lineEnd_of_isIdentifierChar hLiteral.all_isIdentifierChar
  | string _ hLine => simpa using hLine
  | delimiter mark _ => cases mark <;> decide
  | newline _ => exact absurd rfl hOther

theorem Lexeme.SpelledBy.ne_nil {lexeme : Lexeme} {text following : List Char}
    (h : lexeme.SpelledBy text following) : text ≠ [] := by
  cases h with
  | @word _ name _ _ _ hWord _ =>
    intro hNil
    rw [hNil] at hWord
    cases hWord
  | @directive name _ hKnown _ =>
    have hAll : ∀ name ∈ Scan.directiveNames, name.toList ≠ [] := by decide
    exact hAll name hKnown
  | number hLiteral _ _ => exact List.append_ne_nil_of_right_ne_nil _ hLiteral.nonempty
  | string _ _ => exact List.cons_ne_nil _ _
  | delimiter _ _ => exact List.cons_ne_nil _ _
  | newline _ => exact List.cons_ne_nil _ _

theorem Lexeme.SpelledBy.head?_of_newline {lexeme : Lexeme} {text following : List Char} {c : Char}
    (h : lexeme.SpelledBy (c :: text) following) (hNewline : lexeme = .newline) : c = '\n' := by
  generalize hText : c :: text = spelling at h
  cases h with
  | word hName _ _ _ =>
    rw [hNewline] at hName
    cases hName
  | newline _ =>
    cases hText
    rfl
  | _ => cases hNewline

namespace Scan

section
variable {file : String} {collapsed : Bool} {before piece text rest reached left : List Char}
  {tokens : List Token}

/-- A gap grows at its front. -/
theorem Divides.grow (h : Divides file collapsed (before ++ piece) rest tokens reached left)
    (hGap : ∀ gap following, gap ++ following = rest → Gap collapsed gap following →
      Gap collapsed (piece ++ gap) following) :
    Divides file collapsed before (piece ++ rest) tokens reached left := by
  cases h with
  | stop hFirst =>
    rw [← List.append_assoc, List.append_assoc before]
    exact .stop (hGap _ _ rfl hFirst)
  | token hFirst hText hEnds hMore =>
    rw [← List.append_assoc, List.append_assoc before]
    rw [List.append_assoc before] at hMore
    exact .token (hGap _ _ rfl hFirst) hText hEnds hMore

theorem Divides.space {c : Char} (hSpace : isSpace c = true)
    (h : Divides file collapsed (before ++ [c]) rest tokens reached left) :
    Divides file collapsed before (c :: rest) tokens reached left :=
  h.grow fun _ _ _ hMore => .space hSpace hMore

theorem Divides.lineEnd (h : Divides file true (before ++ ['\n']) rest tokens reached left) :
    Divides file true before ('\n' :: rest) tokens reached left :=
  h.grow fun _ _ _ hMore => .lineEnd rfl hMore

theorem Divides.comment
    (h : Divides file collapsed (before ++ ';' :: rest.takeWhile (· != '\n'))
      (rest.drop (rest.takeWhile (· != '\n')).length) tokens reached left) :
    Divides file collapsed before (';' :: rest) tokens reached left := by
  have hBody : '\n' ∉ rest.takeWhile (· != '\n') := by
    intro hFeed
    simpa using List.all_eq_true.1 List.all_takeWhile _ hFeed
  have hStop := head?_drop_takeWhile (· != '\n') rest
  have hText := takeWhile_append_drop (· != '\n') rest
  have hGrown := h.grow fun gap following hRest hMore => by
    refine .comment hBody ?_ hMore
    rw [hRest]
    cases hLeft : rest.drop (rest.takeWhile (· != '\n')).length with
    | nil => rfl
    | cons c left =>
      rw [hLeft] at hStop
      simpa using hStop
  rwa [List.cons_append, hText] at hGrown

theorem Divides.lexeme {c : Char} {lexeme : Lexeme} {taken : Nat} (hBreak : c ≠ '\n')
    (hRead : readLexeme c rest = .ok (lexeme, taken))
    (h : Divides file (lexeme == .newline) (before ++ c :: rest.take taken) (rest.drop taken) tokens
      reached left) :
    Divides file collapsed before (c :: rest) (⟨lexeme, .after file before⟩ :: tokens) reached
      left := by
  have hText := readLexeme_spelledBy hRead
  have hOther : lexeme ≠ .newline := by
    intro hNewline
    exact hBreak (hText.head?_of_newline hNewline)
  have hWhole := @Divides.token file collapsed before [] (c :: rest.take taken) (rest.drop taken)
    reached left lexeme tokens (.nil _) hText (fun hNewline => absurd hNewline hOther)
    (by simpa using h)
  simpa using hWhole

theorem Divides.newline (h : Divides file true (before ++ ['\n']) rest tokens reached left) :
    Divides file false before ('\n' :: rest) (⟨.newline, .after file before⟩ :: tokens) reached
      left := by
  have hWhole := @Divides.token file false before [] ['\n'] rest reached left .newline tokens
    (.nil _) (.newline rest) (fun _ => rfl) (by simpa using h)
  simpa using hWhole

end

section
variable {source before rest : List Char} {cursor : Cursor}

/-- A comment does not leave its line. -/
theorem Cursor.Stands.comment (h : cursor.Stands source before) (rest : List Char) :
    (cursor.forward (1 + (rest.takeWhile (· != '\n')).length)).Stands source
      (before ++ ';' :: rest.takeWhile (· != '\n')) := by
  have hLine : '\n' ∉ ';' :: rest.takeWhile (· != '\n') := by
    intro hFeed
    rcases List.mem_cons.1 hFeed with hSame | hFeed
    · cases hSame
    · simpa using List.all_eq_true.1 List.all_takeWhile _ hFeed
  have hForward := h.forward hLine
  rw [List.length_cons, Nat.add_comm] at hForward
  exact hForward

/-- Nor does a lexeme that is no line end. -/
theorem Cursor.Stands.lexeme {c : Char} {lexeme : Lexeme} {taken : Nat}
    (h : cursor.Stands source before) (hBreak : c ≠ '\n')
    (hRead : readLexeme c rest = .ok (lexeme, taken)) :
    (cursor.forward (1 + taken)).Stands source (before ++ c :: rest.take taken) := by
  have hLength : (c :: rest.take taken).length = 1 + taken := by
    rw [List.length_cons, List.length_take_of_le (readLexeme_le hRead), Nat.add_comm]
  have hLine : '\n' ∉ c :: rest.take taken := by
    apply (readLexeme_spelledBy hRead).not_lineEnd
    simpa using hBreak
  have hForward := h.forward hLine
  rw [hLength] at hForward
  exact hForward

end
end Scan

/-- A diagnostic points at an offset of a text: the text that begins there offends for its cause,
its place is the place there, and it quotes the line of that place. -/
structure Diagnostic.PointsAt (file : String) (source : List Char) (offset : Nat)
    (diagnostic : Diagnostic) : Prop where
  offends : diagnostic.cause.Offends (source.drop offset)
  location_eq : diagnostic.location = some (.after file (source.take offset))
  quotes : ∃ line, diagnostic.sourceLine = some line ∧
    (source.splitOn '\n')[(source.take offset).count '\n']? = some line.toList

namespace Scan

/-! ## The scanner -/

/-- What a result of the scanner says of the text at the cursor, where `done` holds the tokens
before it. -/
def Explains (file : String) (source : List Char) (done : List Token) (collapsed : Bool)
    (before text : List Char) : Except Diagnostic (List Token) → Prop
  | .ok tokens => ∃ more, tokens = done.reverse ++ more ∧
      Divides file collapsed before text more source []
  | .error diagnostic => ∃ more reached left, Divides file collapsed before text more reached left ∧
      diagnostic.PointsAt file source reached.length

section
variable {file : String} {source before text : List Char} {cursor : Cursor} {done : List Token}

/-- A step of the scanner passes some text, and adds the tokens that stand there. -/
theorem Explains.step {next rest : List Char} {collapsed onward : Bool} {later extra : List Token}
    {result : Except Diagnostic (List Token)}
    (h : Explains file source later onward next rest result)
    (hDone : later.reverse = done.reverse ++ extra)
    (hStep : ∀ more reached left, Divides file onward next rest more reached left →
      Divides file collapsed before text (extra ++ more) reached left) :
    Explains file source done collapsed before text result := by
  cases result with
  | ok tokens =>
    obtain ⟨more, rfl, hMore⟩ := h
    refine ⟨extra ++ more, ?_, hStep _ _ _ hMore⟩
    rw [hDone, List.append_assoc]
  | error diagnostic =>
    obtain ⟨more, reached, left, hMore, hPoints⟩ := h
    exact ⟨extra ++ more, reached, left, hStep _ _ _ hMore, hPoints⟩

/-- The scanner divides the text up to its end, or up to where its diagnostic points. -/
theorem scanFrom_explains {result : Except Diagnostic (List Token)}
    (h : scanFrom file cursor done text = result) (hSource : source = before ++ text)
    (hCursor : cursor.Stands source before) :
    Explains file source done (atLineStart done) before text result := by
  revert before
  fun_induction scanFrom file cursor done text with
  | case1 cursor done =>
    intro before hSource hCursor
    subst h
    refine ⟨[], (List.append_nil _).symm, ?_⟩
    rw [hSource]
    exact .stop (.nil _)
  | case2 cursor done c rest hSpace ih =>
    intro before hSource hCursor
    have hNext := ih h (by simpa using hSource) (hCursor.forward (not_lineEnd_of_isSpace hSpace))
    exact hNext.step (List.append_nil _).symm fun _ _ _ hMore => hMore.space hSpace
  | case3 cursor done rest comment hSpace ih =>
    intro before hSource hCursor
    have hPassed : source = before ++ ';' :: rest.takeWhile (· != '\n') ++ rest.drop comment := by
      rw [List.append_assoc, List.cons_append, takeWhile_append_drop, hSource]
    have hNext := ih h hPassed (hCursor.comment rest)
    exact hNext.step (List.append_nil _).symm fun _ _ _ hMore => hMore.comment
  | case4 cursor done rest after hSpace hComment ih =>
    intro before hSource hCursor
    have hNext := ih h (by simpa using hSource) (hCursor.nextLine hSource)
    by_cases hStart : atLineStart done = true
    · rw [show after = done from if_pos hStart] at hNext
      rw [hStart] at hNext ⊢
      exact hNext.step (List.append_nil _).symm fun _ _ _ hMore => hMore.lineEnd
    · rw [show after = ⟨.newline, cursor.location file⟩ :: done from if_neg hStart] at hNext
      rw [Bool.not_eq_true] at hStart
      rw [hStart]
      refine hNext.step (List.reverse_cons ..) ?_
      intro more reached left hMore
      rw [hCursor.location_eq]
      exact hMore.newline
  | case5 cursor done c rest hSpace hComment hBreak cause hRead =>
    intro before hSource hCursor
    subst h
    have hTake : source.take before.length = before := by rw [hSource, List.take_left]
    have hDrop : source.drop before.length = c :: rest := by rw [hSource, List.drop_left]
    refine ⟨[], before, c :: rest, ?_, ?_, ?_, ?_⟩
    · simpa using @Divides.stop file (atLineStart done) before [] (c :: rest) (.nil _)
    · rw [hDrop]
      exact readLexeme_offends hRead
    · rw [hTake, ← hCursor.location_eq]
      rfl
    · rw [hTake]
      exact ⟨_, rfl, hCursor.lineOf_eq⟩
  | case6 cursor done c rest hSpace hComment hBreak lexeme taken hRead ih =>
    intro before hSource hCursor
    have hNext := ih h (by simpa using hSource) (hCursor.lexeme hBreak hRead)
    refine hNext.step (List.reverse_cons ..) ?_
    intro more reached left hMore
    rw [hCursor.location_eq]
    exact hMore.lexeme hBreak hRead

end

/-! ## Spans -/

/-- Part of a text: from which offset to which. -/
structure Span where
  start : Nat
  finish : Nat

end Scan

/-- A token stands in a span of a text: its place is where the span starts, and the characters of
the span spell its lexeme. -/
structure Token.StandsAt (file : String) (source : List Char) (token : Token) (span : Scan.Span) :
    Prop where
  nonempty : span.start < span.finish
  bounded : span.finish ≤ source.length
  location_eq : token.location = .after file (source.take span.start)
  spelled : token.lexeme.SpelledBy (source.extract span.start span.finish)
    (source.drop span.finish)

namespace Scan

/-- Between an offset and another one there are only gaps outside the spans of some tokens. Line
ends are collapsed at the start and after a line end. -/
def Separates (source : List Char) : Bool → Nat → List (Token × Span) → Nat → Prop
  | collapsed, offset, [], stop =>
    offset ≤ stop ∧ Gap collapsed (source.extract offset stop) (source.drop stop)
  | collapsed, offset, (token, span) :: more, stop =>
    (offset ≤ span.start ∧
      Gap collapsed (source.extract offset span.start) (source.drop span.start)) ∧
      (token.lexeme = .newline → collapsed = false) ∧
      Separates source (token.lexeme == .newline) span.finish more stop

/-- Up to an offset a text consists of tokens, each in its span and one after another, with gaps
before, between and after them. -/
def Covers (file : String) (source : List Char) (tokens : List Token) (stop : Nat) : Prop :=
  ∃ spans : List Span, List.Forall₂ (Token.StandsAt file source) tokens spans ∧
    spans.Pairwise (fun first second => first.finish ≤ second.start) ∧
    Separates source true 0 (tokens.zip spans) stop

theorem extract_append (before piece rest : List Char) :
    (before ++ (piece ++ rest)).extract before.length (before.length + piece.length) = piece := by
  rw [List.extract_eq_take_drop, List.drop_left, Nat.add_sub_cancel_left, List.take_left]

section
variable {file : String} {source before text reached left : List Char} {collapsed : Bool}
  {tokens : List Token}

/-- What is divided into gaps and lexemes has tokens in spans one after another. -/
theorem Divides.spans (h : Divides file collapsed before text tokens reached left)
    (hSource : source = before ++ text) :
    ∃ spans : List Span, List.Forall₂ (Token.StandsAt file source) tokens spans ∧
      spans.Pairwise (fun first second => first.finish ≤ second.start) ∧
      (∀ span ∈ spans, before.length ≤ span.start) ∧
      Separates source collapsed before.length (tokens.zip spans) reached.length := by
  induction h with
  | @stop collapsed before gap rest hGap =>
    refine ⟨[], .nil, .nil, List.forall_mem_nil _, ?_, ?_⟩
    · rw [List.length_append]
      exact Nat.le_add_right _ _
    · rw [hSource, List.length_append, extract_append, ← List.append_assoc, ← List.length_append,
        List.drop_left]
      exact hGap
  | @token collapsed before gap text rest reached left lexeme tokens hGap hText hEnds hMore ih =>
    obtain ⟨spans, hTokens, hOrder, hAfter, hGaps⟩ := ih (by simpa using hSource)
    have hPos := List.length_pos_iff.2 hText.ne_nil
    have hLater : ∀ span ∈ spans, (before ++ gap).length + text.length ≤ span.start := by
      intro span hMem
      simpa [Nat.add_assoc] using hAfter span hMem
    refine ⟨⟨(before ++ gap).length, (before ++ gap).length + text.length⟩ :: spans,
      .cons ⟨?_, ?_, ?_, ?_⟩ hTokens, .cons hLater hOrder, ?_, ⟨?_, ?_⟩, hEnds, ?_⟩
    · exact Nat.lt_add_of_pos_right hPos
    · simp [hSource]
      omega
    · rw [hSource, ← List.append_assoc, List.take_left]
    · rw [hSource, ← List.append_assoc, extract_append, ← List.append_assoc, ← List.length_append,
        List.drop_left]
      exact hText
    · intro span hMem
      rcases List.mem_cons.1 hMem with rfl | hMem
      · simp
      · have := hLater span hMem
        rw [List.length_append] at this
        omega
    · simp
    · rw [hSource, List.length_append, extract_append, ← List.append_assoc, ← List.length_append,
        List.drop_left]
      exact hGap
    · rw [← List.length_append]
      exact hGaps

theorem Divides.covers (h : Divides file true [] source tokens reached left) :
    Covers file source tokens reached.length := by
  obtain ⟨spans, hTokens, hOrder, -, hGaps⟩ := h.spans rfl
  exact ⟨spans, hTokens, hOrder, hGaps⟩

end

/-- A text that can be scanned is divided into gaps and the lexemes of its tokens. -/
theorem divides_of_scan {source file : String} {tokens : List Token}
    (h : scan source file = .ok tokens) :
    Divides file true [] source.toList tokens source.toList [] := by
  obtain ⟨more, hMore, hDivides⟩ :
      Explains file source.toList [] true [] source.toList (.ok tokens) :=
    scanFrom_explains h rfl (Cursor.start_stands _)
  obtain rfl : tokens = more := hMore
  exact hDivides

end Scan

/-- Places are exact and no text is lost. A text that can be scanned consists of its tokens, each at
the place of its first character and spelled in full, with nothing but gaps outside them. Otherwise
the text before some offset does, and the diagnostic points at what stands there. -/
theorem scan_exact (source file : String) :
    match scan source file with
    | .ok tokens => Scan.Covers file source.toList tokens source.length
    | .error diagnostic => ∃ tokens offset, Scan.Covers file source.toList tokens offset ∧
        diagnostic.PointsAt file source.toList offset := by
  have hExplains : Scan.Explains file source.toList [] true [] source.toList (scan source file) :=
    Scan.scanFrom_explains rfl rfl (Scan.Cursor.start_stands _)
  cases hScan : scan source file with
  | ok tokens =>
    rw [hScan] at hExplains
    obtain ⟨more, rfl, hDivides⟩ := hExplains
    rw [← String.length_toList]
    exact hDivides.covers
  | error diagnostic =>
    rw [hScan] at hExplains
    obtain ⟨more, reached, left, hDivides, hPoints⟩ := hExplains
    exact ⟨more, reached.length, hDivides.covers, hPoints⟩

/-! ## Texts with surrogates -/

/-- A token stands in a span of a text that may hold surrogates: its place is where the span starts,
and if it is a string, it says what stands between the quotes of the span. -/
structure Token.StandsIn (file : String) (text : List CodePoint) (token : Token)
    (span : Scan.Span) : Prop where
  location_eq : token.location = .after file ((text.map CodePoint.shadow).take span.start)
  string : ∀ literal : StringLiteral, token.lexeme = literal.lexeme →
    text.extract span.start span.finish = .char '"' :: (literal.points ++ [.char '"'])

theorem CodePoint.shadow_eq_iff {point : CodePoint} {c : Char} (h : c ≠ '\x00') :
    point.shadow = c ↔ point = .char c := by
  cases point with
  | char other => simp [shadow]
  | surrogate index => simpa [shadow] using Ne.symm h

theorem Lexeme.not_spelledBy_broken (broken : BrokenText) {text following : List Char} :
    ¬(Lexeme.brokenString broken).SpelledBy text following := by
  intro h
  cases h with
  | word _ hKind _ _ =>
    unfold Scan.classify at hKind
    split_ifs at hKind

theorem Lexeme.SpelledBy.string_eq {content : String} {text following : List Char}
    (h : (Lexeme.string content).SpelledBy text following) :
    text = '"' :: (content.toList ++ ['"']) := by
  generalize hString : Lexeme.string content = lexeme at h
  cases h with
  | word _ hKind _ _ =>
    rw [← hString] at hKind
    unfold Scan.classify at hKind
    split_ifs at hKind
  | string _ _ =>
    cases hString
    rfl
  | delimiter mark _ => cases hString
  | _ => cases hString

namespace Scan

/-- Without the lines before a place, a text starts with the line of that place. -/
theorem afterLines_eq (before rest : List CodePoint) :
    afterLines (before ++ rest) ((before.map CodePoint.shadow).count '\n') =
      (before ++ rest).drop (Text.lineStart (before.map CodePoint.shadow)) := by
  induction before using List.reverseRecOn generalizing rest with
  | nil => rfl
  | append_singleton before point ih =>
    have hLine := ih (point :: rest)
    rw [List.append_assoc, List.singleton_append, List.map_append, List.map_singleton,
      List.count_append]
    by_cases hFeed : point = .char '\n'
    · -- the next line starts behind the line feed that ends this one
      have hStart := lineStart_le (before.map CodePoint.shadow)
      rw [List.length_map] at hStart
      have hNone : ∀ other ∈ before.drop (Text.lineStart (before.map CodePoint.shadow)),
          (other != .char '\n') = true := by
        intro other hMem
        rw [bne_iff_ne]
        rintro rfl
        apply not_mem_drop_lineStart (before.map CodePoint.shadow)
        rw [← List.map_drop]
        exact List.mem_map_of_mem hMem
      subst hFeed
      show ((afterLines _ _).dropWhile _).drop 1 = _
      rw [hLine, List.drop_append_of_le_length hStart, List.dropWhile_append_of_pos hNone,
        CodePoint.shadow, lineStart_lineEnd]
      simp
    · have hOther : point.shadow ≠ '\n' := by
        rw [Ne, CodePoint.shadow_eq_iff (by decide)]
        exact hFeed
      have hPiece : '\n' ∉ [point.shadow] := by simpa using Ne.symm hOther
      rw [lineStart_append hPiece, List.count_eq_zero.2 hPiece, Nat.add_zero]
      exact hLine

theorem behind_eq {text : List CodePoint} {offset : Nat} (h : offset ≤ text.length)
    (file : String) {place : Location}
    (hPlace : place = .after file ((text.map CodePoint.shadow).take offset)) :
    behind text place.line place.column = text.drop (offset + 1) := by
  have hLines := afterLines_eq (text.take offset) (text.drop offset)
  rw [List.take_append_drop, List.map_take] at hLines
  have hStart := lineStart_le ((text.map CodePoint.shadow).take offset)
  have hLength : ((text.map CodePoint.shadow).take offset).length = offset := by simpa using h
  have hLine : (place.line - 1).toNat = ((text.map CodePoint.shadow).take offset).count '\n' := by
    rw [hPlace]
    dsimp only [Location.after]
    omega
  have hColumn : place.column.toNat =
      offset - Text.lineStart ((text.map CodePoint.shadow).take offset) + 1 := by
    rw [hPlace]
    dsimp only [Location.after]
    omega
  rw [behind, hLine, hLines, hColumn, List.drop_drop]
  congr 1
  omega

end Scan

/-- What a span of the characters that stand in for a text says of the text: if it is a string, its
quotes are quotes of the text too, and its characters stand in for what is between them. -/
theorem CodePoint.quoted_of_shadow {piece : List CodePoint} {content : List Char}
    (h : piece.map CodePoint.shadow = '"' :: (content ++ ['"'])) :
    ∃ inner : List CodePoint, piece = .char '"' :: (inner ++ [.char '"']) ∧
      inner.map CodePoint.shadow = content := by
  obtain ⟨first, rest, rfl, hFirst, hRest⟩ := List.map_eq_cons_iff.1 h
  obtain ⟨inner, last, rfl, hInner, hLast⟩ := List.map_eq_append_iff.1 hRest
  obtain ⟨final, none, rfl, hFinal, hNone⟩ := List.map_eq_cons_iff.1 hLast
  obtain rfl := List.map_eq_nil_iff.1 hNone
  have hQuote : '"' ≠ '\x00' := by decide
  rw [(CodePoint.shadow_eq_iff hQuote).1 hFirst, (CodePoint.shadow_eq_iff hQuote).1 hFinal]
  exact ⟨inner, rfl, hInner⟩

theorem Token.StandsAt.restore {file : String} {text : List CodePoint} {token : Token}
    {span : Scan.Span} (h : token.StandsAt file (text.map CodePoint.shadow) span) :
    (Scan.restore text token).StandsIn file text span where
  location_eq := (Scan.restore_location text token).trans h.location_eq
  string literal hLiteral := by
    have hString : ∃ written, token.lexeme = .string written := by
      obtain hSame | ⟨written, _, hWritten, -, -⟩ := Scan.restore_cases text token
      · rw [hSame] at hLiteral
        cases literal with
        | text content => exact ⟨content, hLiteral⟩
        | broken content =>
          have hSpelled := h.spelled
          rw [hLiteral] at hSpelled
          exact absurd hSpelled (Lexeme.not_spelledBy_broken content)
      · exact ⟨written, hWritten⟩
    obtain ⟨written, hWritten⟩ := hString
    have hShadow : (text.extract span.start span.finish).map CodePoint.shadow =
        '"' :: (written.toList ++ ['"']) := by
      have hSpelled := h.spelled
      rw [hWritten] at hSpelled
      rw [← hSpelled.string_eq, List.extract_eq_take_drop, List.extract_eq_take_drop, List.map_take,
        List.map_drop]
    obtain ⟨inner, hInner, hContent⟩ := CodePoint.quoted_of_shadow hShadow
    have hTaken : (Scan.behind text token.location.line token.location.column).take
        written.length = inner := by
      have hAll : text.drop span.start =
          .char '"' :: (inner ++ .char '"' :: text.drop span.finish) := by
        rw [← List.take_append_drop (span.finish - span.start) (text.drop span.start),
          ← List.extract_eq_take_drop, hInner, List.drop_drop,
          Nat.add_sub_of_le (Nat.le_of_lt h.nonempty)]
        simp
      have hLength : written.length = inner.length := by
        rw [← String.length_toList, ← hContent, List.length_map]
      have hBounded := h.bounded
      rw [List.length_map] at hBounded
      rw [Scan.behind_eq (Nat.le_trans (Nat.le_of_lt h.nonempty) hBounded) file h.location_eq,
        ← List.tail_drop, hAll, List.tail_cons, hLength, List.take_left]
    rw [hInner]
    simp only [Scan.restore, hWritten, hTaken] at hLiteral
    cases hBroken : BrokenText.ofPoints? inner with
    | some broken =>
      simp only [hBroken] at hLiteral
      cases literal with
      | text content => cases hLiteral
      | broken content =>
        cases hLiteral
        rw [StringLiteral.points, BrokenText.points_of_ofPoints? hBroken]
    | none =>
      simp only [hBroken, hWritten] at hLiteral
      cases literal with
      | text content =>
        cases hLiteral
        rw [StringLiteral.points, ← hContent,
          ← CodePoint.eq_chars (BrokenText.ofPoints?_eq_none.1 hBroken)]
      | broken content => cases hLiteral

/-- The strings of a text say what stands between their quotes, surrogates included. -/
theorem scanText_standsIn {text : List CodePoint} {file : String} {tokens : List Token}
    (h : scanText text file = .ok tokens) :
    ∃ spans : List Scan.Span, List.Forall₂ (Token.StandsIn file text) tokens spans := by
  obtain ⟨shadows, hScan, rfl⟩ := scanText_ok_iff.1 h
  obtain ⟨spans, hSpans, -⟩ := (Scan.divides_of_scan hScan).covers
  rw [String.toList_ofList] at hSpans
  refine ⟨spans, List.forall₂_map_left_iff.2 (hSpans.imp ?_)⟩
  intro token span hStands
  exact hStands.restore

end Lr35902
