import Mathlib.Data.List.TakeWhile
import Lr35902.Proofs.Positions
import Lr35902.Text.Lines

/-!
Displayed lines and scanned lines. The scanner counts line feeds, while a display also ends a line
at other breaks. A break that ends no line of the scanner is a stray one, and each of them moves the
displayed lines after it by one (`length_displayLines`). So the displayed line with the number of a
scanned line is the first part of that line if no stray break comes before it, and part of an
earlier line otherwise (`displayLines_getElem?`).
-/
namespace Lr35902
namespace Text

/-- Whether a character breaks a displayed line without ending a line: it is no line feed, nor a
carriage return at the end of a line. -/
def isStray (c : Char) (following : List Char) : Bool :=
  isLineBreak c && c != '\n' && !(c == '\r' && following.head?.all (· == '\n'))

/-- The number of stray breaks in a text. -/
def strays : List Char → Nat
  | [] => 0
  | c :: rest => (if isStray c rest then 1 else 0) + strays rest

/-- A line without the carriage return that it ends in, if it does. -/
def withoutReturn (line : List Char) : List Char :=
  if line.getLast? = some '\r' then line.dropLast else line

/-- The part of a line that is displayed as its first line. -/
def untilBreak (line : List Char) : List Char := line.takeWhile fun c => !isLineBreak c

/-! ## Displayed lines -/

section
variable {c : Char} {text rest : List Char}

theorem displayLines_break (hBreak : isLineBreak c = true)
    (hAlone : c = '\r' → rest.head? ≠ some '\n') :
    displayLines (c :: rest) = [] :: displayLines rest := by
  rw [displayLines]
  · rw [if_pos hBreak]
  · rintro more rfl rfl
    exact hAlone rfl rfl

theorem displayLines_char (hChar : isLineBreak c = false) :
    displayLines (c :: rest) = (c :: (displayLines rest).headD []) :: (displayLines rest).tail := by
  rw [displayLines]
  · rw [if_neg (by rw [hChar]; exact Bool.false_ne_true)]
    cases displayLines rest with
    | nil => rfl
    | cons line lines => rfl
  · rintro more rfl rfl
    cases hChar

theorem displayLines_ne_nil (h : text ≠ []) : displayLines text ≠ [] := by
  fun_cases displayLines text with
  | case1 => exact absurd rfl h
  | case2 => exact List.cons_ne_nil _ _
  | case3 => exact List.cons_ne_nil _ _
  | case4 => exact List.cons_ne_nil _ _
  | case5 => exact List.cons_ne_nil _ _

/-- The first displayed line of a text goes up to its first break. -/
theorem head?_displayLines (h : text ≠ []) : (displayLines text)[0]? = some (untilBreak text) := by
  induction text with
  | nil => exact absurd rfl h
  | cons c rest ih =>
    cases hBreak : isLineBreak c with
    | true =>
      have hFirst : untilBreak (c :: rest) = [] := by simp [untilBreak, hBreak]
      rw [hFirst]
      unfold displayLines
      split <;> simp_all
    | false =>
      have hFirst : untilBreak (c :: rest) = c :: untilBreak rest := by simp [untilBreak, hBreak]
      rw [displayLines_char hBreak, hFirst]
      cases rest with
      | nil => rfl
      | cons d more =>
        have hMore := ih (List.cons_ne_nil d more)
        cases hLines : displayLines (d :: more) with
        | nil => exact absurd hLines (displayLines_ne_nil (List.cons_ne_nil d more))
        | cons line lines =>
          rw [hLines] at hMore
          obtain rfl : line = untilBreak (d :: more) := by simpa using hMore
          rfl

/-- What follows a line feed is displayed as if it stood alone. -/
theorem displayLines_feed (text rest : List Char) :
    displayLines (text ++ '\n' :: rest) = displayLines (text ++ ['\n']) ++ displayLines rest := by
  fun_induction displayLines text with
  | case1 => rfl
  | case2 text ih =>
    show [] :: displayLines (text ++ '\n' :: rest) = [] :: displayLines (text ++ ['\n']) ++ _
    rw [ih]
    rfl
  | case3 c text hAlone hBreak ih =>
    cases text with
    | nil =>
      by_cases hReturn : c = '\r'
      · rw [hReturn]
        rfl
      · rw [List.cons_append, List.cons_append, displayLines_break hBreak (absurd · hReturn),
          displayLines_break hBreak (absurd · hReturn)]
        rfl
    | cons d text =>
      have hPair : c = '\r' → d ≠ '\n' := by
        rintro rfl rfl
        exact hAlone text rfl rfl
      have hAfter : ∀ more,
          displayLines (c :: (d :: text) ++ more) = [] :: displayLines (d :: text ++ more) := by
        intro more
        apply displayLines_break hBreak
        intro hReturn
        simpa using hPair hReturn
      rw [hAfter, hAfter, ih]
      rfl
  | case4 c text hAlone hChar hNone ih =>
    rw [Bool.not_eq_true] at hChar
    obtain rfl : text = [] := by
      by_contra hSome
      exact displayLines_ne_nil hSome hNone
    rw [List.cons_append, List.cons_append, displayLines_char hChar, displayLines_char hChar]
    rfl
  | case5 c text hAlone hChar line lines hLines ih =>
    rw [Bool.not_eq_true] at hChar
    rw [List.cons_append, List.cons_append, displayLines_char hChar, displayLines_char hChar, ih]
    cases hFirst : displayLines (text ++ ['\n']) with
    | nil => exact absurd hFirst (displayLines_ne_nil (by simp))
    | cons first more => rfl

end

section
variable {c : Char} {above line rest : List Char}

theorem displayLines_append (h : Scan.WholeLines above) (rest : List Char) :
    displayLines (above ++ rest) = displayLines above ++ displayLines rest := by
  rcases h.cases with rfl | ⟨line, rfl⟩
  · rfl
  · rw [List.append_assoc, List.cons_append, List.nil_append, displayLines_feed]

/-! ## Stray breaks -/

theorem isStray_of_not_isLineBreak (h : isLineBreak c = false) : isStray c rest = false := by
  simp [isStray, h]

theorem isStray_append (h : rest ≠ []) (more : List Char) :
    isStray c (rest ++ more) = isStray c rest := by
  cases rest with
  | nil => exact absurd rfl h
  | cons d rest => rfl

/-- The breaks of whole lines are stray whatever follows them. -/
theorem strays_append (h : Scan.WholeLines above) (rest : List Char) :
    strays (above ++ rest) = strays above + strays rest := by
  rcases h.cases with rfl | ⟨line, rfl⟩
  · rw [strays, Nat.zero_add]
    rfl
  · clear h
    induction line with
    | nil => simp [strays, isStray]
    | cons c line ih =>
      have hStray : isStray c (line ++ ['\n'] ++ rest) = isStray c (line ++ ['\n']) :=
        isStray_append (by simp) rest
      rw [List.cons_append, List.cons_append, strays, strays, ih, hStray]
      omega

theorem wholeLines_tail (h : Scan.WholeLines (c :: rest)) : Scan.WholeLines rest := by
  cases rest with
  | nil => exact .inl rfl
  | cons d more => exact .inr (by simpa [Scan.WholeLines] using h)

theorem ne_nil_of_wholeLines (h : Scan.WholeLines (c :: rest)) (hOther : c ≠ '\n') : rest ≠ [] := by
  rintro rfl
  exact hOther (by simpa [Scan.WholeLines] using h)

/-- Each stray break makes one displayed line more. -/
theorem length_displayLines (h : Scan.WholeLines above) :
    (displayLines above).length = above.count '\n' + strays above := by
  fun_induction displayLines above with
  | case1 => rfl
  | case2 rest ih =>
    have hRest := ih (wholeLines_tail (wholeLines_tail h))
    have hStrays : strays ('\r' :: '\n' :: rest) = strays rest := by simp [strays, isStray]
    rw [List.length_cons, hRest, hStrays, List.count_cons_of_ne (by decide), List.count_cons_self]
    omega
  | case3 c rest hAlone hBreak ih =>
    rw [List.length_cons, ih (wholeLines_tail h), strays]
    by_cases hFeed : c = '\n'
    · subst hFeed
      rw [List.count_cons_self, if_neg (by simp [isStray])]
      omega
    · have hStray : isStray c rest = true := by
        cases rest with
        | nil => exact absurd rfl (ne_nil_of_wholeLines h hFeed)
        | cons d more =>
          have hPair : c = '\r' → d ≠ '\n' := by
            rintro rfl rfl
            exact hAlone more rfl rfl
          simpa [isStray, hBreak, hFeed, ← imp_iff_not_or] using hPair
      rw [List.count_cons_of_ne hFeed, if_pos hStray]
      omega
  | case4 c rest _ hChar hNone ih =>
    have hFeed : c ≠ '\n' := by
      rintro rfl
      exact hChar rfl
    exact absurd hNone (displayLines_ne_nil (ne_nil_of_wholeLines h hFeed))
  | case5 c rest _ hChar line lines hLines ih =>
    have hFeed : c ≠ '\n' := by
      rintro rfl
      exact hChar rfl
    have hRest := ih (wholeLines_tail h)
    rw [hLines] at hRest
    rw [Bool.not_eq_true] at hChar
    rw [strays, List.count_cons_of_ne hFeed, isStray_of_not_isLineBreak hChar]
    simpa using hRest

theorem withoutReturn_cons (h : c = '\r' → rest ≠ []) :
    withoutReturn (c :: rest) = c :: withoutReturn rest := by
  cases rest with
  | nil =>
    have hOther : c ≠ '\r' := fun hReturn => h hReturn rfl
    simp [withoutReturn, hOther]
  | cons d more =>
    simp only [withoutReturn, List.getLast?_cons_cons, List.dropLast_cons_cons]
    split <;> rfl

/-- A line is displayed in one piece, but for a carriage return at its end, exactly if it has no
stray break. -/
theorem strays_eq_zero_iff (hLine : '\n' ∉ line) :
    strays line = 0 ↔ untilBreak line = withoutReturn line := by
  induction line with
  | nil => exact iff_of_true rfl rfl
  | cons c rest ih =>
    rw [List.mem_cons, not_or] at hLine
    obtain ⟨hFeed, hRest⟩ := hLine
    cases hBreak : isLineBreak c with
    | true =>
      have hFirst : untilBreak (c :: rest) = [] := by simp [untilBreak, hBreak]
      rw [hFirst, strays]
      by_cases hEnd : c = '\r' ∧ rest = []
      · obtain ⟨rfl, rfl⟩ := hEnd
        exact iff_of_true rfl rfl
      · -- a break with something after it is stray, and the line goes on
        have hStray : isStray c rest = true := by
          cases rest with
          | nil => simpa [isStray, hBreak, Ne.symm hFeed] using hEnd
          | cons d more =>
            have hNext : d ≠ '\n' := fun hSame => hRest (hSame ▸ List.mem_cons_self)
            simp [isStray, hBreak, Ne.symm hFeed, hNext]
        have hReturn : c = '\r' → rest ≠ [] := fun hReturn hNil => hEnd ⟨hReturn, hNil⟩
        rw [if_pos hStray, withoutReturn_cons hReturn]
        exact iff_of_false (by omega) (List.cons_ne_nil _ _).symm
    | false =>
      have hFirst : untilBreak (c :: rest) = c :: untilBreak rest := by simp [untilBreak, hBreak]
      have hReturn : c = '\r' → rest ≠ [] := by
        rintro rfl
        cases hBreak
      rw [hFirst, strays, isStray_of_not_isLineBreak hBreak, withoutReturn_cons hReturn,
        List.cons_inj_right, ← ih hRest]
      simp

end

/-! ## The line of an offset -/

/-- The lines above the line of an offset. -/
def above (text : List Char) (offset : Nat) : List Char := text.take (lineStart (text.take offset))

/-- The line of an offset up to there. -/
def leftOf (text : List Char) (offset : Nat) : List Char :=
  (text.take offset).drop (lineStart (text.take offset))

/-- The line of an offset. -/
def lineAround (text : List Char) (offset : Nat) : List Char :=
  (text.drop (lineStart (text.take offset))).takeWhile (· != '\n')

/-- The displayed line with the number of the line of an offset. It is the first part of the line,
or a part of the lines above if these have stray breaks. -/
def displayedAt (text : List Char) (offset : Nat) : List Char :=
  if strays (above text offset) = 0 then untilBreak (lineAround text offset)
  else (displayLines (above text offset)).getD ((above text offset).count '\n') []

section
variable {text : List Char} {offset : Nat}

theorem lineStart_take_le (text : List Char) (offset : Nat) :
    lineStart (text.take offset) ≤ offset :=
  Nat.le_trans (Scan.lineStart_le _) (List.length_take_le _ _)

theorem wholeLines_above (text : List Char) (offset : Nat) :
    Scan.WholeLines (above text offset) := by
  obtain ⟨-, hFeed, -⟩ := Nat.findGreatest_eq_iff.1
    (show lineStart (text.take offset) = lineStart (text.take offset) from rfl)
  rw [List.take_take, Nat.min_eq_left (lineStart_take_le text offset)] at hFeed
  by_cases hStart : lineStart (text.take offset) = 0
  · refine .inl ?_
    rw [above, hStart, List.take_zero]
  · exact .inr (hFeed hStart)

theorem above_append_leftOf (text : List Char) (offset : Nat) :
    above text offset ++ leftOf text offset = text.take offset := by
  have hAbove : above text offset = (text.take offset).take (lineStart (text.take offset)) := by
    rw [List.take_take, Nat.min_eq_left (lineStart_take_le text offset)]
    rfl
  rw [hAbove]
  exact List.take_append_drop _ _

theorem count_above (text : List Char) (offset : Nat) :
    (above text offset).count '\n' = (text.take offset).count '\n' := by
  have hLeft : '\n' ∉ leftOf text offset := Scan.not_mem_drop_lineStart _
  rw [← above_append_leftOf text offset, List.count_append, List.count_eq_zero_of_not_mem hLeft,
    Nat.add_zero]

/-- A line begins with what is left of an offset. -/
theorem drop_lineStart (text : List Char) (offset : Nat) :
    text.drop (lineStart (text.take offset)) = leftOf text offset ++ text.drop offset := by
  rw [leftOf, ← List.drop_append_of_le_length (Scan.lineStart_le _), List.take_append_drop]

theorem not_mem_lineAround (text : List Char) (offset : Nat) : '\n' ∉ lineAround text offset := by
  intro hFeed
  simpa using List.all_eq_true.1 List.all_takeWhile _ hFeed

theorem untilBreak_lineAround (text : List Char) (offset : Nat) :
    untilBreak (lineAround text offset) =
      untilBreak (text.drop (lineStart (text.take offset))) := by
  rw [untilBreak, untilBreak, lineAround, List.takeWhile_takeWhile]
  congr
  funext c
  by_cases hFeed : c = '\n'
  · subst hFeed
    rfl
  · simp [hFeed]

/-- If the lines above have stray breaks, enough of them are displayed. -/
theorem displayedAt_of_strays (h : strays (above text offset) ≠ 0) :
    (displayLines (above text offset))[(above text offset).count '\n']? =
      some (displayedAt text offset) := by
  have hLength := length_displayLines (wholeLines_above text offset)
  have hInside : (above text offset).count '\n' < (displayLines (above text offset)).length := by
    omega
  rw [displayedAt, if_neg h, List.getD_eq_getElem?_getD, List.getElem?_eq_getElem hInside]
  rfl

theorem displayLines_getElem? (h : offset < text.length) :
    (displayLines text)[(text.take offset).count '\n']? = some (displayedAt text offset) := by
  have hWhole := wholeLines_above text offset
  have hLength := length_displayLines hWhole
  have hText : displayLines text = displayLines (above text offset) ++
      displayLines (text.drop (lineStart (text.take offset))) := by
    rw [← displayLines_append hWhole, above, List.take_append_drop]
  rw [hText, ← count_above]
  by_cases hStrays : strays (above text offset) = 0
  · -- the first line that is displayed after those above
    have hSome : text.drop (lineStart (text.take offset)) ≠ [] := by
      have hStart := lineStart_take_le text offset
      rw [Ne, List.drop_eq_nil_iff]
      omega
    rw [List.getElem?_append_right (by omega), displayedAt, if_pos hStrays, untilBreak_lineAround,
      ← head?_displayLines hSome]
    congr
    omega
  · rw [List.getElem?_append_left (by omega)]
    exact displayedAt_of_strays hStrays

/-- The displayed line is the line, a carriage return at its end aside, exactly if no stray break
stands above the line or in it, or if the line displayed in its place happens to be the same. -/
theorem displayedAt_eq_iff (text : List Char) (offset : Nat) :
    displayedAt text offset = withoutReturn (lineAround text offset) ↔
      strays (above text offset ++ lineAround text offset) = 0 ∨
      strays (above text offset) ≠ 0 ∧
        (displayLines (above text offset))[(above text offset).count '\n']? =
          some (withoutReturn (lineAround text offset)) := by
  rw [strays_append (wholeLines_above text offset)]
  by_cases hStrays : strays (above text offset) = 0
  · rw [displayedAt, if_pos hStrays, ← strays_eq_zero_iff (not_mem_lineAround text offset)]
    simp [hStrays]
  · rw [displayedAt_of_strays hStrays]
    simp [hStrays]

theorem drop_of_getElem? {first : Char} (h : text[offset]? = some first) :
    text.drop offset = first :: text.drop (offset + 1) := by
  obtain ⟨hInside, rfl⟩ := List.getElem?_eq_some_iff.1 h
  exact List.drop_eq_getElem_cons hInside

theorem untilBreak_getElem?_iff {left more : List Char} {first : Char}
    (hFirst : isLineBreak first = false) :
    (untilBreak (left ++ first :: more))[left.length]? = some first ↔
      ∀ c ∈ left, isLineBreak c = false := by
  induction left with
  | nil => simp [untilBreak, hFirst]
  | cons c left ih =>
    cases hBreak : isLineBreak c with
    | true => simp [untilBreak, hBreak]
    | false =>
      have hMore : untilBreak (c :: left ++ first :: more) =
          c :: untilBreak (left ++ first :: more) := by simp [untilBreak, hBreak]
      rw [hMore, List.length_cons, List.getElem?_cons_succ, ih]
      simp [hBreak]

/-- The displayed line has a character of the text in its column exactly if no break comes before
it, or if the line displayed in its place happens to have the same one there. -/
theorem displayedAt_getElem?_iff {first : Char} (h : text[offset]? = some first)
    (hFirst : isLineBreak first = false) :
    (displayedAt text offset)[(leftOf text offset).length]? = some first ↔
      (strays (above text offset) = 0 ∧ ∀ c ∈ leftOf text offset, isLineBreak c = false) ∨
      strays (above text offset) ≠ 0 ∧
        (displayLines (above text offset))[(above text offset).count '\n']?.bind
          (·[(leftOf text offset).length]?) = some first := by
  by_cases hStrays : strays (above text offset) = 0
  · rw [displayedAt, if_pos hStrays, untilBreak_lineAround, drop_lineStart, drop_of_getElem? h,
      untilBreak_getElem?_iff hFirst]
    simp [hStrays]
  · rw [displayedAt_of_strays hStrays]
    simp [hStrays]

/-- Below lines without stray breaks a line is displayed no further than up to its end. -/
theorem displayedAt_getElem?_feed (h : text[offset]? = some '\n')
    (hStraight : strays (above text offset) = 0) :
    (displayedAt text offset)[(leftOf text offset).length]? = none := by
  have hLine : lineAround text offset = leftOf text offset := by
    have hLeft : '\n' ∉ leftOf text offset := Scan.not_mem_drop_lineStart _
    rw [lineAround, drop_lineStart, drop_of_getElem? h, List.takeWhile_append_of_pos]
    · simp
    · intro c hMem
      have hOther : c ≠ '\n' := fun hSame => hLeft (hSame ▸ hMem)
      simpa using hOther
  rw [displayedAt, if_pos hStraight, hLine, List.getElem?_eq_none_iff]
  exact List.IsPrefix.length_le (List.takeWhile_prefix _)

end
end Text

theorem Text.not_isLineBreak_of_isIdentifierChar {c : Char} (h : Scan.isIdentifierChar c = true) :
    isLineBreak c = false := by
  have hRange := Scan.toNat_of_isIdentifierChar h
  unfold isLineBreak
  simp
  omega

/-- A lexeme other than a line end starts with no line break. -/
theorem Lexeme.SpelledBy.head_not_isLineBreak {lexeme : Lexeme} {text following : List Char}
    {first : Char} (h : lexeme.SpelledBy (first :: text) following) (hOther : lexeme ≠ .newline) :
    Text.isLineBreak first = false := by
  generalize hText : first :: text = spelling at h
  cases h with
  | word _ _ hWord _ =>
    apply Text.not_isLineBreak_of_isIdentifierChar
    apply Scan.isIdentifierChar_of_isWordText hWord
    rw [← hText]
    exact List.mem_cons_self
  | @directive name _ hKnown _ =>
    have hAll : ∀ name ∈ Scan.directiveNames, name.toList.head? = some '.' := by decide
    have hFirst := hAll name hKnown
    rw [← hText] at hFirst
    cases hFirst
    rfl
  | @number radix mark digits _ hLiteral _ _ =>
    apply Text.not_isLineBreak_of_isIdentifierChar
    apply hLiteral.all_isIdentifierChar
    rw [← hText]
    exact List.mem_cons_self
  | string _ _ =>
    cases hText
    rfl
  | delimiter mark _ =>
    cases hText
    cases mark <;> rfl
  | newline _ => exact absurd rfl hOther

end Lr35902
