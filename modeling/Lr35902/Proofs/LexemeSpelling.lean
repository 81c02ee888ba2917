import Lr35902.Proofs.Listing.Spelling

/-!
How lexemes are spelled. `Lexeme.SpelledBy` says which text spells a lexeme and what must not follow
it, and `Cause.Offends` says which texts begin with something that spells none. What the scanner
reads at a character is spelled there (`Scan.readLexeme_spelledBy`), and what it refuses offends for
the cause that it gives (`Scan.readLexeme_offends`).
-/
namespace Lr35902

/-- A text spells a lexeme where something follows it. A name, a keyword or a directive is spelled
as it is called, up to where no identifier goes on; a number by a literal that denotes it; a string
by its characters between double quotes. -/
inductive Lexeme.SpelledBy : Lexeme → List Char → List Char → Prop where
  | word {lexeme : Lexeme} {name : String} {following : List Char}
      (hName : lexeme.spelling? = some name) (hKind : Scan.classify name = lexeme)
      (hWord : Scan.isWordText name.toList = true) (hEnd : Scan.Ends following) :
      SpelledBy lexeme name.toList following
  | directive {name : String} {following : List Char} (hKnown : name ∈ Scan.directiveNames)
      (hEnd : Scan.Ends following) : SpelledBy (.directive name) name.toList following
  | number {radix : Radix} {mark digits following : List Char}
      (hLiteral : Scan.Literal radix mark digits)
      (hFits : Text.valueOf radix.base digits ≤ Scan.maxLiteral) (hEnd : Scan.Ends following) :
      SpelledBy (.number (Text.valueOf radix.base digits)) (mark ++ digits) following
  | string {text : String} {following : List Char} (hQuote : '"' ∉ text.toList)
      (hLine : '\n' ∉ text.toList) :
      SpelledBy (.string text) ('"' :: (text.toList ++ ['"'])) following
  | delimiter (mark : Delimiter) (following : List Char) :
      SpelledBy mark.lexeme [mark.char] following
  | newline (following : List Char) : SpelledBy .newline ['\n'] following

namespace Scan

/-- A mark with all the digits of its notation that stand after it, in a text that begins with a
digit. -/
structure Numeric (radix : Radix) (mark digits following : List Char) : Prop where
  marked : (radix, mark) ∈ marks
  taken : ∀ c ∈ digits, takesDigit radix c = true
  stops : following.head?.any (takesDigit radix) = false
  starts : (mark ++ digits ++ following).head?.any Text.isDigit = true

end Scan

/-- A text begins with something that is no lexeme, for a cause. -/
inductive Cause.Offends : Cause → List Char → Prop where
  | unexpectedCharacter {c : Char} {rest : List Char} (hStart : Scan.isIdentifierStart c = false)
      (hDigit : Text.isDigit c = false) (hOther : c ∉ ['.', '"', ',', ':', '(', ')']) :
      Offends (.unexpectedCharacter c) (c :: rest)
  | missingDirectiveName {following : List Char} (hEnd : Scan.Ends following) :
      Offends .missingDirectiveName ('.' :: following)
  | unknownDirective {word following : List Char} (hNonempty : word ≠ [])
      (hWord : word.all Scan.isIdentifierChar = true) (hEnd : Scan.Ends following)
      (hUnknown : String.ofList ('.' :: word) ∉ Scan.directiveNames) :
      Offends (.unknownDirective (String.ofList ('.' :: word))) ('.' :: (word ++ following))
  | malformedLiteral {radix : Radix} {mark digits following : List Char}
      (hNumeric : Scan.Numeric radix mark digits following)
      (hBad : ¬Scan.Ends following ∨ Scan.readable radix digits = false) :
      Offends (.malformedLiteral radix) (mark ++ digits ++ following)
  | missingDigits {radix : Radix} {mark following : List Char}
      (hNumeric : Scan.Numeric radix mark [] following) (hEnd : Scan.Ends following) :
      Offends (.missingDigits radix) (mark ++ following)
  | wideLiteral {radix : Radix} {mark digits following : List Char}
      (hLiteral : Scan.Literal radix mark digits) (hEnd : Scan.Ends following)
      (hWide : Scan.maxLiteral < Text.valueOf radix.base digits) :
      Offends (.wideLiteral (Text.valueOf radix.base digits)) (mark ++ digits ++ following)
  | unterminatedString {body following : List Char} (hQuote : '"' ∉ body) (hLine : '\n' ∉ body)
      (hEnd : following.head?.all (· == '\n') = true) :
      Offends .unterminatedString ('"' :: (body ++ following))

namespace Scan

/-! ## Runs of characters -/

section
variable {p : Char → Bool} {text : List Char}

theorem take_length_takeWhile (p : Char → Bool) (text : List Char) :
    text.take (text.takeWhile p).length = text.takeWhile p :=
  (List.prefix_iff_eq_take.1 (List.takeWhile_prefix p)).symm

theorem takeWhile_append_drop (p : Char → Bool) (text : List Char) :
    text.takeWhile p ++ text.drop (text.takeWhile p).length = text :=
  List.prefix_iff_eq_append.1 (List.takeWhile_prefix p)

/-- A run of characters is taken as far as it goes. -/
theorem head?_drop_takeWhile (p : Char → Bool) (text : List Char) :
    (text.drop (text.takeWhile p).length).head?.any p = false := by
  induction text with
  | nil => rfl
  | cons c text ih =>
    by_cases hc : p c = true
    · rw [List.takeWhile_cons_of_pos hc, List.length_cons, List.drop_succ_cons]
      exact ih
    · rw [List.takeWhile_cons_of_neg hc]
      simpa using hc

end

theorem classify_spelling? (word : String) : (classify word).spelling? = some word := by
  unfold classify
  split_ifs <;> rfl

/-! ## What is read -/

section
variable {c : Char} {rest : List Char} {lexeme : Lexeme} {taken : Nat}

theorem spelledBy_word (hStart : isIdentifierStart c = true) :
    (classify (String.ofList (c :: rest.takeWhile isIdentifierChar))).SpelledBy
      (c :: rest.takeWhile isIdentifierChar)
      (rest.drop (rest.takeWhile isIdentifierChar).length) := by
  have hWord : isWordText (String.ofList (c :: rest.takeWhile isIdentifierChar)).toList = true := by
    rw [String.toList_ofList, isWordText, hStart, List.all_takeWhile]
    rfl
  have hSpelled := Lexeme.SpelledBy.word (classify_spelling? _) rfl hWord
    (head?_drop_takeWhile isIdentifierChar rest)
  rwa [String.toList_ofList] at hSpelled

theorem literalValue_ok {radix : Radix} {digits following : List Char} {value : Nat}
    (h : literalValue radix digits following = .ok value) :
    Ends following ∧ digits ≠ [] ∧ readable radix digits = true ∧
      Text.valueOf radix.base digits = value := by
  unfold literalValue at h
  split at h
  · cases h
  · next hEnd =>
    split at h
    · cases h
    · next hDigits =>
      split at h
      · cases h
      · next hReadable =>
        simp only at h
        split at h
        · cases h
          exact ⟨by simpa [Ends] using hEnd, by simpa using hDigits, by simpa using hReadable, rfl⟩
        · cases h

/-- What is read as a number is a literal whose value fits, and no identifier goes on after it. -/
theorem readNumber_literal (h : readNumber c rest = .ok (lexeme, taken)) :
    ∃ radix mark digits, Literal radix mark digits ∧
      Text.valueOf radix.base digits ≤ maxLiteral ∧ Ends (rest.drop taken) ∧
      c :: rest.take taken = mark ++ digits ∧
      lexeme = .number (Text.valueOf radix.base digits) := by
  cases hNotation : literalNotation c rest with
  | mk radix lead =>
    simp only [readNumber, hNotation] at h
    split at h
    · next value hValue =>
      cases h
      obtain ⟨hEnd, hDigits, hReadable, rfl⟩ := literalValue_ok hValue
      have hLiteral := literal_of_literalNotation hNotation hDigits hReadable
      -- the literal has a first character, which is not counted
      obtain ⟨count, hCount⟩ : ∃ count, lead +
          (((c :: rest).drop lead).takeWhile (takesDigit radix)).length = count + 1 :=
        Nat.exists_eq_succ_of_ne_zero (by
          have := List.length_pos_iff.2 hDigits
          omega)
      have hText : c :: rest.take count = (c :: rest).take lead ++
          ((c :: rest).drop lead).takeWhile (takesDigit radix) := by
        rw [← List.take_succ_cons, ← hCount, List.take_add, take_length_takeWhile]
      have hRest : rest.drop count = ((c :: rest).drop lead).drop
          (((c :: rest).drop lead).takeWhile (takesDigit radix)).length := by
        rw [List.drop_drop, hCount, List.drop_succ_cons]
      rw [hCount, Nat.add_sub_cancel, hRest]
      exact ⟨radix, _, _, hLiteral, literalValue_le hValue, hEnd, hText, rfl⟩
    · cases h

theorem readNumber_spelledBy (h : readNumber c rest = .ok (lexeme, taken)) :
    lexeme.SpelledBy (c :: rest.take taken) (rest.drop taken) := by
  obtain ⟨radix, mark, digits, hLiteral, hFits, hEnd, hText, rfl⟩ := readNumber_literal h
  rw [hText]
  exact .number hLiteral hFits hEnd

theorem readDirective_spelledBy (h : readDirective rest = .ok (lexeme, taken)) :
    lexeme.SpelledBy ('.' :: rest.take taken) (rest.drop taken) := by
  simp only [readDirective] at h
  split at h
  · next hKnown =>
    cases h
    have hSpelled := Lexeme.SpelledBy.directive (List.contains_iff_mem.1 hKnown)
      (head?_drop_takeWhile isIdentifierChar rest)
    rw [String.toList_ofList] at hSpelled
    rw [take_length_takeWhile]
    exact hSpelled
  · split at h <;> cases h

theorem readString_spelledBy (h : readString rest = .ok (lexeme, taken)) :
    lexeme.SpelledBy ('"' :: rest.take taken) (rest.drop taken) := by
  have hScanned := readString_scanned h
  simp only [readString] at h
  split at h
  · next hQuote =>
    cases h
    obtain ⟨following, hFollowing⟩ : ∃ following,
        rest.drop (rest.takeWhile fun c => c != '"' && c != '\n').length = '"' :: following :=
      List.head?_eq_some_iff.1 hQuote
    have hSpelled := @Lexeme.SpelledBy.string _ following hScanned.1 hScanned.2
    rw [String.toList_ofList] at hSpelled
    rw [List.take_add, take_length_takeWhile, ← List.drop_drop, hFollowing]
    exact hSpelled
  · cases h

/-- What the scanner reads at a character is spelled there. -/
theorem readLexeme_spelledBy (h : readLexeme c rest = .ok (lexeme, taken)) :
    lexeme.SpelledBy (c :: rest.take taken) (rest.drop taken) := by
  unfold readLexeme at h
  split at h
  · next hStart =>
    cases h
    rw [take_length_takeWhile]
    exact spelledBy_word hStart
  · split at h
    · exact readNumber_spelledBy h
    · split at h
      · next hStop =>
        subst hStop
        exact readDirective_spelledBy h
      · split at h
        · next hQuote =>
          subst hQuote
          exact readString_spelledBy h
        · split at h
          · next mark hMark =>
            cases h
            obtain rfl : mark.char = c := by simpa using List.find?_some hMark
            exact .delimiter mark rest
          · cases h

end

/-! ## What is refused -/

section
variable {c : Char} {rest : List Char} {cause : Cause}

theorem literalValue_error_cases {radix : Radix} {digits following : List Char}
    (h : literalValue radix digits following = .error cause) :
    (cause = .malformedLiteral radix ∧ (¬Ends following ∨ readable radix digits = false)) ∨
      (cause = .missingDigits radix ∧ digits = [] ∧ Ends following) ∨
      (cause = .wideLiteral (Text.valueOf radix.base digits) ∧
        maxLiteral < Text.valueOf radix.base digits ∧ Ends following ∧ digits ≠ [] ∧
        readable radix digits = true) := by
  unfold literalValue at h
  split at h
  · next hMore =>
    cases h
    exact .inl ⟨rfl, .inl (by simp [Ends, hMore])⟩
  · next hEnd =>
    have hEnds : Ends following := by simpa [Ends] using hEnd
    split at h
    · next hNone =>
      cases h
      exact .inr (.inl ⟨rfl, List.isEmpty_iff.1 hNone, hEnds⟩)
    · next hDigits =>
      split at h
      · next hUnreadable =>
        cases h
        exact .inl ⟨rfl, .inr (by simpa using hUnreadable)⟩
      · next hReadable =>
        simp only at h
        split at h
        · cases h
        · next hWide =>
          cases h
          exact .inr (.inr ⟨rfl, Nat.not_le.1 hWide, hEnds, by simpa using hDigits,
            by simpa using hReadable⟩)

theorem readNumber_offends (hDigit : Text.isDigit c = true) (h : readNumber c rest = .error cause) :
    cause.Offends (c :: rest) := by
  cases hNotation : literalNotation c rest with
  | mk radix lead =>
    simp only [readNumber, hNotation] at h
    split at h
    · cases h
    · next found hValue =>
      cases h
      have hText : c :: rest = (c :: rest).take lead ++
          ((c :: rest).drop lead).takeWhile (takesDigit radix) ++ ((c :: rest).drop lead).drop
            (((c :: rest).drop lead).takeWhile (takesDigit radix)).length := by
        rw [List.append_assoc, takeWhile_append_drop, List.take_append_drop]
      have hNumeric : Numeric radix ((c :: rest).take lead)
          (((c :: rest).drop lead).takeWhile (takesDigit radix))
          (((c :: rest).drop lead).drop
            (((c :: rest).drop lead).takeWhile (takesDigit radix)).length) := by
        refine ⟨(literalNotation_mark hNotation).1, List.all_eq_true.1 List.all_takeWhile,
          head?_drop_takeWhile _ _, ?_⟩
        rw [← hText]
        exact hDigit
      rw [hText]
      obtain ⟨rfl, hBad⟩ | ⟨rfl, hNone, hEnd⟩ | ⟨rfl, hWide, hEnd, hDigits, hReadable⟩ :=
        literalValue_error_cases hValue
      · exact .malformedLiteral hNumeric hBad
      · rw [hNone] at hNumeric hEnd ⊢
        rw [List.append_nil]
        exact .missingDigits hNumeric hEnd
      · exact .wideLiteral (literal_of_literalNotation hNotation hDigits hReadable) hEnd hWide

theorem readDirective_offends (h : readDirective rest = .error cause) :
    cause.Offends ('.' :: rest) := by
  have hText := takeWhile_append_drop isIdentifierChar rest
  have hEnd : Ends (rest.drop (rest.takeWhile isIdentifierChar).length) :=
    head?_drop_takeWhile isIdentifierChar rest
  simp only [readDirective] at h
  split at h
  · cases h
  · next hUnknown =>
    split at h
    · next hNone =>
      cases h
      rw [List.isEmpty_iff.1 hNone] at hEnd
      exact .missingDirectiveName hEnd
    · next hSome =>
      cases h
      have hOffends := Cause.Offends.unknownDirective (by simpa using hSome) List.all_takeWhile hEnd
        (fun hKnown => hUnknown (List.contains_iff_mem.2 hKnown))
      rwa [hText] at hOffends

theorem readString_offends (h : readString rest = .error cause) :
    cause.Offends ('"' :: rest) := by
  simp only [readString] at h
  split at h
  · cases h
  · next hOpen =>
    cases h
    have hBody : ∀ c ∈ rest.takeWhile fun c => c != '"' && c != '\n', c ≠ '"' ∧ c ≠ '\n' := by
      intro c hc
      have hKept := List.all_eq_true.1 List.all_takeWhile c hc
      simpa using hKept
    have hStop := head?_drop_takeWhile (fun c => c != '"' && c != '\n') rest
    have hText := takeWhile_append_drop (fun c => c != '"' && c != '\n') rest
    have hEnd : (rest.drop (rest.takeWhile fun c => c != '"' && c != '\n').length).head?.all
        (· == '\n') = true := by
      generalize rest.drop (rest.takeWhile fun c => c != '"' && c != '\n').length = following
        at hOpen hStop
      cases following with
      | nil => rfl
      | cons c following => simp_all
    have hOffends := Cause.Offends.unterminatedString (fun hc => (hBody _ hc).1 rfl)
      (fun hc => (hBody _ hc).2 rfl) hEnd
    rwa [hText] at hOffends

/-- What the scanner refuses at a character offends for the cause that it gives. -/
theorem readLexeme_offends (h : readLexeme c rest = .error cause) : cause.Offends (c :: rest) := by
  unfold readLexeme at h
  split at h
  · cases h
  · next hStart =>
    split at h
    · next hDigit => exact readNumber_offends hDigit h
    · next hDigit =>
      split at h
      · next hStop =>
        subst hStop
        exact readDirective_offends h
      · next hStop =>
        split at h
        · next hQuote =>
          subst hQuote
          exact readString_offends h
        · next hQuote =>
          split at h
          · cases h
          · next hNone =>
            cases h
            refine .unexpectedCharacter (by simpa using hStart) (by simpa using hDigit) ?_
            simp only [Delimiter.ofChar?, List.find?_eq_none, List.mem_cons, beq_iff_eq] at hNone
            have hMark (mark : Delimiter) : c ≠ mark.char := by
              intro hSame
              exact hNone mark (by cases mark <;> decide) hSame.symm
            simpa [hStop, hQuote] using ⟨hMark .comma, hMark .colon, hMark .leftParen,
              hMark .rightParen⟩

end
end Scan
end Lr35902
