import Lr35902.Proofs.ScannedTokens

/-!
The scanner works line by line. What it reads at a character does not change if something follows
that neither a word nor a number goes on with (`Loose.readLexeme_ok`). Whatever starts at a
character ends before the next line feed (`readLexeme_line`), so a text is scanned up to a line feed
and then, afresh, from there on (`lexemesFrom_line`). This is said of the lexemes alone; their
places make no difference to them (`scan_lexemes_iff`).
-/
namespace Lr35902

/-! ## Characters of words and numbers -/

namespace Text

theorem isAsciiDigit_iff {c : Char} : isAsciiDigit c = true ↔ 0x30 ≤ c.toNat ∧ c.toNat ≤ 0x39 := by
  simp [isAsciiDigit]

theorem digitValue_lt_ten_iff {c : Char} : digitValue c < 10 ↔ isAsciiDigit c = true := by
  rw [isAsciiDigit_iff]
  unfold digitValue
  simp only
  split
  · omega
  · split
    · omega
    · split <;> omega

end Text

namespace Scan

theorem isAlpha_iff {c : Char} :
    c.isAlpha = true ↔ (0x41 ≤ c.toNat ∧ c.toNat ≤ 0x5A) ∨ (0x61 ≤ c.toNat ∧ c.toNat ≤ 0x7A) := by
  have hClass : c.isAlpha = (decide (c.val ≥ 'A'.val ∧ c.val ≤ 'Z'.val) ||
      (decide (c.val ≥ 'a'.val) && decide (c.val ≤ 'z'.val))) := rfl
  simp only [hClass, Bool.or_eq_true, Bool.and_eq_true, decide_eq_true_eq, UInt32.le_iff_toNat_le,
    ge_iff_le]
  rfl

theorem toNat_of_isIdentifierChar {c : Char} (h : isIdentifierChar c = true) :
    (0x30 ≤ c.toNat ∧ c.toNat ≤ 0x39) ∨ (0x41 ≤ c.toNat ∧ c.toNat ≤ 0x5A) ∨
      (0x61 ≤ c.toNat ∧ c.toNat ≤ 0x7A) ∨ c.toNat = 0x5F := by
  rcases Bool.or_eq_true_iff.1 h with hWord | hLine
  · rcases Bool.or_eq_true_iff.1 hWord with hAlpha | hDigit
    · rw [isAlpha_iff] at hAlpha
      omega
    · exact .inl (Text.isAsciiDigit_iff.1 hDigit)
  · rw [beq_iff_eq.1 hLine]
    decide

theorem isIdentifierChar_of_digitValue {c : Char} (h : Text.digitValue c < 16) :
    isIdentifierChar c = true := by
  have hCases : c.isAlpha = true ∨ c.isDigit = true := by
    rw [isAlpha_iff, Char.isDigit]
    unfold Text.digitValue at h
    simp only [ge_iff_le, Bool.and_eq_true, decide_eq_true_eq, UInt32.le_iff_toNat_le]
    show _ ∨ 0x30 ≤ c.toNat ∧ c.toNat ≤ 0x39
    grind
  simp [isIdentifierChar, Char.isAlphanum, hCases]

theorem isIdentifierChar_of_takesDigit {radix : Radix} {c : Char} (h : takesDigit radix c = true) :
    isIdentifierChar c = true := by
  apply isIdentifierChar_of_digitValue
  cases radix with
  | hexadecimal => simpa [takesDigit] using h
  | octal => exact Nat.lt_trans (Text.digitValue_lt_ten_iff.2 h) (by decide)
  | decimal => exact Nat.lt_trans (Text.digitValue_lt_ten_iff.2 h) (by decide)
  | binary =>
    have hBit : c = '0' ∨ c = '1' := by simpa [takesDigit] using h
    rcases hBit with rfl | rfl <;> decide

/-! ## Where a word ends -/

/-- No word and no number goes on where a text begins. -/
def Loose (rest : List Char) : Prop :=
  ∀ c ∈ rest.head?, isIdentifierChar c = false ∧ Text.isDigit c = false

theorem loose_cons {c : Char} (hWord : isIdentifierChar c = false) (hDigit : Text.isDigit c = false)
    (rest : List Char) : Loose (c :: rest) := by
  intro first hFirst
  cases hFirst
  exact ⟨hWord, hDigit⟩

theorem length_takeWhile_le (p : Char → Bool) (text : List Char) :
    (text.takeWhile p).length ≤ text.length :=
  (List.takeWhile_prefix p).length_le

theorem literalNotation_le {c : Char} {rest : List Char} {radix : Radix} {lead : Nat}
    (h : literalNotation c rest = (radix, lead)) : lead ≤ rest.length + 1 := by
  unfold literalNotation at h
  split at h
  · split at h
    · simp only [List.length_cons]
      split at h
      · cases h
        omega
      · split at h
        · cases h
          omega
        · split at h
          · cases h
            omega
          · cases h
            omega
    · cases h
      omega
  · cases h
    omega

section
variable {following : List Char}

/-- A run of characters of identifiers stops where a loose text begins. -/
theorem Loose.takeWhile_eq (h : Loose following) {p : Char → Bool}
    (hp : ∀ c, p c = true → isIdentifierChar c = true) (text : List Char) :
    (text ++ following).takeWhile p = text.takeWhile p := by
  induction text with
  | nil =>
    cases following with
    | nil => rfl
    | cons c following =>
      have hStop : ¬p c = true := by
        intro hc
        exact Bool.false_ne_true ((h c rfl).1.symm.trans (hp c hc))
      simp [hStop]
  | cons c text ih => by_cases hc : p c = true <;> simp [hc, ih]

theorem Loose.literalNotation_eq (h : Loose following) (c : Char) (text : List Char) :
    literalNotation c (text ++ following) = literalNotation c text := by
  unfold literalNotation
  by_cases hc : c = '0'
  · cases text with
    | nil =>
      cases following with
      | nil => rfl
      | cons x following =>
        obtain ⟨hWord, hDigit⟩ := h x rfl
        have hLetter (letter : Char) (hOther : isIdentifierChar letter = true) : x ≠ letter := by
          intro hSame
          rw [hSame, hOther] at hWord
          cases hWord
        simp [hc, hLetter 'x' rfl, hLetter 'X' rfl, hLetter 'b' rfl, hLetter 'B' rfl, hDigit]
    | cons x text => rfl
  · simp [hc]

theorem Loose.literalValue_eq (h : Loose following) (radix : Radix) (digits text : List Char) :
    literalValue radix digits (text ++ following) = literalValue radix digits text := by
  have hHead :
      (text ++ following).head?.any isIdentifierChar = text.head?.any isIdentifierChar := by
    cases text with
    | nil =>
      cases following with
      | nil => rfl
      | cons c following => exact (h c rfl).1
    | cons c text => rfl
  unfold literalValue
  rw [hHead]

theorem Loose.readNumber_eq (h : Loose following) (c : Char) (text : List Char) :
    readNumber c (text ++ following) = readNumber c text := by
  cases hNotation : literalNotation c text with
  | mk radix lead =>
    have hLead : lead ≤ (c :: text).length := literalNotation_le hNotation
    have hText : (c :: (text ++ following)).drop lead = (c :: text).drop lead ++ following :=
      List.drop_append_of_le_length hLead
    have hDigits : ∀ c, takesDigit radix c = true → isIdentifierChar c = true :=
      fun c => isIdentifierChar_of_takesDigit
    simp only [readNumber, h.literalNotation_eq, hNotation, hText, h.takeWhile_eq hDigits,
      List.drop_append_of_le_length (length_takeWhile_le _ _), h.literalValue_eq]

theorem Loose.readDirective_eq (h : Loose following) (text : List Char) :
    readDirective (text ++ following) = readDirective text := by
  simp only [readDirective, h.takeWhile_eq fun _ hWord => hWord]

/-- A string that is closed is not touched by what follows. -/
theorem readString_append {text : List Char} {found : Lexeme × Nat}
    (h : readString text = .ok found)
    (following : List Char) : readString (text ++ following) = .ok found := by
  simp only [readString] at h ⊢
  split at h
  · next hQuote =>
    -- the closing quote stands in the text, so the body ends there
    have hInside : (text.takeWhile fun c => c != '"' && c != '\n').length ≠ text.length := by
      intro hAll
      rw [hAll, List.drop_length] at hQuote
      cases hQuote
    have hBody : (text ++ following).takeWhile (fun c => c != '"' && c != '\n') =
        text.takeWhile fun c => c != '"' && c != '\n' := by
      rw [List.takeWhile_append, if_neg hInside]
    have hLeft : (text.drop (text.takeWhile fun c => c != '"' && c != '\n').length ++
        following).head? = some '"' := by
      rw [List.head?_append, hQuote]
      rfl
    rw [hBody, List.drop_append_of_le_length (length_takeWhile_le _ _), if_pos hLeft]
    exact h
  · cases h

/-- What can be read at a character is read the same if a loose text follows. -/
theorem Loose.readLexeme_ok (h : Loose following) {c : Char} {text : List Char}
    {found : Lexeme × Nat} (hRead : readLexeme c text = .ok found) :
    readLexeme c (text ++ following) = .ok found := by
  have hWord := h.takeWhile_eq (fun _ hWord => hWord) text
  simp only [readLexeme, hWord, h.readNumber_eq, h.readDirective_eq] at hRead ⊢
  split at hRead
  · next hStart => rwa [if_pos hStart]
  · next hStart =>
    rw [if_neg hStart]
    split at hRead
    · next hDigit => rwa [if_pos hDigit]
    · next hDigit =>
      rw [if_neg hDigit]
      split at hRead
      · next hStop => rwa [if_pos hStop]
      · next hStop =>
        rw [if_neg hStop]
        split at hRead
        · next hQuote =>
          rw [if_pos hQuote]
          exact readString_append hRead following
        · next hQuote => rwa [if_neg hQuote]

end

/-! ## Within a line -/

theorem loose_lineEnd (rest : List Char) : Loose ('\n' :: rest) :=
  loose_cons rfl (by decide) rest

theorem takeWhile_line (p : Char → Bool) (h : p '\n' = false) (line rest : List Char) :
    (line ++ '\n' :: rest).takeWhile p = line.takeWhile p := by
  induction line with
  | nil => simp [h]
  | cons c line ih => by_cases hc : p c = true <;> simp [hc, ih]

theorem readString_line (line rest : List Char) :
    readString (line ++ '\n' :: rest) = readString line := by
  have hHead (text : List Char) :
      (text ++ '\n' :: rest).head? = some '"' ↔ text.head? = some '"' := by
    cases text with
    | nil => simp
    | cons c text => rfl
  simp only [readString, takeWhile_line (fun c => c != '"' && c != '\n') rfl,
    List.drop_append_of_le_length (length_takeWhile_le _ _), hHead]

/-- What starts at a character does not depend on the lines that follow. -/
theorem readLexeme_line (c : Char) (line rest : List Char) :
    readLexeme c (line ++ '\n' :: rest) = readLexeme c line := by
  have hLoose := loose_lineEnd rest
  simp only [readLexeme, hLoose.takeWhile_eq fun _ hWord => hWord, hLoose.readNumber_eq,
    hLoose.readDirective_eq, readString_line]

theorem readNumber_le {c : Char} {rest : List Char} {lexeme : Lexeme} {taken : Nat}
    (h : readNumber c rest = .ok (lexeme, taken)) : taken ≤ rest.length := by
  cases hNotation : literalNotation c rest with
  | mk radix lead =>
    have hLead := literalNotation_le hNotation
    simp only [readNumber, hNotation] at h
    split at h
    · have hDigits := length_takeWhile_le (takesDigit radix) ((c :: rest).drop lead)
      simp only [List.length_drop, List.length_cons] at hDigits
      cases h
      omega
    · cases h

theorem readString_le {rest : List Char} {lexeme : Lexeme} {taken : Nat}
    (h : readString rest = .ok (lexeme, taken)) : taken ≤ rest.length := by
  simp only [readString] at h
  split at h
  · next hQuote =>
    cases h
    -- the closing quote is one of the characters
    have hLeft : 0 < (rest.drop (rest.takeWhile fun c => c != '"' && c != '\n').length).length := by
      rw [List.length_pos_iff]
      intro hNil
      rw [hNil] at hQuote
      cases hQuote
    simp only [List.length_drop] at hLeft
    omega
  · cases h

theorem readLexeme_le {c : Char} {rest : List Char} {lexeme : Lexeme} {taken : Nat}
    (h : readLexeme c rest = .ok (lexeme, taken)) : taken ≤ rest.length := by
  unfold readLexeme at h
  split at h
  · cases h
    exact length_takeWhile_le _ _
  · split at h
    · exact readNumber_le h
    · split at h
      · simp only [readDirective] at h
        split at h
        · cases h
          exact length_takeWhile_le _ _
        · split at h <;> cases h
      · split at h
        · exact readString_le h
        · split at h
          · cases h
            exact Nat.zero_le _
          · cases h

/-! ## Lexemes without places -/

/-- The lexemes of a text, if it can be scanned; `atStart` says whether a line end would end no
statement. -/
def lexemesFrom (atStart : Bool) : List Char → Option (List Lexeme)
  | [] => some []
  | c :: rest =>
    if isSpace c then lexemesFrom atStart rest
    else if c = ';' then lexemesFrom atStart (rest.drop (rest.takeWhile (· != '\n')).length)
    else if c = '\n' then
      (lexemesFrom true rest).map fun words => if atStart then words else .newline :: words
    else
      match readLexeme c rest with
      | .error _ => none
      | .ok (lexeme, taken) =>
        (lexemesFrom (lexeme == .newline) (rest.drop taken)).map (lexeme :: ·)
termination_by text => text.length
decreasing_by all_goals simp only [List.length_cons, List.length_drop]; omega

theorem lexemesFrom_readLexeme {atStart : Bool} {c : Char} {rest : List Char} {lexeme : Lexeme}
    {taken : Nat} (hSpace : isSpace c = false) (hComment : c ≠ ';') (hBreak : c ≠ '\n')
    (hRead : readLexeme c rest = .ok (lexeme, taken)) :
    lexemesFrom atStart (c :: rest) =
      (lexemesFrom (lexeme == .newline) (rest.drop taken)).map (lexeme :: ·) := by
  rw [lexemesFrom, if_neg (by simp [hSpace]), if_neg hComment, if_neg hBreak, hRead]

theorem scanFrom_lexemes (file : String) (cursor : Cursor) (done : List Token)
    (text : List Char) :
    (scanFrom file cursor done text).toOption.map (List.map Token.lexeme) =
      (lexemesFrom (atLineStart done) text).map (done.reverse.map Token.lexeme ++ ·) := by
  fun_induction scanFrom file cursor done text with
  | case1 cursor done => simp [lexemesFrom, Except.toOption]
  | case2 cursor done c rest hSpace ih =>
    rw [ih, lexemesFrom, if_pos hSpace]
  | case3 cursor done rest comment hSpace ih =>
    rw [ih, lexemesFrom, if_neg hSpace, if_pos rfl]
  | case4 cursor done rest after hSpace hComment ih =>
    rw [ih, lexemesFrom, if_neg hSpace, if_neg hComment, if_pos rfl]
    by_cases hStart : atLineStart done = true
    · simp [after, hStart]
    · have hNew : atLineStart (⟨.newline, cursor.location file⟩ :: done) = true := by
        simp [atLineStart]
      simp [after, hStart, hNew, Function.comp_def]
  | case5 cursor done c rest hSpace hComment hBreak cause hRead =>
    rw [lexemesFrom, if_neg hSpace, if_neg hComment, if_neg hBreak, hRead]
    rfl
  | case6 cursor done c rest hSpace hComment hBreak lexeme taken hRead ih =>
    rw [ih, lexemesFrom, if_neg hSpace, if_neg hComment, if_neg hBreak, hRead]
    simp [atLineStart, Function.comp_def]

theorem scanFrom_file {file : String} {cursor : Cursor} {done : List Token} {text : List Char}
    {tokens : List Token} (h : scanFrom file cursor done text = .ok tokens)
    (hDone : ∀ token ∈ done, token.location.file = file) :
    ∀ token ∈ tokens, token.location.file = file := by
  fun_induction scanFrom file cursor done text with
  | case1 cursor done =>
    cases h
    intro token hMem
    exact hDone token (List.mem_reverse.1 hMem)
  | case2 _ _ _ _ _ ih => exact ih h hDone
  | case3 _ _ _ _ _ ih => exact ih h hDone
  | case4 cursor done rest after _ _ ih =>
    apply ih h
    by_cases hStart : atLineStart done = true
    · simpa [after, hStart] using hDone
    · simpa [after, hStart, Cursor.location] using hDone
  | case5 => cases h
  | case6 _ _ _ _ _ _ _ _ _ _ ih =>
    apply ih h
    simpa [Cursor.location] using hDone

/-! ## Lines -/

/-- The line end after some lexemes, unless it would end no statement. -/
def lineEnd (atStart : Bool) (words : List Lexeme) : List Lexeme :=
  if (words.getLast?.map (· == .newline)).getD atStart then [] else [.newline]

theorem lineEnd_cons (atStart : Bool) (word : Lexeme) (words : List Lexeme) :
    lineEnd atStart (word :: words) = lineEnd (word == .newline) words := by
  cases words with
  | nil => rfl
  | cons next words =>
    have hLast := List.getLast?_eq_some_getLast (List.cons_ne_nil next words)
    simp only [lineEnd, List.getLast?_cons_cons, hLast, Option.map_some, Option.getD_some]

/-- After a line feed, scanning starts afresh. -/
theorem lexemesFrom_line (atStart : Bool) (line rest : List Char) :
    lexemesFrom atStart (line ++ '\n' :: rest) =
      (lexemesFrom atStart line).bind fun words =>
        (lexemesFrom true rest).map fun more => words ++ lineEnd atStart words ++ more := by
  fun_induction lexemesFrom atStart line with
  | case1 atStart =>
    rw [List.nil_append, lexemesFrom]
    cases atStart <;> simp [isSpace, lineEnd]
  | case2 atStart c line hSpace ih => rw [List.cons_append, lexemesFrom, if_pos hSpace, ih]
  | case3 atStart line hSpace ih =>
    rw [List.cons_append, lexemesFrom, if_neg hSpace, if_pos rfl,
      takeWhile_line (fun c => c != '\n') rfl,
      List.drop_append_of_le_length (length_takeWhile_le _ _), ih]
  | case4 atStart line hSpace hComment ih =>
    rw [List.cons_append, lexemesFrom, if_neg hSpace, if_neg hComment, if_pos rfl, ih]
    cases lexemesFrom true line with
    | none => rfl
    | some words =>
      -- the words start after a line feed, whether or not it was one that ends a statement
      cases atStart <;> simp [lineEnd_cons, Function.comp_def]
  | case5 atStart c line hSpace hComment hBreak cause hRead =>
    rw [List.cons_append, lexemesFrom, if_neg hSpace, if_neg hComment, if_neg hBreak,
      readLexeme_line, hRead]
    rfl
  | case6 atStart c line hSpace hComment hBreak lexeme taken hRead ih =>
    rw [List.cons_append, lexemesFrom, if_neg hSpace, if_neg hComment, if_neg hBreak,
      readLexeme_line, hRead]
    simp only [List.drop_append_of_le_length (readLexeme_le hRead), ih]
    cases lexemesFrom (lexeme == .newline) (line.drop taken) with
    | none => rfl
    | some words => simp [lineEnd_cons, Function.comp_def]

/-- A text that is empty or ends in a line feed. -/
def WholeLines (text : List Char) : Prop := text = [] ∨ text.getLast? = some '\n'

section
variable {text : List Char}

theorem WholeLines.cases (h : WholeLines text) : text = [] ∨ ∃ line, text = line ++ ['\n'] := by
  refine h.imp_right ?_
  intro hLast
  obtain ⟨line, rfl⟩ := List.getLast?_eq_some_iff.1 hLast
  exact ⟨line, rfl⟩

theorem wholeLines_concat (line : List Char) : WholeLines (line ++ ['\n']) := by
  refine .inr ?_
  rw [List.getLast?_concat]

theorem lexemesFrom_concat (line : List Char) :
    lexemesFrom true (line ++ ['\n']) =
      (lexemesFrom true line).map fun words => words ++ lineEnd true words := by
  rw [lexemesFrom_line, lexemesFrom]
  cases lexemesFrom true line with
  | none => rfl
  | some words => simp

/-- What follows whole lines is scanned as if it stood alone. -/
theorem WholeLines.lexemesFrom_append (h : WholeLines text) (rest : List Char) :
    lexemesFrom true (text ++ rest) =
      (lexemesFrom true text).bind fun words => (lexemesFrom true rest).map (words ++ ·) := by
  rcases h.cases with rfl | ⟨line, rfl⟩
  · simp [lexemesFrom]
  · rw [List.append_assoc, List.cons_append, List.nil_append, lexemesFrom_line, lexemesFrom_concat]
    cases lexemesFrom true line with
    | none => rfl
    | some words => rfl

theorem getLast?_lineEnd (words : List Lexeme) :
    ∀ word ∈ (words ++ lineEnd true words).getLast?, word = .newline := by
  unfold lineEnd
  split
  · next hEnd =>
    intro word hMem
    rw [List.append_nil] at hMem
    rw [Option.mem_def.1 hMem] at hEnd
    exact beq_iff_eq.1 hEnd
  · intro word hMem
    rw [List.getLast?_concat] at hMem
    cases hMem
    rfl

theorem WholeLines.getLast?_eq (h : WholeLines text) {words : List Lexeme}
    (hWords : lexemesFrom true text = some words) : ∀ word ∈ words.getLast?, word = .newline := by
  rcases h.cases with rfl | ⟨line, rfl⟩
  · rw [lexemesFrom] at hWords
    cases hWords
    exact nofun
  · rw [lexemesFrom_concat] at hWords
    obtain ⟨first, -, rfl⟩ := Option.map_eq_some_iff.1 hWords
    exact getLast?_lineEnd first

end

end Scan

/-! ## Texts -/

/-- A text has tokens with some lexemes exactly when these are its lexemes. -/
theorem scan_lexemes_iff (file : String) {text : String} {words : List Lexeme} :
    (∃ tokens, scan text file = .ok tokens ∧ tokens.map Token.lexeme = words) ↔
      Scan.lexemesFrom true text.toList = some words := by
  have hLexemes := Scan.scanFrom_lexemes file (.start text.toList) [] text.toList
  have hNil : (([] : List Token).reverse.map Token.lexeme ++ ·) = id := rfl
  rw [hNil, Option.map_id, id] at hLexemes
  rw [show Scan.lexemesFrom true text.toList = _ from hLexemes.symm, Option.map_eq_some_iff]
  constructor
  · rintro ⟨tokens, hScan, hWords⟩
    have hScan : Scan.scanFrom file (.start text.toList) [] text.toList = .ok tokens := hScan
    exact ⟨tokens, by rw [hScan]; rfl, hWords⟩
  · rintro ⟨tokens, hScan, hWords⟩
    cases hResult : Scan.scanFrom file (.start text.toList) [] text.toList with
    | error diagnostic =>
      rw [hResult] at hScan
      cases hScan
    | ok found =>
      rw [hResult] at hScan
      cases hScan
      exact ⟨tokens, hResult, hWords⟩

theorem scan_file {text file : String} {tokens : List Token} (h : scan text file = .ok tokens) :
    ∀ token ∈ tokens, token.location.file = file :=
  Scan.scanFrom_file h (List.forall_mem_nil _)

end Lr35902
