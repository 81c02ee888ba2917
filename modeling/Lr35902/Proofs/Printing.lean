import Lr35902.Proofs.Positions

/-!
Printing lexemes. A list of lexemes comes from a text exactly if each of them can be spelled and no
line end is where it would end no statement (`Lexeme.Presentable`). Such a list is printed with
single spaces between its lexemes, and scanning gives it back (`scan_printed_iff`).
-/
namespace Lr35902

namespace Lexeme

/-- A lexeme as it is printed. Neither a broken string nor the end of an included file has a text of
its own. -/
def print : Lexeme → String
  | .identifier name | .register name | .pair name | .flag name | .mnemonic name
  | .directive name => name
  | .number value => Text.decimal value
  | .string text => "\"" ++ text ++ "\""
  | .delimiter mark _ => String.singleton mark.char
  | .newline => "\n"
  | .brokenString _ | .endInclude _ => ""

/-- Lexemes as they are printed, with a space between one and the next. -/
def printAll (words : List Lexeme) : String := " ".intercalate (words.map print)

/-- Lexemes that a text can have: each is one that can be spelled, none marks the end of an included
file, and a line end is neither the first one nor right after another line end. -/
structure Presentable (words : List Lexeme) : Prop where
  spelled : ∀ word ∈ words, ∃ text, word.SpelledBy text []
  unmarked : ∀ file, .endInclude file ∉ words
  first : words.head? ≠ some .newline
  single : words.IsChain fun word next => ¬(word = .newline ∧ next = .newline)

/-! ## What a text has -/

section
variable {word : Lexeme} {text following : List Char}

theorem SpelledBy.alone (h : word.SpelledBy text following) : word.SpelledBy text [] := by
  cases h with
  | word hName hKind hWord _ => exact .word hName hKind hWord rfl
  | directive hKnown _ => exact .directive hKnown rfl
  | number hLiteral hFits _ => exact .number hLiteral hFits rfl
  | string hQuote hLine => exact .string hQuote hLine
  | delimiter mark _ => exact .delimiter mark []
  | newline _ => exact .newline []

theorem SpelledBy.scanned (h : word.SpelledBy text following) : word.Scanned := by
  cases h with
  | word _ hKind _ _ =>
    rw [← hKind]
    exact Scan.classify_scanned _
  | directive hKnown _ => exact hKnown
  | number _ hFits _ => exact ⟨Int.natCast_nonneg _, Int.ofNat_le.2 hFits⟩
  | string hQuote hLine => exact ⟨hQuote, hLine⟩
  | delimiter _ _ => exact rfl
  | newline _ => trivial

end

/-- An identifier is spelled as it is called, by a word that is no keyword. -/
theorem SpelledBy.identifier {name : String} {text following : List Char}
    (h : (Lexeme.identifier name).SpelledBy text following) :
    text = name.toList ∧ Scan.isWordText name.toList = true ∧
      Scan.classify name = .identifier name := by
  generalize hWord : Lexeme.identifier name = word at h
  cases h with
  | word hName hKind hText _ =>
    subst hWord
    cases hName
    exact ⟨rfl, hText, hKind⟩
  | _ => cases hWord

end Lexeme

namespace Scan

section
variable {file : String} {collapsed : Bool} {before text reached left : List Char}
  {tokens : List Token}

theorem Divides.spelled (h : Divides file collapsed before text tokens reached left) :
    ∀ token ∈ tokens, ∃ piece, piece <:+: text ∧ token.lexeme.SpelledBy piece [] := by
  induction h with
  | stop _ => exact List.forall_mem_nil _
  | @token _ before gap text rest _ _ _ tokens _ hText _ _ ih =>
    refine List.forall_mem_cons.2 ⟨⟨text, ⟨gap, rest, List.append_assoc _ _ _⟩, hText.alone⟩, ?_⟩
    intro token hMem
    obtain ⟨piece, hInfix, hPiece⟩ := ih token hMem
    have hRest : rest <:+ gap ++ (text ++ rest) := ⟨gap ++ text, List.append_assoc _ _ _⟩
    exact ⟨piece, hInfix.trans hRest.isInfix, hPiece⟩

theorem Divides.first (h : Divides file true before text tokens reached left) :
    (tokens.map Token.lexeme).head? ≠ some .newline := by
  cases h with
  | stop _ =>
    intro hNewline
    cases hNewline
  | token _ _ hEnds _ =>
    intro hNewline
    cases hEnds (Option.some.inj hNewline)

/-- After a line end the next one is collapsed. -/
theorem Divides.single (h : Divides file collapsed before text tokens reached left) :
    (tokens.map Token.lexeme).IsChain fun word next => ¬(word = .newline ∧ next = .newline) := by
  induction h with
  | stop _ => exact .nil
  | @token _ _ _ _ _ _ _ lexeme tokens _ _ _ hMore ih =>
    refine List.isChain_cons.2 ⟨?_, ih⟩
    intro next hNext hBoth
    obtain ⟨rfl, rfl⟩ := hBoth
    exact hMore.first hNext

end

theorem presentable_of_scan {source file : String} {tokens : List Token}
    (h : scan source file = .ok tokens) : Lexeme.Presentable (tokens.map Token.lexeme) := by
  have hDivides := divides_of_scan h
  have hSpelled : ∀ word ∈ tokens.map Token.lexeme, ∃ text, word.SpelledBy text [] := by
    refine List.forall_mem_map.2 ?_
    intro token hMem
    obtain ⟨piece, -, hPiece⟩ := hDivides.spelled token hMem
    exact ⟨piece, hPiece⟩
  refine ⟨hSpelled, ?_, hDivides.first, hDivides.single⟩
  intro name hMem
  obtain ⟨text, hText⟩ := hSpelled _ hMem
  exact hText.scanned

end Scan

/-! ## What a printed text has -/

namespace Lexeme

theorem classify_print (word : String) : (Scan.classify word).print = word := by
  unfold Scan.classify
  split_ifs <;> rfl

/-- A lexeme that can be spelled is spelled as it is printed. -/
theorem SpelledBy.spells_print {word : Lexeme} {text following : List Char}
    (h : word.SpelledBy text following) (hOther : word ≠ .newline) :
    Scan.Spells word.print.toList [word] := by
  cases h with
  | @word _ name _ _ hKind hWord _ =>
    subst hKind
    rw [classify_print]
    exact Scan.spells_word hWord (by simpa using hOther)
  | @directive name _ hKnown _ =>
    have hAll : ∀ name ∈ Scan.directiveNames,
        name.toList = '.' :: name.toList.tail ∧
          name.toList.tail.all Scan.isIdentifierChar = true := by decide
    obtain ⟨hStop, hWord⟩ := hAll name hKnown
    have hName : String.ofList ('.' :: name.toList.tail) = name := by
      rw [← hStop, String.ofList_toList]
    have hSpells := Scan.spells_directive hWord (by
      rw [hName]
      exact List.contains_iff_mem.2 hKnown)
    rw [hName, ← hStop] at hSpells
    exact hSpells
  | @number radix _ digits _ _ hFits _ =>
    have hText : Text.decimal (Text.valueOf radix.base digits : Nat) =
        (Listing.Numeral.mk .decimal (Text.valueOf radix.base digits)).text := by
      rw [Text.decimal, if_neg (Int.not_lt.2 (Int.natCast_nonneg _))]
      rfl
    show Scan.Spells (Text.decimal (Text.valueOf radix.base digits : Nat)).toList _
    rw [hText]
    exact Scan.spells_numeral hFits
  | @string text _ hQuote hLine =>
    have hSpells := Scan.spells_string hQuote hLine
    rw [String.ofList_toList] at hSpells
    have hPrint : (print (.string text)).toList = '"' :: (text.toList ++ ['"']) := by
      simp [print]
    rw [hPrint]
    exact hSpells
  | delimiter mark _ =>
    have hPrint : mark.lexeme.print.toList = [mark.char] := by
      simp [Delimiter.lexeme, print]
    rw [hPrint]
    exact Scan.spells_delimiter mark
  | newline _ => exact absurd rfl hOther

end Lexeme

namespace Scan

section
variable {word : Lexeme} {words : List Lexeme}

theorem lexemesFrom_space (atStart : Bool) (rest : List Char) :
    lexemesFrom atStart (' ' :: rest) = lexemesFrom atStart rest := by
  have hSpace : isSpace ' ' = true := rfl
  rw [lexemesFrom, if_pos hSpace]

/-- What is printed after a lexeme that is not the last one. -/
theorem printAll_cons (word : Lexeme) (words : List Lexeme) :
    ∃ rest, (Lexeme.printAll (word :: words)).toList = word.print.toList ++ rest ∧ Loose rest ∧
      ∀ atStart, lexemesFrom atStart rest =
        lexemesFrom atStart (Lexeme.printAll words).toList := by
  cases words with
  | nil =>
    refine ⟨[], ?_, ?_, fun _ => rfl⟩
    · simp [Lexeme.printAll]
    · intro c hc
      cases hc
  | cons next words =>
    refine ⟨' ' :: (Lexeme.printAll (next :: words)).toList, ?_, loose_cons rfl (by decide) _,
      fun atStart => lexemesFrom_space atStart _⟩
    simp [Lexeme.printAll, String.toList_intercalate]

/-- Scanning what is printed gives the lexemes back. -/
theorem lexemesFrom_printAll {atStart : Bool}
    (hSpelled : ∀ word ∈ words, ∃ text, word.SpelledBy text [])
    (hFirst : atStart = true → words.head? ≠ some .newline)
    (hSingle : words.IsChain fun word next => ¬(word = .newline ∧ next = .newline)) :
    lexemesFrom atStart (Lexeme.printAll words).toList = some words := by
  induction words generalizing atStart with
  | nil => exact lexemesFrom.eq_1 atStart
  | cons word words ih =>
    obtain ⟨⟨text, hText⟩, hMore⟩ := List.forall_mem_cons.1 hSpelled
    obtain ⟨hNext, hSingle⟩ := List.isChain_cons.1 hSingle
    obtain ⟨rest, hPrint, hLoose, hRest⟩ := printAll_cons word words
    rw [hPrint]
    by_cases hNewline : word = .newline
    · -- the line end is a token, and the next lexeme is none
      have hStart : atStart = false := by
        rw [← Bool.not_eq_true]
        intro hStart
        exact hFirst hStart (congrArg some hNewline)
      have hAfter := @ih true hMore (fun _ hHead => hNext _ hHead ⟨hNewline, rfl⟩) hSingle
      have hFeed : isSpace '\n' = false := rfl
      rw [hNewline, hStart]
      show lexemesFrom false ('\n' :: rest) = _
      rw [lexemesFrom, if_neg (by simp [hFeed]), if_neg (by decide), if_pos rfl, hRest, hAfter]
      rfl
    · have hAfter := @ih false hMore (fun hStart => Bool.noConfusion hStart) hSingle
      rw [hText.spells_print hNewline atStart rest hLoose, hRest, hAfter]
      rfl

end
end Scan

/-- The lexemes of texts are the presentable ones, and these are the lexemes of what is printed for
them: printing undoes scanning. -/
theorem scan_printed_iff (words : List Lexeme) (file again : String) :
    ((∃ source tokens, scan source file = .ok tokens ∧ tokens.map Token.lexeme = words) ↔
        Lexeme.Presentable words) ∧
      (Lexeme.Presentable words ↔
        ∃ tokens, scan (Lexeme.printAll words) again = .ok tokens ∧
          tokens.map Token.lexeme = words) := by
  have hScan {source file : String} {tokens : List Token} (h : scan source file = .ok tokens)
      (hWords : tokens.map Token.lexeme = words) : Lexeme.Presentable words :=
    hWords ▸ Scan.presentable_of_scan h
  have hPrint (file : String) (h : Lexeme.Presentable words) :
      ∃ tokens, scan (Lexeme.printAll words) file = .ok tokens ∧
        tokens.map Token.lexeme = words :=
    (scan_lexemes_iff file).2 (Scan.lexemesFrom_printAll h.spelled (fun _ => h.first) h.single)
  refine ⟨⟨?_, fun h => ⟨_, hPrint file h⟩⟩, hPrint again, ?_⟩
  · intro hSource
    obtain ⟨source, tokens, h, hWords⟩ := hSource
    exact hScan h hWords
  · intro hAgain
    obtain ⟨tokens, h, hWords⟩ := hAgain
    exact hScan h hWords

end Lr35902
