import Lr35902.Cpu.Form
import Lr35902.Proofs.NumberLiterals
import Lr35902.Proofs.TextualInclusion

/-!
Texts that spell lexemes. A text spells some lexemes if the scanner reads just these from it,
whatever follows, as long as no word or number goes on there (`Spells`). Numbers printed in any
notation spell their value (`spells_numeral`), since reading digits undoes writing them
(`Text.valueOf_digits`); words, directives and strings spell themselves, and a head with operands
between commas spells what its parts spell (`spells_formText`).
-/
namespace Lr35902

/-! ## Digits -/

namespace Text

theorem digitValue_digitChar {d : Nat} (h : d < 16) : digitValue (digitChar d) = d := by
  have hAll : ∀ d < 16, digitValue (digitChar d) = d := by decide
  exact hAll d h

theorem valueOf_concat (base : Nat) (cs : List Char) (c : Char) :
    valueOf base (cs ++ [c]) = valueOf base cs * base + digitValue c := by
  rw [valueOf, List.foldl_append]
  rfl

section
variable {base : Nat}

/-- Reading the digits of a number gives it back. -/
theorem valueOf_digits (hLow : 2 ≤ base) (hHigh : base ≤ 16) (n : Nat) :
    valueOf base (digits base n) = n := by
  fun_induction digits base n with
  | case1 n hSmall =>
    have hValue : valueOf base [digitChar n] = 0 * base + digitValue (digitChar n) := rfl
    rw [hValue, digitValue_digitChar (by omega)]
    omega
  | case2 n hLarge ih =>
    have hDigit : n % base < base := Nat.mod_lt n (by omega)
    rw [valueOf_concat, ih, digitValue_digitChar (by omega), Nat.div_add_mod']

theorem digitValue_of_mem_digits (hLow : 2 ≤ base) (hHigh : base ≤ 16) (n : Nat) :
    ∀ c ∈ digits base n, digitValue c < base := by
  fun_induction digits base n with
  | case1 n hSmall =>
    intro c hc
    rw [List.mem_singleton.1 hc, digitValue_digitChar (by omega)]
    omega
  | case2 n hLarge ih =>
    have hDigit : n % base < base := Nat.mod_lt n (by omega)
    refine List.forall_mem_append.2 ⟨ih, List.forall_mem_singleton.2 ?_⟩
    rw [digitValue_digitChar (by omega)]
    exact hDigit

theorem digits_ne_nil (base n : Nat) : digits base n ≠ [] := by
  unfold digits
  split
  · exact List.cons_ne_nil _ _
  · exact List.append_ne_nil_of_right_ne_nil _ (List.cons_ne_nil _ _)

/-- Only zero has a zero as its first digit. -/
theorem digits_of_head?_zero (hLow : 2 ≤ base) (hHigh : base ≤ 16) {n : Nat}
    (h : (digits base n).head? = some '0') : digits base n = ['0'] := by
  fun_induction digits base n with
  | case1 n hSmall => simpa using h
  | case2 n hLarge ih =>
    rw [List.head?_append_of_ne_nil _ (digits_ne_nil _ _)] at h
    -- what stands before the last digit denotes a positive number
    have hZero : n / base = valueOf base ['0'] := by rw [← ih h, valueOf_digits hLow hHigh]
    have hNone : valueOf base ['0'] = 0 := Nat.zero_mul base
    have hSome : 0 < n / base := Nat.div_pos (by omega) (by omega)
    omega

theorem length_digits_le {count n : Nat} (h : n < Nat.pow base (count + 1)) :
    (digits base n).length ≤ count + 1 := by
  induction count generalizing n with
  | zero =>
    have hSmall : n < base := by simpa using h
    rw [digits, if_pos (.inr hSmall)]
    exact Nat.le_refl 1
  | succ count ih =>
    unfold digits
    split
    · exact Nat.le_add_left 1 _
    · rw [List.length_append, List.length_singleton]
      have hQuotient : n / base < Nat.pow base (count + 1) := Nat.div_lt_of_lt_mul (by
        rw [Nat.mul_comm]
        exact h)
      exact Nat.add_le_add_right (ih hQuotient) 1

end
end Text

namespace Listing

/-- What stands before the digits of a notation. -/
def mark : Radix → List Char
  | .hexadecimal => ['0', 'x']
  | .binary => ['0', 'b']
  | .octal => ['0']
  | .decimal => []

/-- A number and the notation in which it is printed. -/
structure Numeral where
  radix : Radix
  value : Nat
  deriving DecidableEq

/-- The number in its notation. -/
def Numeral.text (numeral : Numeral) : String :=
  String.ofList (mark numeral.radix ++ Text.digits numeral.radix.base numeral.value)

end Listing

namespace Scan

/-! ## Spelling -/

/-- The scanner reads some lexemes from a text, whatever follows it. -/
def Spells (text : List Char) (words : List Lexeme) : Prop :=
  ∀ atStart rest, Loose rest →
    lexemesFrom atStart (text ++ rest) = (lexemesFrom false rest).map (words ++ ·)

section
variable {text more rest : List Char} {words others : List Lexeme}

theorem Loose.ends (h : Loose rest) : Ends rest := by
  cases rest with
  | nil => rfl
  | cons c rest => exact (h c rfl).1

theorem takeWhile_word (hWord : ∀ c ∈ more, isIdentifierChar c = true) (h : Loose rest) :
    (more ++ rest).takeWhile isIdentifierChar = more := by
  have hNone : rest.takeWhile isIdentifierChar = [] := h.takeWhile_eq (fun _ hc => hc) []
  rw [List.takeWhile_append_of_pos hWord, hNone, List.append_nil]

/-- A text that the scanner takes for one lexeme spells it. -/
theorem spells_of_readLexeme {c : Char} {lexeme : Lexeme}
    (hBlank : isSpace c = false ∧ c ≠ ';' ∧ c ≠ '\n') (hOther : (lexeme == .newline) = false)
    (hRead : ∀ rest, Loose rest → readLexeme c (more ++ rest) = .ok (lexeme, more.length)) :
    Spells (c :: more) [lexeme] := by
  intro atStart rest hRest
  obtain ⟨hSpace, hComment, hBreak⟩ := hBlank
  rw [List.cons_append, lexemesFrom_readLexeme hSpace hComment hBreak (hRead rest hRest), hOther,
    List.drop_left]
  rfl

/-! ## Words -/

/-- Whether a text is a word by its characters. -/
def isWordText : List Char → Bool
  | [] => false
  | c :: more => isIdentifierStart c && more.all isIdentifierChar

theorem isIdentifierChar_of_isWordText {text : List Char} (h : isWordText text = true) :
    ∀ c ∈ text, isIdentifierChar c = true := by
  cases text with
  | nil => cases h
  | cons c more =>
    obtain ⟨hStart, hMore⟩ := Bool.and_eq_true_iff.1 h
    refine List.forall_mem_cons.2 ⟨?_, List.all_eq_true.1 hMore⟩
    rcases Bool.or_eq_true_iff.1 hStart with hAlpha | hLine
    · simp [isIdentifierChar, Char.isAlphanum, hAlpha]
    · simp [isIdentifierChar, hLine]

theorem not_blank_of_isIdentifierStart {c : Char} (h : isIdentifierStart c = true) :
    isSpace c = false ∧ c ≠ ';' ∧ c ≠ '\n' := by
  have hOther (letter : Char) (hLetter : isIdentifierStart letter = false) : c ≠ letter := by
    intro hSame
    rw [hSame, hLetter] at h
    cases h
  have hCode : 0x41 ≤ c.toNat := by
    rcases Bool.or_eq_true_iff.1 h with hAlpha | hLine
    · rw [isAlpha_iff] at hAlpha
      omega
    · rw [beq_iff_eq.1 hLine]
      decide
  refine ⟨?_, hOther ';' rfl, hOther '\n' rfl⟩
  simp [isSpace, hOther ' ' rfl, hOther '\t' rfl, hOther '\r' rfl]
  omega

theorem spells_word {word : String} (h : isWordText word.toList = true)
    (hOther : (classify word == .newline) = false) : Spells word.toList [classify word] := by
  cases hText : word.toList with
  | nil =>
    rw [hText] at h
    cases h
  | cons c more =>
    rw [hText] at h
    obtain ⟨hStart, hMore⟩ := Bool.and_eq_true_iff.1 h
    apply spells_of_readLexeme (not_blank_of_isIdentifierStart hStart) hOther
    intro rest hRest
    have hWord : String.ofList (c :: more) = word := by rw [← hText, String.ofList_toList]
    rw [readLexeme, if_pos hStart, takeWhile_word (List.all_eq_true.1 hMore) hRest]
    simp only [hWord]

theorem spells_directive {word : List Char} (hWord : word.all isIdentifierChar = true)
    (hName : directiveNames.contains (String.ofList ('.' :: word)) = true) :
    Spells ('.' :: word) [.directive (String.ofList ('.' :: word))] := by
  refine spells_of_readLexeme ⟨rfl, by decide, by decide⟩ rfl ?_
  intro rest hRest
  have hDirective : readLexeme '.' (word ++ rest) = readDirective (word ++ rest) := rfl
  rw [hDirective, readDirective, takeWhile_word (List.all_eq_true.1 hWord) hRest]
  simp only [if_pos hName]

theorem spells_string (hQuote : '"' ∉ text) (hLine : '\n' ∉ text) :
    Spells ('"' :: (text ++ ['"'])) [.string (String.ofList text)] := by
  refine spells_of_readLexeme ⟨rfl, by decide, by decide⟩ rfl ?_
  intro rest _
  have hString : readLexeme '"' (text ++ ['"'] ++ rest) = readString (text ++ '"' :: rest) := by
    rw [List.append_assoc]
    rfl
  rw [hString, TwoPass.readString_quoted hQuote hLine, List.length_append]
  rfl

/-! ## Numbers -/

theorem literal_digits {radix : Radix} {n : Nat} (h : n ≤ maxLiteral) :
    Literal radix (Listing.mark radix) (Text.digits radix.base n) := by
  have hLow : 2 ≤ radix.base := by cases radix <;> decide
  have hHigh : radix.base ≤ 16 := by cases radix <;> decide
  refine ⟨by cases radix <;> decide, Text.digits_ne_nil _ _,
    Text.digitValue_of_mem_digits hLow hHigh n, fun _ => Text.digits_of_head?_zero hLow hHigh, ?_⟩
  intro hDecimal
  subst hDecimal
  have hShort : n < Nat.pow 10 (4 + 1) := Nat.lt_of_le_of_lt h (by decide)
  exact Nat.le_trans (Text.length_digits_le hShort) (by decide)

/-- A literal spells what it denotes. -/
theorem spells_literal {radix : Radix} {mark digits : List Char} (h : Literal radix mark digits)
    (hFits : Text.valueOf radix.base digits ≤ maxLiteral) :
    Spells (mark ++ digits) [.number (Text.valueOf radix.base digits)] := by
  cases hText : mark ++ digits with
  | nil => exact absurd (List.append_eq_nil_iff.1 hText).2 h.nonempty
  | cons c more =>
    have hFollowed (rest : List Char) : mark ++ digits ++ rest = c :: (more ++ rest) := by
      rw [hText]
      rfl
    have hDigit := h.isAsciiDigit_head (hFollowed [])
    refine spells_of_readLexeme (not_blank_of_isAsciiDigit hDigit) rfl ?_
    intro rest hRest
    have hDecimal : radix = .decimal → rest.head?.any Text.isDigit = false := by
      intro _
      cases rest with
      | nil => rfl
      | cons d rest => exact (hRest d rfl).2
    rw [readLexeme_literal h hDecimal hRest.ends (hFollowed rest), if_pos hFits, hText]
    rfl

/-- A number printed in a notation spells its value. -/
theorem spells_numeral {numeral : Listing.Numeral} (h : numeral.value ≤ maxLiteral) :
    Spells numeral.text.toList [.number numeral.value] := by
  obtain ⟨radix, n⟩ := numeral
  have hLow : 2 ≤ radix.base := by cases radix <;> decide
  have hHigh : radix.base ≤ 16 := by cases radix <;> decide
  have hLiteral : Literal radix (Listing.mark radix) (Text.digits radix.base n) := literal_digits h
  have hValue := Text.valueOf_digits hLow hHigh n
  have hSpells := spells_literal hLiteral (by rw [hValue]; exact h)
  rw [Listing.Numeral.text, String.toList_ofList]
  rw [hValue] at hSpells
  exact hSpells

/-! ## Marks and blanks -/

theorem lexemesFrom_delimiter (atStart : Bool) (mark : Delimiter) (rest : List Char) :
    lexemesFrom atStart (mark.char :: rest) =
      (lexemesFrom false rest).map (mark.lexeme :: ·) := by
  have hRead : readLexeme mark.char rest = .ok (mark.lexeme, 0) := by cases mark <;> rfl
  cases mark <;> exact lexemesFrom_readLexeme rfl (by decide) (by decide) hRead

theorem Spells.space (h : Spells text words) : Spells (' ' :: text) words := by
  intro atStart rest hRest
  have hSpace : isSpace ' ' = true := rfl
  rw [List.cons_append, lexemesFrom, if_pos hSpace]
  exact h atStart rest hRest

theorem Spells.append (hFirst : Spells text words) (hSecond : Spells more others)
    (hLoose : ∀ rest, Loose (more ++ rest)) : Spells (text ++ more) (words ++ others) := by
  intro atStart rest hRest
  rw [List.append_assoc, hFirst atStart _ (hLoose rest), hSecond false rest hRest, Option.map_map]
  congr 1
  funext found
  exact (List.append_assoc words others found).symm

theorem spells_delimiter (mark : Delimiter) : Spells [mark.char] [mark.lexeme] := by
  intro atStart rest _
  exact lexemesFrom_delimiter atStart mark rest

theorem Spells.mark_cons (mark : Delimiter) (h : Spells text words) :
    Spells (mark.char :: text) (mark.lexeme :: words) := by
  intro atStart rest hRest
  rw [List.cons_append, lexemesFrom_delimiter, h false rest hRest, Option.map_map]
  rfl

/-- An operand in parentheses. -/
theorem Spells.parenthesised (h : Spells text words) :
    Spells ('(' :: (text ++ [')']))
      (Delimiter.leftParen.lexeme :: (words ++ [Delimiter.rightParen.lexeme])) := by
  apply Spells.mark_cons .leftParen
  exact h.append (spells_delimiter .rightParen) fun rest => loose_cons rfl (by decide) rest

/-! ## Operands between commas -/

theorem spells_intercalate {texts : List (List Char)} {pieces : List (List Lexeme)}
    (h : List.Forall₂ Spells texts pieces) (hNonempty : texts ≠ []) :
    Spells (", ".toList.intercalate texts) ([Delimiter.comma.lexeme].intercalate pieces) := by
  induction h with
  | nil => exact absurd rfl hNonempty
  | @cons first piece texts pieces hFirst hRest ih =>
    cases hRest with
    | nil => simpa using hFirst
    | cons hSecond hMore =>
      rw [List.intercalate_cons_cons, List.intercalate_cons_cons, List.append_assoc,
        List.append_assoc]
      apply hFirst.append
      · exact Spells.mark_cons .comma (ih (List.cons_ne_nil _ _)).space
      · exact fun rest => loose_cons rfl (by decide) _

/-- A head with operands between commas. -/
theorem spells_formText {head : String} {word : Lexeme} {operands : List String}
    {pieces : List (List Lexeme)} (hHead : Spells head.toList [word])
    (h : List.Forall₂ (fun operand piece => Spells operand.toList piece) operands pieces) :
    Spells (Form.text head operands).toList
      (word :: [Delimiter.comma.lexeme].intercalate pieces) := by
  unfold Form.text
  split
  · cases h
    exact hHead
  · next hSome =>
    have hTexts : List.Forall₂ Spells (operands.map String.toList) pieces :=
      List.forall₂_map_left_iff.2 h
    have hOperands := spells_intercalate hTexts (by simpa using hSome)
    rw [String.toList_append, String.toList_append, String.toList_intercalate, List.append_assoc]
    exact hHead.append hOperands.space fun rest => loose_cons rfl (by decide) _

end
end Scan
end Lr35902
