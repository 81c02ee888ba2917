import Mathlib.Data.Bool.AllAny
import Lr35902.Proofs.LexemeSpelling

/-!
The grammar of number literals. `NumberForm` says which words are literals, in which notation and
with which digits, and `Text.positional` what digits denote; both say so without the scanner. A word
that starts with a digit is scanned to one token if it is a literal whose value fits, and to none
otherwise (`scan_number_iff`).
-/
namespace Lr35902

/-! ## Positional notation -/

namespace Text

/-- The value of a digit: its place among the digits, capital letters as small ones. -/
def digitRank (c : Char) : Nat := "0123456789abcdef".toList.idxOf c.toLower

/-- The number that digits denote in a base. Each counts as often as its place says. -/
def positional (base : Nat) : List Char → Nat
  | [] => 0
  | c :: more => digitRank c * Nat.pow base more.length + positional base more

end Text

/-- The digits of a notation. -/
def Radix.digitChars : Radix → List Char
  | .binary => "01".toList
  | .octal => "01234567".toList
  | .decimal => "0123456789".toList
  | .hexadecimal => "0123456789abcdefABCDEF".toList

/-- The words that are number literals, with their notation and their digits. -/
inductive NumberForm : List Char → Radix → List Char → Prop where
  | hexadecimal {x : Char} {digits : List Char} (hMark : x = 'x' ∨ x = 'X') (hSome : digits ≠ [])
      (hDigits : digits ⊆ Radix.hexadecimal.digitChars) :
      NumberForm ('0' :: x :: digits) .hexadecimal digits
  | binary {x : Char} {digits : List Char} (hMark : x = 'b' ∨ x = 'B') (hSome : digits ≠ [])
      (hDigits : digits ⊆ Radix.binary.digitChars) : NumberForm ('0' :: x :: digits) .binary digits
  | octal {digits : List Char} (hSome : digits ≠ []) (hDigits : digits ⊆ Radix.octal.digitChars) :
      NumberForm ('0' :: digits) .octal digits
  | zero : NumberForm ['0'] .decimal ['0']
  | decimal {c : Char} {digits : List Char} (hFirst : c ∈ "123456789".toList)
      (hDigits : digits ⊆ Radix.decimal.digitChars) :
      NumberForm (c :: digits) .decimal (c :: digits)

namespace Text

/-- A character has a property if the first 128 and all beyond them do. -/
theorem of_ascii {P : Char → Prop} (hAscii : ∀ n < 128, P (Char.ofNat n))
    (hBeyond : ∀ c : Char, 128 ≤ c.toNat → P c) (c : Char) : P c := by
  by_cases hSmall : c.toNat < 128
  · rw [← Char.ofNat_toNat c]
    exact hAscii c.toNat hSmall
  · exact hBeyond c (Nat.not_lt.1 hSmall)

/-- The digits of a notation are the characters whose value is below its base. -/
theorem digitValue_lt_base_iff (radix : Radix) (c : Char) :
    digitValue c < radix.base ↔ c ∈ radix.digitChars := by
  revert c
  apply of_ascii
  · cases radix <;> decide +kernel
  · intro c hBeyond
    have hSmall : ∀ d ∈ radix.digitChars, d.toNat < 128 := by
      cases radix <;> exact List.all_iff_forall_prop.1 (by decide)
    have hValue : digitValue c = 16 := by
      simp only [digitValue]
      rw [if_neg (by omega), if_neg (by omega), if_neg (by omega)]
    have hBase : radix.base ≤ 16 := by cases radix <;> decide
    constructor
    · intro hLt
      omega
    · intro hMem
      exact absurd (hSmall c hMem) (Nat.not_lt.2 hBeyond)

theorem digitRank_eq {radix : Radix} {c : Char} (h : c ∈ radix.digitChars) :
    digitRank c = digitValue c := by
  have hAll : ∀ radix : Radix, ∀ c ∈ radix.digitChars, digitRank c = digitValue c := by
    intro radix
    cases radix <;> exact List.all_iff_forall_prop.1 (by decide)
  exact hAll radix c h

/-- Reading digits one after the other gives what they denote by their places. -/
theorem valueOf_eq_positional {radix : Radix} {digits : List Char}
    (h : digits ⊆ radix.digitChars) : valueOf radix.base digits = positional radix.base digits := by
  have hFold (n : Nat) : digits.foldl (fun n c => n * radix.base + digitValue c) n =
      n * Nat.pow radix.base digits.length + positional radix.base digits := by
    induction digits generalizing n with
    | nil => simp [positional]
    | cons c more ih =>
      obtain ⟨hFirst, hMore⟩ := List.cons_subset.1 h
      have hPlace : Nat.pow radix.base (more.length + 1) =
          radix.base * Nat.pow radix.base more.length := Nat.mul_comm _ _
      rw [List.foldl_cons, ih hMore, positional, digitRank_eq hFirst, List.length_cons, hPlace,
        Nat.add_mul, Nat.mul_assoc, Nat.add_assoc]
  have hZero := hFold 0
  rw [Nat.zero_mul, Nat.zero_add] at hZero
  exact hZero

end Text

/-! ## Forms and literals -/

section
variable {radix : Radix} {mark digits word : List Char}

theorem subset_digitChars_iff :
    digits ⊆ radix.digitChars ↔ ∀ c ∈ digits, Text.digitValue c < radix.base := by
  constructor
  · intro hSubset c hMem
    exact (Text.digitValue_lt_base_iff radix c).2 (hSubset hMem)
  · intro hDigits c hMem
    exact (Text.digitValue_lt_base_iff radix c).1 (hDigits c hMem)

theorem NumberForm.subset (h : NumberForm word radix digits) : digits ⊆ radix.digitChars := by
  cases h with
  | hexadecimal _ _ hDigits => exact hDigits
  | binary _ _ hDigits => exact hDigits
  | octal _ hDigits => exact hDigits
  | zero => decide
  | decimal hFirst hDigits =>
    have hNonzero : "123456789".toList ⊆ Radix.decimal.digitChars := by decide
    exact List.cons_subset.2 ⟨hNonzero hFirst, hDigits⟩

/-- A literal has one of the forms. -/
theorem Scan.Literal.numberForm (h : Literal radix mark digits) :
    NumberForm (mark ++ digits) radix digits := by
  have hSubset := subset_digitChars_iff.2 h.digits_lt
  have hMarked := h.marked
  simp only [marks, List.mem_cons, Prod.mk.injEq, List.not_mem_nil, or_false] at hMarked
  rcases hMarked with ⟨rfl, rfl⟩ | ⟨rfl, rfl⟩ | ⟨rfl, rfl⟩ | ⟨rfl, rfl⟩ | ⟨rfl, rfl⟩ | ⟨rfl, rfl⟩
  · exact .hexadecimal (.inl rfl) h.nonempty hSubset
  · exact .hexadecimal (.inr rfl) h.nonempty hSubset
  · exact .binary (.inl rfl) h.nonempty hSubset
  · exact .binary (.inr rfl) h.nonempty hSubset
  · exact .octal h.nonempty hSubset
  · obtain ⟨c, more, rfl⟩ := List.exists_cons_of_ne_nil h.nonempty
    obtain ⟨hFirst, hMore⟩ := List.cons_subset.1 hSubset
    by_cases hZero : c = '0'
    · -- decimal notation has no further digit after a zero
      rw [h.lone_zero rfl (congrArg some hZero)]
      exact .zero
    · have hNonzero : ∀ c ∈ Radix.decimal.digitChars, c ≠ '0' → c ∈ "123456789".toList :=
        List.all_iff_forall_prop.1 (by decide)
      exact .decimal (hNonzero c hFirst hZero) hMore

/-- Only decimal notation asks for more than a mark and digits. -/
theorem Scan.Literal.of_ne_decimal (hMarked : (radix, mark) ∈ marks) (hSome : digits ≠ [])
    (hDigits : digits ⊆ radix.digitChars) (hRadix : radix ≠ .decimal) :
    Literal radix mark digits :=
  ⟨hMarked, hSome, subset_digitChars_iff.1 hDigits, fun hDecimal => absurd hDecimal hRadix,
    fun hDecimal => absurd hDecimal hRadix⟩

/-- A form is a literal, if decimal digits are not too many. -/
theorem NumberForm.literal (h : NumberForm word radix digits)
    (hLength : radix = .decimal → digits.length ≤ Text.decimalLimit) :
    ∃ mark, Scan.Literal radix mark digits ∧ word = mark ++ digits := by
  have hAll := subset_digitChars_iff.1 h.subset
  cases h with
  | @hexadecimal x _ hMark hSome hDigits =>
    have hMarked : (.hexadecimal, ['0', x]) ∈ Scan.marks := by
      rcases hMark with rfl | rfl <;> decide
    exact ⟨['0', x], .of_ne_decimal hMarked hSome hDigits (by decide), rfl⟩
  | @binary x _ hMark hSome hDigits =>
    have hMarked : (.binary, ['0', x]) ∈ Scan.marks := by rcases hMark with rfl | rfl <;> decide
    exact ⟨['0', x], .of_ne_decimal hMarked hSome hDigits (by decide), rfl⟩
  | octal hSome hDigits =>
    exact ⟨['0'], .of_ne_decimal (by decide) hSome hDigits (by decide), rfl⟩
  | zero => exact ⟨[], ⟨by decide, by decide, hAll, fun _ _ => rfl, hLength⟩, rfl⟩
  | @decimal c more hFirst _ =>
    have hNonzero : '0' ∉ "123456789".toList := by decide
    refine ⟨[], ⟨by decide, List.cons_ne_nil _ _, hAll, ?_, hLength⟩, rfl⟩
    intro _ hZero
    rw [Option.some.inj hZero] at hFirst
    exact absurd hFirst hNonzero

/-- Decimal digits are few if what they denote is small, since the first one is no zero. -/
theorem NumberForm.length_le (h : NumberForm word .decimal digits)
    (hSmall : Text.positional 10 digits ≤ 0xFFFF) : digits.length ≤ 5 := by
  cases h with
  | zero => decide
  | @decimal c more hFirst _ =>
    have hRank : 1 ≤ Text.digitRank c := by
      have hAll : ∀ c ∈ "123456789".toList, 1 ≤ Text.digitRank c :=
        List.all_iff_forall_prop.1 (by decide)
      exact hAll c hFirst
    have hPower : Nat.pow 10 more.length ≤ 0xFFFF :=
      calc Nat.pow 10 more.length = 1 * Nat.pow 10 more.length := (Nat.one_mul _).symm
        _ ≤ Text.digitRank c * Nat.pow 10 more.length := Nat.mul_le_mul_right _ hRank
        _ ≤ Text.positional 10 (c :: more) := Nat.le_add_right _ _
        _ ≤ 0xFFFF := hSmall
    have hFew : more.length < 5 := by
      apply (Nat.pow_lt_pow_iff_right (by decide : 1 < 10)).1
      exact Nat.lt_of_le_of_lt hPower (by decide)
    exact hFew

end

/-! ## Words that start with a digit -/

namespace Scan

theorem isAsciiDigit_of_isDigit {c : Char} (h : c.isDigit = true) : Text.isAsciiDigit c = true := by
  have hClass : c.isDigit = (decide (c.val ≥ '0'.val) && decide (c.val ≤ '9'.val)) := rfl
  rw [hClass, Bool.and_eq_true_iff] at h
  exact Text.isAsciiDigit_iff.2 ⟨of_decide_eq_true h.1, of_decide_eq_true h.2⟩

/-- Where all of a word can be part of an identifier, nothing but its end stops a literal. -/
theorem eq_nil_of_ends {rest : List Char} (hWord : ∀ c ∈ rest, isIdentifierChar c = true)
    (h : Ends rest) : rest = [] := by
  cases rest with
  | nil => rfl
  | cons c rest =>
    have hFirst : isIdentifierChar c = false := h
    rw [hWord c List.mem_cons_self] at hFirst
    cases hFirst

/-- A word that starts with a digit is scanned to its number, if all of it is one. -/
theorem scanFrom_number {file : String} {cursor : Cursor} {c : Char} {rest : List Char}
    {tokens : List Token} (hDigit : Text.isAsciiDigit c = true)
    (hWord : ∀ c ∈ rest, isIdentifierChar c = true) :
    scanFrom file cursor [] (c :: rest) = .ok tokens ↔
      ∃ lexeme, readNumber c rest = .ok (lexeme, rest.length) ∧
        tokens = [⟨lexeme, cursor.location file⟩] := by
  obtain ⟨hSpace, hComment, hBreak⟩ := not_blank_of_isAsciiDigit hDigit
  rw [scanFrom, if_neg (by simp [hSpace]), if_neg hComment, if_neg hBreak,
    readLexeme_of_isAsciiDigit hDigit]
  constructor
  · intro hScan
    cases hRead : readNumber c rest with
    | error cause =>
      rw [hRead] at hScan
      cases hScan
    | ok found =>
      obtain ⟨lexeme, taken⟩ := found
      obtain ⟨_, _, _, -, -, hEnd, -, -⟩ := readNumber_literal hRead
      have hLeft : rest.drop taken = [] :=
        eq_nil_of_ends (fun c hMem => hWord c (List.mem_of_mem_drop hMem)) hEnd
      have hTaken : taken = rest.length :=
        Nat.le_antisymm (readNumber_le hRead) (List.drop_eq_nil_iff.1 hLeft)
      rw [hRead] at hScan
      simp only [hLeft, scanFrom] at hScan
      cases hScan
      exact ⟨lexeme, by rw [hTaken], rfl⟩
  · intro hNumber
    obtain ⟨lexeme, hRead, rfl⟩ := hNumber
    simp only [hRead, List.drop_length, scanFrom]
    rfl

end Scan

/-- A word that starts with a digit is scanned to tokens exactly if it has one of the forms and
denotes a number of 16 bits, and the only token is that number at the start. -/
theorem scan_number_iff {word file : String}
    (hChars : ∀ c ∈ word.toList, c.isAlphanum = true ∨ c = '_')
    (hDigit : word.toList.head?.any Char.isDigit = true) (tokens : List Token) :
    scan word file = .ok tokens ↔
      ∃ radix digits, NumberForm word.toList radix digits ∧
        Text.positional radix.base digits ≤ 0xFFFF ∧
        tokens = [⟨.number (Text.positional radix.base digits : Nat), ⟨file, 1, 1⟩⟩] := by
  have hWord : ∀ c ∈ word.toList, Scan.isIdentifierChar c = true := by
    intro c hMem
    simpa [Scan.isIdentifierChar] using hChars c hMem
  unfold scan
  generalize word.toList = text at hDigit hWord
  cases text with
  | nil => cases hDigit
  | cons c rest =>
    obtain ⟨-, hRest⟩ := List.forall_mem_cons.1 hWord
    have hFirst : Text.isAsciiDigit c = true := Scan.isAsciiDigit_of_isDigit hDigit
    rw [Scan.scanFrom_number hFirst hRest]
    constructor
    · intro hNumber
      obtain ⟨lexeme, hRead, rfl⟩ := hNumber
      obtain ⟨radix, mark, digits, hLiteral, hFits, -, hText, rfl⟩ := Scan.readNumber_literal hRead
      rw [List.take_length] at hText
      have hForm := hLiteral.numberForm
      rw [Text.valueOf_eq_positional hForm.subset] at hFits ⊢
      exact ⟨radix, digits, hText ▸ hForm, hFits, rfl⟩
    · intro hNumber
      obtain ⟨radix, digits, hForm, hFits, rfl⟩ := hNumber
      have hLength : radix = .decimal → digits.length ≤ Text.decimalLimit := by
        intro hDecimal
        subst hDecimal
        exact Nat.le_trans (hForm.length_le hFits) (by decide)
      obtain ⟨mark, hLiteral, hText⟩ := hForm.literal hLength
      have hRead := @Scan.readLexeme_literal radix mark digits [] rest c hLiteral (fun _ => rfl) rfl
        (by rw [List.append_nil, hText])
      rw [Scan.readLexeme_of_isAsciiDigit hFirst, Text.valueOf_eq_positional hForm.subset,
        if_pos (show _ ≤ Scan.maxLiteral from hFits), ← hText] at hRead
      exact ⟨_, hRead, rfl⟩

/-- A hexadecimal literal with capital and small letters. -/
theorem scan_number_iff_mixed_case :
    (∀ c ∈ "0XbEeF".toList, c.isAlphanum = true ∨ c = '_') ∧
      "0XbEeF".toList.head?.any Char.isDigit = true ∧
      scan "0XbEeF" "<input>" = .ok [⟨.number 0xBEEF, ⟨"<input>", 1, 1⟩⟩] := by
  have hChars : ∀ c ∈ "0XbEeF".toList, c.isAlphanum = true ∨ c = '_' :=
    List.all_iff_forall_prop.1 (by decide)
  have hForm : NumberForm "0XbEeF".toList .hexadecimal "bEeF".toList :=
    .hexadecimal (.inr rfl) (by decide) (by decide)
  exact ⟨hChars, rfl,
    (scan_number_iff hChars rfl _).2 ⟨.hexadecimal, _, hForm, by decide, rfl⟩⟩

end Lr35902
