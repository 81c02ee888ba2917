import Lr35902.Proofs.ScannedLines

/-!
Number literals. A literal is a run of digits after the mark of its notation (`Literal`). The
scanner takes one whole, whatever follows it, as long as no identifier goes on there
(`readLexeme_literal`), and what it refuses as too large is one (`exists_literal_of_wideLiteral`).
-/
namespace Lr35902

namespace Text

/-! ## Digits and their values -/

theorem isDigit_of_isAsciiDigit {c : Char} (h : isAsciiDigit c = true) : isDigit c = true := by
  have hRange := isAsciiDigit_iff.1 h
  have hFound : (decimalValue? c).isSome = true := by
    rw [decimalValue?, Option.isSome_map, List.find?_isSome]
    exact ⟨0x30, by simp [decimalZeros], by simp; omega⟩
  rw [isDigit, hFound, Bool.true_or]

/-- A run of digits, read after the number `n`, denotes less than if its last digit were the next
one of `n`. -/
theorem foldl_digitValue_lt {base : Nat} {cs : List Char} (h : ∀ c ∈ cs, digitValue c < base)
    (n : Nat) :
    cs.foldl (fun n c => n * base + digitValue c) n < (n + 1) * Nat.pow base cs.length := by
  induction cs generalizing n with
  | nil => simp
  | cons c cs ih =>
    obtain ⟨hFirst, hRest⟩ := List.forall_mem_cons.1 h
    calc cs.foldl (fun n c => n * base + digitValue c) (n * base + digitValue c)
        < (n * base + digitValue c + 1) * Nat.pow base cs.length := ih hRest _
      _ ≤ ((n + 1) * base) * Nat.pow base cs.length := by
        apply Nat.mul_le_mul_right
        rw [Nat.succ_mul]
        omega
      _ = (n + 1) * Nat.pow base (c :: cs).length := by
        rw [Nat.mul_assoc, Nat.mul_comm base]
        rfl

/-- A run of at most so many digits denotes less than the power of the base. -/
theorem valueOf_lt {base limit : Nat} {cs : List Char} (hBase : 0 < base)
    (hLength : cs.length ≤ limit) (h : ∀ c ∈ cs, digitValue c < base) :
    valueOf base cs < Nat.pow base limit := by
  calc valueOf base cs < (0 + 1) * Nat.pow base cs.length := foldl_digitValue_lt h 0
    _ = Nat.pow base cs.length := by rw [Nat.zero_add, Nat.one_mul]
    _ ≤ Nat.pow base limit := Nat.pow_le_pow_right hBase hLength

/-- A run of the last digit of a base denotes the number before a power of the base. -/
theorem valueOf_replicate {base : Nat} {c : Char} (h : digitValue c + 1 = base) (n : Nat) :
    valueOf base (List.replicate n c) + 1 = Nat.pow base n := by
  induction n with
  | zero => rfl
  | succ n ih =>
    rw [List.replicate_succ', valueOf, List.foldl_append, List.foldl_cons, List.foldl_nil,
      Nat.add_assoc, h, ← Nat.succ_mul]
    exact congrArg (· * base) ih

end Text

namespace Scan

theorem isIdentifierStart_of_isAsciiDigit {c : Char} (h : Text.isAsciiDigit c = true) :
    isIdentifierStart c = false := by
  have hRange := Text.isAsciiDigit_iff.1 h
  have hAlpha : ¬c.isAlpha = true := by
    rw [isAlpha_iff]
    omega
  have hLine : c ≠ '_' := by
    intro hc
    simp [hc] at hRange
  simp [isIdentifierStart, hAlpha, hLine]

/-- A digit is neither blank nor the start of a comment or a line. -/
theorem not_blank_of_isAsciiDigit {c : Char} (h : Text.isAsciiDigit c = true) :
    isSpace c = false ∧ c ≠ ';' ∧ c ≠ '\n' := by
  have hRange := Text.isAsciiDigit_iff.1 h
  have hOther (letter : Char) (hLetter : Text.isAsciiDigit letter = false) : c ≠ letter := by
    intro hSame
    rw [hSame, hLetter] at h
    cases h
  refine ⟨?_, hOther ';' rfl, hOther '\n' rfl⟩
  simp [isSpace, hOther ' ' rfl, hOther '\t' rfl, hOther '\r' rfl]
  omega

theorem takesDigit_of_digitValue {radix : Radix} {c : Char}
    (h : Text.digitValue c < radix.base) : takesDigit radix c = true := by
  cases radix with
  | hexadecimal => simpa [takesDigit, Radix.base] using h
  | octal =>
    have hTen : Text.digitValue c < 10 := Nat.lt_trans h (by decide)
    exact Text.digitValue_lt_ten_iff.1 hTen
  | decimal => exact Text.digitValue_lt_ten_iff.1 h
  | binary =>
    have hTen : Text.digitValue c < 10 := Nat.lt_trans h (by decide)
    have hRange := Text.isAsciiDigit_iff.1 (Text.digitValue_lt_ten_iff.1 hTen)
    have hValue : c.toNat - 0x30 < 2 := by
      simpa [Text.digitValue, hRange, Radix.base] using h
    have hCode : c.toNat = '0'.toNat ∨ c.toNat = '1'.toNat := by
      show c.toNat = 0x30 ∨ c.toNat = 0x31
      omega
    rw [Char.toNat_inj, Char.toNat_inj] at hCode
    simpa [takesDigit] using hCode

theorem digitValue_of_takesDigit {radix : Radix} {c : Char} (h : takesDigit radix c = true)
    (hOctal : radix = .octal → Text.digitValue c < 8) : Text.digitValue c < radix.base := by
  cases radix with
  | hexadecimal => simpa [takesDigit, Radix.base] using h
  | octal => exact hOctal rfl
  | decimal => exact Text.digitValue_lt_ten_iff.2 h
  | binary =>
    have hBit : c = '0' ∨ c = '1' := by simpa [takesDigit] using h
    rcases hBit with rfl | rfl <;> decide

/-! ## Literals -/

/-- The marks of the notations. Decimal notation has none. -/
def marks : List (Radix × List Char) :=
  [(.hexadecimal, ['0', 'x']), (.hexadecimal, ['0', 'X']), (.binary, ['0', 'b']),
    (.binary, ['0', 'B']), (.octal, ['0']), (.decimal, [])]

/-- A mark and digits of one notation. In decimal notation a zero stands alone, and the digits are
not too many. -/
structure Literal (radix : Radix) (mark digits : List Char) : Prop where
  marked : (radix, mark) ∈ marks
  nonempty : digits ≠ []
  digits_lt : ∀ c ∈ digits, Text.digitValue c < radix.base
  lone_zero : radix = .decimal → digits.head? = some '0' → digits = ['0']
  length_le : radix = .decimal → digits.length ≤ Text.decimalLimit

/-- No identifier goes on where a text begins. -/
def Ends (following : List Char) : Prop := following.head?.any isIdentifierChar = false

section
variable {radix : Radix} {mark digits following rest : List Char} {c : Char}

theorem takeWhile_takesDigit (hDigits : ∀ c ∈ digits, Text.digitValue c < radix.base)
    (hEnd : Ends following) : (digits ++ following).takeWhile (takesDigit radix) = digits := by
  have hTaken : ∀ c ∈ digits, takesDigit radix c = true := by
    intro c hc
    exact takesDigit_of_digitValue (hDigits c hc)
  have hLeft : following.takeWhile (takesDigit radix) = [] := by
    cases following with
    | nil => rfl
    | cons c following =>
      have hStop : ¬takesDigit radix c = true := by
        intro hTakes
        simp [Ends, isIdentifierChar_of_takesDigit hTakes] at hEnd
      simp [hStop]
  rw [List.takeWhile_append_of_pos hTaken, hLeft, List.append_nil]

theorem literalNotation_zero_digit (hDigit : Text.isAsciiDigit c = true) :
    literalNotation '0' (c :: rest) = (.octal, 1) := by
  have hLetter (letter : Char) (hOther : Text.isAsciiDigit letter = false) : c ≠ letter := by
    intro hSame
    rw [hSame, hOther] at hDigit
    cases hDigit
  simp [literalNotation, hLetter 'x' rfl, hLetter 'X' rfl, hLetter 'b' rfl, hLetter 'B' rfl,
    Text.isDigit_of_isAsciiDigit hDigit]

theorem literalNotation_zero_alone (hDigit : following.head?.any Text.isDigit = false)
    (hEnd : Ends following) : literalNotation '0' following = (.decimal, 0) := by
  have hLoose : Loose following := by
    intro c hc
    rw [Option.mem_def.1 hc] at hDigit
    rw [Ends, Option.mem_def.1 hc] at hEnd
    exact ⟨hEnd, hDigit⟩
  exact hLoose.literalNotation_eq '0' []

/-- A literal is in the notation that its first characters show. -/
theorem literalNotation_literal (h : Literal radix mark digits)
    (hDecimal : radix = .decimal → following.head?.any Text.isDigit = false)
    (hEnd : Ends following) (hText : mark ++ digits ++ following = c :: rest) :
    literalNotation c rest = (radix, mark.length) := by
  obtain ⟨d, more, rfl⟩ := List.exists_cons_of_ne_nil h.nonempty
  have hFirst : Text.digitValue d < radix.base := h.digits_lt d List.mem_cons_self
  have hMarked := h.marked
  simp only [marks, List.mem_cons, Prod.mk.injEq, List.not_mem_nil, or_false] at hMarked
  rcases hMarked with ⟨rfl, rfl⟩ | ⟨rfl, rfl⟩ | ⟨rfl, rfl⟩ | ⟨rfl, rfl⟩ | ⟨rfl, rfl⟩ | ⟨rfl, rfl⟩
  · cases hText
    rfl
  · cases hText
    rfl
  · cases hText
    rfl
  · cases hText
    rfl
  · cases hText
    apply literalNotation_zero_digit
    exact Text.digitValue_lt_ten_iff.1 (Nat.lt_trans hFirst (by decide))
  · cases hText
    by_cases hZero : c = '0'
    · obtain ⟨-, rfl⟩ : _ ∧ more = [] := by simpa using h.lone_zero rfl (by simp [hZero])
      rw [hZero]
      exact literalNotation_zero_alone (hDecimal rfl) hEnd
    · unfold literalNotation
      rw [if_neg hZero]
      rfl

theorem Literal.readable (h : Literal radix mark digits) : readable radix digits = true := by
  cases radix with
  | hexadecimal => rfl
  | binary => rfl
  | octal => simpa [Scan.readable, Radix.base] using h.digits_lt
  | decimal => simpa [Scan.readable] using h.length_le rfl

/-- A literal starts with one of the ten digits. -/
theorem Literal.isAsciiDigit_head (h : Literal radix mark digits)
    (hText : mark ++ digits ++ following = c :: rest) : Text.isAsciiDigit c = true := by
  obtain ⟨d, more, rfl⟩ := List.exists_cons_of_ne_nil h.nonempty
  have hMarked := h.marked
  simp only [marks, List.mem_cons, Prod.mk.injEq, List.not_mem_nil, or_false] at hMarked
  rcases hMarked with ⟨-, rfl⟩ | ⟨-, rfl⟩ | ⟨-, rfl⟩ | ⟨-, rfl⟩ | ⟨-, rfl⟩ | ⟨rfl, rfl⟩
  all_goals cases hText
  iterate 5 decide
  exact Text.digitValue_lt_ten_iff.1 (h.digits_lt c List.mem_cons_self)

theorem readLexeme_of_isAsciiDigit (h : Text.isAsciiDigit c = true) :
    readLexeme c rest = readNumber c rest := by
  rw [readLexeme, if_neg (by simp [isIdentifierStart_of_isAsciiDigit h]),
    if_pos (Text.isDigit_of_isAsciiDigit h)]

/-- The scanner takes a literal whole, and refuses it only if its value is too large. -/
theorem readLexeme_literal (h : Literal radix mark digits)
    (hDecimal : radix = .decimal → following.head?.any Text.isDigit = false)
    (hEnd : Ends following) (hText : mark ++ digits ++ following = c :: rest) :
    readLexeme c rest =
      if Text.valueOf radix.base digits ≤ maxLiteral then
        .ok (.number (Text.valueOf radix.base digits), (mark ++ digits).length - 1)
      else .error (.wideLiteral (Text.valueOf radix.base digits)) := by
  have hNotation := literalNotation_literal h hDecimal hEnd hText
  have hDrop : (c :: rest).drop mark.length = digits ++ following := by
    rw [← hText, List.append_assoc, List.drop_left]
  have hTake := takeWhile_takesDigit h.digits_lt hEnd
  have hValue : literalValue radix digits following =
      if Text.valueOf radix.base digits ≤ maxLiteral then .ok (Text.valueOf radix.base digits)
      else .error (.wideLiteral (Text.valueOf radix.base digits)) := by
    have hEmpty : digits.isEmpty = false := by simpa using h.nonempty
    rw [literalValue, show following.head?.any isIdentifierChar = false from hEnd]
    simp [hEmpty, h.readable]
  rw [readLexeme_of_isAsciiDigit (h.isAsciiDigit_head hText)]
  simp only [readNumber, hNotation, hDrop, hTake, List.drop_left, hValue, List.length_append]
  by_cases hWide : Text.valueOf radix.base digits ≤ maxLiteral
  · simp only [if_pos hWide]
  · simp only [if_neg hWide]

/-- What the notation of a text says of its first characters. -/
theorem literalNotation_mark {lead : Nat} (h : literalNotation c rest = (radix, lead)) :
    (radix, (c :: rest).take lead) ∈ marks ∧
      (radix = .decimal → lead = 0 ∧ (c = '0' → rest.head?.any Text.isDigit = false)) := by
  unfold literalNotation at h
  split at h
  · next hZero =>
    split at h
    · next x more =>
      split at h
      · next hx =>
        cases h
        rcases hx with rfl | rfl <;> simp [marks, hZero]
      · split at h
        · next hx =>
          cases h
          rcases hx with rfl | rfl <;> simp [marks, hZero]
        · split at h
          · cases h
            simp [marks, hZero]
          · next hDigit =>
            cases h
            simp [marks, hDigit]
    · cases h
      simp [marks]
  · next hOther =>
    cases h
    simp [marks, hOther]

theorem literalValue_wideLiteral {value : Nat}
    (h : literalValue radix digits following = .error (.wideLiteral value)) :
    Ends following ∧ digits ≠ [] ∧ readable radix digits = true ∧
      Text.valueOf radix.base digits = value := by
  unfold literalValue at h
  split at h
  · cases h
  · next hEnd =>
    split at h
    · cases h
    · next hDigits =>
      split at h
      · cases h
      · next hReadable =>
        simp only at h
        split at h
        · cases h
        · cases h
          exact ⟨by simpa [Ends] using hEnd, by simpa using hDigits, by simpa using hReadable, rfl⟩

theorem readNumber_of_wideLiteral {value : Nat}
    (h : readLexeme c rest = .error (.wideLiteral value)) :
    readNumber c rest = .error (.wideLiteral value) := by
  unfold readLexeme at h
  split at h
  · cases h
  · split at h
    · exact h
    · split at h
      · simp only [readDirective] at h
        split at h
        · cases h
        · split at h <;> cases h
      · split at h
        · simp only [readString] at h
          split at h <;> cases h
        · split at h <;> cases h

theorem takeWhile_lone_zero (hAlone : c = '0' → rest.head?.any Text.isDigit = false)
    (hZero : ((c :: rest).takeWhile (takesDigit .decimal)).head? = some '0') :
    (c :: rest).takeWhile (takesDigit .decimal) = ['0'] := by
  have hFirst : c = '0' := by
    rw [List.takeWhile_cons] at hZero
    split at hZero
    · simpa using hZero
    · simp at hZero
  have hNone : rest.takeWhile (takesDigit .decimal) = [] := by
    cases rest with
    | nil => rfl
    | cons d rest =>
      have hStop : ¬takesDigit .decimal d = true := by
        intro hDigit
        simp [Text.isDigit_of_isAsciiDigit hDigit, hFirst] at hAlone
      simp [hStop]
  rw [List.takeWhile_cons, hNone, hFirst]
  rfl

/-- The digits that the scanner takes are a literal with what stands before them, if there are some
and they can be read. -/
theorem literal_of_literalNotation {lead : Nat} (hNotation : literalNotation c rest = (radix, lead))
    (hDigits : ((c :: rest).drop lead).takeWhile (takesDigit radix) ≠ [])
    (hReadable : readable radix (((c :: rest).drop lead).takeWhile (takesDigit radix)) = true) :
    Literal radix ((c :: rest).take lead)
      (((c :: rest).drop lead).takeWhile (takesDigit radix)) := by
  obtain ⟨hMark, hDecimal⟩ := literalNotation_mark hNotation
  refine ⟨hMark, hDigits, ?_, ?_, ?_⟩
  · intro d hd
    apply digitValue_of_takesDigit (List.all_eq_true.1 List.all_takeWhile d hd)
    intro hOctal
    subst hOctal
    simpa using List.all_eq_true.1 hReadable d hd
  · intro hRadix hZero
    subst hRadix
    obtain ⟨rfl, hAlone⟩ := hDecimal rfl
    exact takeWhile_lone_zero hAlone hZero
  · intro hRadix
    subst hRadix
    simpa [readable] using hReadable

/-- What is refused for its value is a literal. -/
theorem exists_literal_of_wideLiteral {value : Nat}
    (h : readLexeme c rest = .error (.wideLiteral value)) :
    ∃ radix mark digits following, Literal radix mark digits ∧ Ends following ∧
      c :: rest = mark ++ digits ++ following ∧ Text.valueOf radix.base digits = value := by
  have hNumber := readNumber_of_wideLiteral h
  cases hNotation : literalNotation c rest with
  | mk radix lead =>
    simp only [readNumber, hNotation] at hNumber
    split at hNumber
    · cases hNumber
    · next cause hValue =>
      cases hNumber
      obtain ⟨hEnd, hDigits, hReadable, hSame⟩ := literalValue_wideLiteral hValue
      refine ⟨radix, (c :: rest).take lead, _, _,
        literal_of_literalNotation hNotation hDigits hReadable, hEnd, ?_, hSame⟩
      rw [List.append_assoc, List.prefix_iff_eq_append.1 (List.takeWhile_prefix _),
        List.take_append_drop]

end
end Scan
end Lr35902
