import Mathlib.Data.List.TakeWhile
import Lr35902.CommandLine.Define
import Lr35902.Proofs.TypedIntegers

/-!
Predefinitions and their documented grammar. A predefinition is a name alone, or a name, an equals
sign and a value (`Reads`). The documented values are digits after the mark of a notation
(`Documented`); the values that are taken are all typed integers after it (`Typed`), and what is not
taken is refused for a reason (`Refuses`). So more is taken than documented, and where decimal
digits are too many, less (`parse_accepts`).

A value is read in lower case. The small letters of a character beyond ASCII never stand in a
number, and neither does the character (`lowerChar_eq`), so only the case of ASCII letters matters.
-/
namespace Lr35902.Text

/-! ## Lower case -/

/-- Whether a character may stand in a typed integer. -/
def isNumberChar (c : Char) : Bool := isIntegerBlank c || numberChars.contains (asciiDigit c)

section
variable {c : Char}

theorem toLower_cases (c : Char) :
    c.toLower = c ∨ (0x41 ≤ c.toNat ∧ c.toNat ≤ 0x5A) ∧ c.toLower.toNat = c.toNat + 0x20 := by
  by_cases h : 0x41 ≤ c.toNat ∧ c.toNat ≤ 0x5A
  · right
    have hVal : c.toLower.val = c.val + 0x20 := congrArg Char.val (dif_pos h)
    have hLast : c.val.toNat ≤ 0x5A := h.2
    refine ⟨h, ?_⟩
    show c.toLower.val.toNat = c.val.toNat + 0x20
    rw [hVal, UInt32.toNat_add]
    exact Nat.mod_eq_of_lt (Nat.lt_of_le_of_lt (Nat.add_le_add_right hLast _) (by decide))
  · exact .inl (dif_neg h)

theorem toLower_of_le (h : 0x80 ≤ c.toNat) : c.toLower = c := by
  rcases toLower_cases c with hSame | ⟨hLetter, -⟩
  · exact hSame
  · omega

/-- Beyond ASCII these are the blanks and the digits. -/
theorem inRanges_of_isNumberChar (hBeyond : 0x80 ≤ c.toNat) (h : isNumberChar c = true) :
    inRanges (blankRanges ++ digitRanges) c.toNat = true := by
  rw [inRanges, List.any_append, Bool.or_eq_true]
  rcases Bool.or_eq_true_iff.1 h with hBlank | hMem
  · left
    rw [isIntegerBlank, if_neg (by omega)] at hBlank
    exact hBlank
  · right
    have hSmall : ∀ c ∈ numberChars, c.toNat < 0x80 := List.all_iff_forall_prop.1 (by decide)
    rw [List.contains_iff_mem, asciiDigit, if_neg (by omega)] at hMem
    cases hValue : decimalValue? c with
    | none =>
      rw [hValue] at hMem
      exact absurd (hSmall c hMem) (Nat.not_lt.2 hBeyond)
    | some value => exact (inRanges_of_decimalValue? hValue).1

/-- Stretches of code points without a blank or a digit, in which the capital letters beyond ASCII
and their small letters lie. -/
def letterRanges : List (Nat × Nat) :=
  [(0xC0, 0x586), (0x10A0, 0x13FD), (0x1C90, 0x1FFC), (0x2126, 0x2D2D), (0xA640, 0xA7F6),
    (0xAB53, 0xABBF), (0xFF21, 0x1044F), (0x104B0, 0x10CF2), (0x118A0, 0x118DF), (0x16E40, 0x16E7F),
    (0x1E900, 0x1E943)]

theorem letterRanges_apart :
    (letterRanges.all fun letters => decide (0x80 ≤ letters.1) &&
      (blankRanges ++ digitRanges).all fun range =>
        decide (letters.2 < range.1) || decide (range.2 < letters.1)) = true := by
  decide +kernel

/-- One capital letter beyond ASCII, the sign of the kelvin, has an ASCII letter. -/
theorem caseRuns_within :
    (caseRuns.all fun run =>
      (letterRanges.any fun letters =>
        decide (letters.1 ≤ run.first) && decide (run.last ≤ letters.2)) &&
      (decide (run.small = 0x6B ∧ run.last = run.first) ||
        letterRanges.any fun letters => decide (letters.1 ≤ run.small) &&
          decide (run.small + (run.last - run.first) ≤ letters.2))) = true := by
  decide +kernel

theorem isNumberChar_of_within {first last n : Nat}
    (h : (letterRanges.any fun letters =>
      decide (letters.1 ≤ first) && decide (last ≤ letters.2)) = true)
    (hFirst : first ≤ n) (hLast : n ≤ last) : isNumberChar (Char.ofNat n) = false := by
  obtain ⟨letters, hMem, hWithin⟩ := List.any_eq_true.1 h
  have hApart := List.all_eq_true.1 letterRanges_apart letters hMem
  simp only [Bool.and_eq_true, decide_eq_true_iff] at hWithin hApart
  by_cases hValid : n.isValidChar
  · have hNat : (Char.ofNat n).toNat = n := by
      rw [Char.ofNat, dif_pos hValid]
      rfl
    rw [← Bool.not_eq_true]
    intro hNumber
    have hInside := inRanges_of_isNumberChar (by rw [hNat]; omega) hNumber
    rw [hNat, inRanges_of_apart hApart.2 (by omega) (by omega)] at hInside
    cases hInside
  · rw [Char.ofNat, dif_neg hValid]
    decide

/-- A character that has other small letters than in ASCII stands in no number, nor do they. -/
theorem lowerChar_eq (c : Char) :
    lowerChar c = [c.toLower] ∨
      isNumberChar c.toLower = false ∧ ∃ d ∈ lowerChar c, isNumberChar d = false := by
  by_cases hAscii : c.toNat < 0x80
  · exact .inl (if_pos hAscii)
  have hBeyond := Nat.not_lt.1 hAscii
  rw [toLower_of_le hBeyond, lowerChar, if_neg hAscii]
  by_cases hDotted : c.toNat = 0x130
  · have hChar : c = Char.ofNat 0x130 := by rw [← hDotted, Char.ofNat_toNat]
    rw [if_pos hDotted, hChar]
    exact .inr ⟨isNumberChar_of_within (by decide) (Nat.le_refl _) (Nat.le_refl _), _,
      List.mem_cons_self, by decide⟩
  · rw [if_neg hDotted]
    cases hFind : caseRuns.find? (·.holds c.toNat) with
    | none => exact .inl rfl
    | some run =>
      right
      have hMem := List.mem_of_find?_eq_some hFind
      have hHolds := List.find?_some hFind
      simp only [CaseRun.holds, Bool.and_eq_true, decide_eq_true_iff] at hHolds
      have hWithin := List.all_eq_true.1 caseRuns_within run hMem
      rw [Bool.and_eq_true, Bool.or_eq_true, decide_eq_true_iff] at hWithin
      obtain ⟨hCapitals, hSmalls⟩ := hWithin
      refine ⟨?_, _, List.mem_singleton_self _, ?_⟩
      · rw [← Char.ofNat_toNat c]
        exact isNumberChar_of_within hCapitals hHolds.1.1 hHolds.1.2
      · rcases hSmalls with ⟨hKelvin, hAlone⟩ | hLetters
        · have hCode : run.small + (c.toNat - run.first) = 0x6B := by omega
          rw [hCode]
          decide
        · exact isNumberChar_of_within hLetters (by omega) (by omega)

/-- Of texts that numbers could be made of, or whose lower case is one, only the ASCII letters have
another lower case. -/
theorem lowerFrom_eq_map {before text : List Char}
    (h : (∀ c ∈ lowerFrom before text, isNumberChar c = true) ∨
      ∀ c ∈ text, isNumberChar c.toLower = true) :
    lowerFrom before text = text.map Char.toLower := by
  induction text generalizing before with
  | nil => rfl
  | cons c rest ih =>
    rw [lowerFrom] at h ⊢
    split at h
    · next hSigma =>
      -- no sigma stands in a number
      rcases h with hLower | hText
      · exact absurd (hLower 'ς' List.mem_cons_self) (by decide)
      · rw [hSigma.1] at hText
        exact absurd (hText 'Σ' List.mem_cons_self) (by decide)
    · next hOther =>
      have hRest : lowerFrom (c :: before) rest = rest.map Char.toLower := by
        refine ih (h.imp ?_ ?_)
        · exact fun hLower d hMem => hLower d (List.mem_append_right _ hMem)
        · exact fun hText d hMem => hText d (List.mem_cons_of_mem c hMem)
      rw [if_neg hOther, hRest, List.map_cons]
      rcases lowerChar_eq c with hSame | ⟨hCapital, d, hSmall, hNot⟩
      · rw [hSame, List.singleton_append]
      · rcases h with hLower | hText
        · rw [hLower d (List.mem_append_left _ hSmall)] at hNot
          cases hNot
        · rw [hText c List.mem_cons_self] at hCapital
          cases hCapital

end

/-- The ASCII digit or small letter that a character stands for. -/
def plain (c : Char) : Char := asciiDigit c.toLower

theorem isIntegerBlank_toLower (c : Char) : isIntegerBlank c.toLower = isIntegerBlank c := by
  rcases toLower_cases c with hSame | ⟨hLetter, hLower⟩
  · rw [hSame]
  · have hNot (d : Char) (hLow : 0x21 ≤ d.toNat) (hHigh : d.toNat < 0x7F) :
        isIntegerBlank d = false := by
      rw [isIntegerBlank, if_pos hHigh]
      exact inRanges_of_apart (by decide) hLow (Nat.le_of_lt_succ hHigh)
    rw [hNot c (by omega) (by omega), hNot c.toLower (by omega) (by omega)]

theorem isBlank_of_isIntegerBlank {c : Char} (h : isIntegerBlank c = true) : isBlank c = true := by
  unfold isIntegerBlank at h
  split at h
  · simp only [isBlank, inRanges, blankRanges, List.any_cons, List.any_nil, Bool.or_eq_true,
      Bool.and_eq_true, decide_eq_true_iff, Bool.false_eq_true, or_false] at h ⊢
    omega
  · exact h

section
variable {radix : Radix} {text : List Char} {value : Int}

theorem plain_digit {c : Char} (h : c ∈ radix.digitChars) :
    plain c ∈ radix.digitChars ∧ digitRank (plain c) = digitRank c := by
  have hAll : ∀ c ∈ radix.digitChars,
      plain c ∈ radix.digitChars ∧ digitRank (plain c) = digitRank c := by
    cases radix <;> exact List.all_iff_forall_prop.1 (by decide)
  exact hAll c h

theorem positional_map_plain (base : Nat) (h : text ⊆ radix.digitChars) :
    positional base (text.map plain) = positional base text := by
  induction text with
  | nil => rfl
  | cons c rest ih =>
    obtain ⟨hDigit, hRest⟩ := List.cons_subset.1 h
    rw [List.map_cons, positional, positional, ih hRest, (plain_digit hDigit).2, List.length_map]

theorem signed_plain_iff (h : text ⊆ radix.digitChars) :
    Signed radix (text.map plain) value ↔
      text ≠ [] ∧ (radix = .decimal → text.length ≤ decimalLimit) ∧
        value = (positional radix.base text : Nat) := by
  have hPlain : text.map plain ⊆ radix.digitChars := by
    intro d hMem
    obtain ⟨c, hChar, rfl⟩ := List.mem_map.1 hMem
    exact (plain_digit (h hChar)).1
  rw [signed_digits_iff hPlain, positional_map_plain _ h, List.length_map, Ne, List.map_eq_nil_iff]

theorem isNumberChar_of_readInteger? (h : readInteger? radix.base text = some value) :
    ∀ c ∈ text, isNumberChar c = true := by
  obtain ⟨blanks, number, trail, rfl, hBlanks, hNumber, hTrail⟩ := readInteger?_eq_some_iff.1 h
  intro c hMem
  rw [isNumberChar, Bool.or_eq_true, List.contains_iff_mem]
  rcases List.mem_append.1 hMem with hBlank | hRest
  · exact .inl (hBlanks c hBlank)
  · rcases List.mem_append.1 hRest with hChar | hBlank
    · exact .inr (hNumber.subset (List.mem_map_of_mem hChar))
    · exact .inl (hTrail c hBlank)

/-- A text in lower case is read as the text is, with capital letters as small ones. -/
theorem readInteger?_toLower_iff :
    readInteger? radix.base (text.map Char.toLower) = some value ↔
      ∃ blanks number trail, text = blanks ++ (number ++ trail) ∧
        (∀ c ∈ blanks, isIntegerBlank c = true) ∧ Signed radix (number.map plain) value ∧
        ∀ c ∈ trail, isIntegerBlank c = true := by
  have hBlank (cs : List Char) : (∀ c ∈ cs.map Char.toLower, isIntegerBlank c = true) ↔
      ∀ c ∈ cs, isIntegerBlank c = true := by
    simp [isIntegerBlank_toLower]
  have hPlain (cs : List Char) : (cs.map Char.toLower).map asciiDigit = cs.map plain :=
    List.map_map
  rw [readInteger?_eq_some_iff]
  constructor
  · rintro ⟨_, _, _, hText, hBlanks, hNumber, hTrail⟩
    obtain ⟨blanks, _, rfl, rfl, hRest⟩ := List.map_eq_append_iff.1 hText
    obtain ⟨number, trail, rfl, rfl, rfl⟩ := List.map_eq_append_iff.1 hRest
    exact ⟨blanks, number, trail, rfl, (hBlank _).1 hBlanks, hPlain number ▸ hNumber,
      (hBlank _).1 hTrail⟩
  · rintro ⟨blanks, number, trail, rfl, hBlanks, hNumber, hTrail⟩
    refine ⟨blanks.map Char.toLower, number.map Char.toLower, trail.map Char.toLower, ?_,
      (hBlank _).2 hBlanks, ?_, (hBlank _).2 hTrail⟩
    · rw [List.map_append, List.map_append]
    · rw [hPlain]
      exact hNumber

end

/-! ## Trimming -/

theorem trim_ofList (cs : List Char) :
    trim (String.ofList cs) = String.ofList (trimBy isBlank cs) := by
  rw [trim, String.toList_ofList]

/-- Nothing that is trimmed off stands at the end. -/
theorem trimBy_append {p : Char → Bool} {cs front back : List Char}
    (h : trimBy p cs = front ++ back) (hBack : ∀ c ∈ back, p c = true) : back = [] := by
  rcases List.eq_nil_or_concat back with rfl | ⟨init, c, rfl⟩
  · rfl
  · have hStart : (cs.dropWhile p).reverse.dropWhile p = c :: (front ++ init).reverse := by
      have hTrim : ((cs.dropWhile p).reverse.dropWhile p).reverse = front ++ init.concat c := h
      rw [← List.reverse_reverse (List.dropWhile _ _), hTrim]
      simp
    have hFirst := List.head?_dropWhile_not p (cs.dropWhile p).reverse
    rw [hStart] at hFirst
    have hLast : p c = false := hFirst
    rw [hBack c (by simp)] at hLast
    cases hLast

theorem trimBy_eq_self {p : Char → Bool} {cs : List Char} (h : ∀ c ∈ cs, p c = false) :
    trimBy p cs = cs := by
  have hDrop (cs : List Char) (h : ∀ c ∈ cs, p c = false) : cs.dropWhile p = cs := by
    cases cs with
    | nil => rfl
    | cons c cs => exact List.dropWhile_cons_of_neg (ne_true_of_eq_false (h c List.mem_cons_self))
  rw [trimBy, hDrop cs h, hDrop _ (by simpa using h), List.reverse_reverse]

end Lr35902.Text

namespace Lr35902.Define
open Text

/-! ## Values -/

/-- The notation that a mark names, and what follows the mark. -/
def cut : List Char → Radix × List Char
  | '$' :: rest | '0' :: 'x' :: rest | '0' :: 'X' :: rest => (.hexadecimal, rest)
  | '0' :: 'b' :: rest | '0' :: 'B' :: rest => (.binary, rest)
  | text => (.decimal, text)

/-- The marks of the notations. -/
def marks : Radix → List String
  | .hexadecimal => ["$", "0x", "0X"]
  | .binary => ["0b", "0B"]
  | .decimal => [""]
  | .octal => []

/-- The documented values: digits after a mark. -/
def Documented (text : List Char) (value : Int) : Prop :=
  ∃ radix, ∃ mark ∈ marks radix, ∃ digits, text = mark.toList ++ digits ∧ digits ≠ [] ∧
    digits ⊆ radix.digitChars ∧ value = (positional radix.base digits : Nat)

/-- The values that are taken: a number after the mark, with or without blanks before it. -/
def Typed (text : List Char) (value : Int) : Prop :=
  ∃ blanks number, (cut text).2 = blanks ++ number ∧ (∀ c ∈ blanks, isIntegerBlank c = true) ∧
    Signed (cut text).1 (number.map plain) value

section
variable {text : List Char} {value : Int}

theorem toLower_marks (c : Char) :
    (c.toLower = '$' → c = '$') ∧ (c.toLower = '0' → c = '0') ∧
      (c.toLower = 'x' → c = 'x' ∨ c = 'X') ∧ (c.toLower = 'b' → c = 'b' ∨ c = 'B') := by
  rcases toLower_cases c with hSame | ⟨hLetter, hLower⟩
  · rw [hSame]
    exact ⟨id, id, .inl, .inl⟩
  · -- the code of a capital letter follows from that of its small letter
    have hCode (small : Char) (h : c.toLower = small) : c = Char.ofNat (small.toNat - 0x20) := by
      rw [← h, hLower, Nat.add_sub_cancel, Char.ofNat_toNat]
    refine ⟨fun h => ?_, fun h => ?_, fun h => .inr (hCode 'x' h), fun h => .inr (hCode 'b' h)⟩
    · rw [hCode '$' h] at hLetter
      exact absurd hLetter (by decide)
    · rw [hCode '0' h] at hLetter
      exact absurd hLetter (by decide)

theorem exists_mark (text : List Char) :
    ∃ mark ∈ marks (cut text).1, text = mark.toList ++ (cut text).2 := by
  unfold cut
  split
  · exact ⟨"$", by simp [marks], rfl⟩
  · exact ⟨"0x", by simp [marks], rfl⟩
  · exact ⟨"0X", by simp [marks], rfl⟩
  · exact ⟨"0b", by simp [marks], rfl⟩
  · exact ⟨"0B", by simp [marks], rfl⟩
  · exact ⟨"", by simp [marks], rfl⟩

/-- The mark of a text is that of its lower case. -/
theorem value?_eq {text : String}
    (h : (lower (trim text)).toList = (trimBy isBlank text.toList).map Char.toLower) :
    value? text =
      readInteger? (cut (trimBy isBlank text.toList)).1.base
        ((cut (trimBy isBlank text.toList)).2.map Char.toLower) := by
  unfold value?
  rw [h]
  generalize trimBy isBlank text.toList = word
  split
  · next digits hWord =>
    obtain ⟨c, rest, rfl, hFirst, rfl⟩ := List.map_eq_cons_iff.1 hWord
    rw [(toLower_marks c).1 hFirst]
    rfl
  · next digits hWord =>
    obtain ⟨c, _, rfl, hFirst, hMore⟩ := List.map_eq_cons_iff.1 hWord
    obtain ⟨d, rest, rfl, hSecond, rfl⟩ := List.map_eq_cons_iff.1 hMore
    rw [(toLower_marks c).2.1 hFirst]
    rcases (toLower_marks d).2.2.1 hSecond with rfl | rfl <;> rfl
  · next digits hWord =>
    obtain ⟨c, _, rfl, hFirst, hMore⟩ := List.map_eq_cons_iff.1 hWord
    obtain ⟨d, rest, rfl, hSecond, rfl⟩ := List.map_eq_cons_iff.1 hMore
    rw [(toLower_marks c).2.1 hFirst]
    rcases (toLower_marks d).2.2.2 hSecond with rfl | rfl <;> rfl
  · next hDollar hHexadecimal hBinary =>
    have hCut : cut word = (.decimal, word) := by
      unfold cut
      split
      · exact absurd rfl (hDollar _)
      · exact absurd rfl (hHexadecimal _)
      · exact absurd rfl (hHexadecimal _)
      · exact absurd rfl (hBinary _)
      · exact absurd rfl (hBinary _)
      · rfl
    rw [hCut]
    rfl

theorem isNumberChar_of_value? {text : String} (h : value? text = some value) :
    ∀ c ∈ (lower (trim text)).toList, isNumberChar c = true := by
  have hMark : ∀ c ∈ "$0xb".toList, isNumberChar c = true :=
    List.all_iff_forall_prop.1 (by decide)
  unfold value? at h
  split at h
  · next digits hText =>
    have hDigits := @isNumberChar_of_readInteger? .hexadecimal _ _ h
    rw [hText]
    exact List.forall_mem_cons.2 ⟨hMark '$' (by decide), hDigits⟩
  · next digits hText =>
    have hDigits := @isNumberChar_of_readInteger? .hexadecimal _ _ h
    rw [hText]
    exact List.forall_mem_cons.2 ⟨hMark '0' (by decide),
      List.forall_mem_cons.2 ⟨hMark 'x' (by decide), hDigits⟩⟩
  · next digits hText =>
    have hDigits := @isNumberChar_of_readInteger? .binary _ _ h
    rw [hText]
    exact List.forall_mem_cons.2 ⟨hMark '0' (by decide),
      List.forall_mem_cons.2 ⟨hMark 'b' (by decide), hDigits⟩⟩
  · exact @isNumberChar_of_readInteger? .decimal _ _ h

theorem Typed.isNumberChar (h : Typed text value) :
    ∀ c ∈ text, isNumberChar c.toLower = true := by
  obtain ⟨blanks, number, hRest, hBlanks, hNumber⟩ := h
  obtain ⟨mark, hMark, hText⟩ := exists_mark text
  have hMarks : ∀ mark ∈ marks (cut text).1,
      (mark.toList.all fun c => Text.isNumberChar c.toLower) = true := by
    cases (cut text).1 <;> decide
  rw [hText, hRest]
  intro c hMem
  rcases List.mem_append.1 hMem with hInMark | hMore
  · exact List.all_eq_true.1 (hMarks mark hMark) c hInMark
  rw [Text.isNumberChar, Bool.or_eq_true, List.contains_iff_mem, isIntegerBlank_toLower]
  rcases List.mem_append.1 hMore with hBlank | hChar
  · exact .inl (hBlanks c hBlank)
  · exact .inr (hNumber.subset (List.mem_map_of_mem hChar))

theorem value?_eq_some_iff {text : String} :
    value? text = some value ↔ Typed (trimBy isBlank text.toList) value := by
  have hLower : (lower (trim text)).toList = lowerFrom [] (trimBy isBlank text.toList) := by
    rw [lower, trim, String.toList_ofList, String.toList_ofList]
  constructor
  · intro h
    -- all that is read can stand in a number, so lower case acts on ASCII letters alone
    have hChars := isNumberChar_of_value? h
    rw [hLower] at hChars
    rw [value?_eq (hLower.trans (lowerFrom_eq_map (.inl hChars)))] at h
    obtain ⟨blanks, number, trail, hText, hBlanks, hNumber, hTrail⟩ := readInteger?_toLower_iff.1 h
    -- and no blank is left at the end of a trimmed text
    obtain ⟨mark, -, hWord⟩ := exists_mark (trimBy isBlank text.toList)
    rw [hText, ← List.append_assoc, ← List.append_assoc] at hWord
    obtain rfl := trimBy_append hWord fun c hMem => isBlank_of_isIntegerBlank (hTrail c hMem)
    rw [List.append_nil] at hText
    exact ⟨blanks, number, hText, hBlanks, hNumber⟩
  · intro h
    rw [value?_eq (hLower.trans (lowerFrom_eq_map (.inr h.isNumberChar)))]
    obtain ⟨blanks, number, hText, hBlanks, hNumber⟩ := h
    exact readInteger?_toLower_iff.2
      ⟨blanks, number, [], by rw [hText, List.append_nil], hBlanks, hNumber, List.forall_mem_nil _⟩

/-! ## Documented values -/

theorem cut_digits (h : text ⊆ Radix.decimal.digitChars) : cut text = (.decimal, text) := by
  have hNot : ∀ c ∈ "$xXbB".toList, c ∉ Radix.decimal.digitChars :=
    List.all_iff_forall_prop.1 (by decide)
  have hLetters : ∀ c ∈ "$xXbB".toList, c ∉ text := by
    intro c hLetter hMem
    exact hNot c hLetter (h hMem)
  unfold cut
  split
  · exact absurd List.mem_cons_self (hLetters '$' (by decide))
  · exact absurd (by simp) (hLetters 'x' (by decide))
  · exact absurd (by simp) (hLetters 'X' (by decide))
  · exact absurd (by simp) (hLetters 'b' (by decide))
  · exact absurd (by simp) (hLetters 'B' (by decide))
  · rfl

theorem cut_mark {radix : Radix} {mark : String} {digits : List Char} (hMark : mark ∈ marks radix)
    (hDigits : digits ⊆ radix.digitChars) : cut (mark.toList ++ digits) = (radix, digits) := by
  cases radix with
  | hexadecimal =>
    simp only [marks, List.mem_cons, List.not_mem_nil, or_false] at hMark
    rcases hMark with rfl | rfl | rfl <;> rfl
  | binary =>
    simp only [marks, List.mem_cons, List.not_mem_nil, or_false] at hMark
    rcases hMark with rfl | rfl <;> rfl
  | octal => cases hMark
  | decimal =>
    obtain rfl := List.mem_singleton.1 hMark
    exact cut_digits hDigits

/-- The digits of a documented value are all that follows its mark. -/
theorem documented_iff :
    Documented text value ↔ (cut text).2 ≠ [] ∧ (cut text).2 ⊆ (cut text).1.digitChars ∧
      value = (positional (cut text).1.base (cut text).2 : Nat) := by
  constructor
  · rintro ⟨radix, mark, hMark, digits, rfl, hSome, hDigits, rfl⟩
    rw [cut_mark hMark hDigits]
    exact ⟨hSome, hDigits, rfl⟩
  · rintro ⟨hSome, hDigits, rfl⟩
    obtain ⟨mark, hMark, hText⟩ := exists_mark text
    exact ⟨_, mark, hMark, _, hText, hSome, hDigits, rfl⟩

/-- Digits after a mark are taken as documented, as long as they are not too many. -/
theorem typed_iff_of_digits (h : (cut text).2 ⊆ (cut text).1.digitChars) :
    Typed text value ↔ Documented text value ∧
      ((cut text).1 = .decimal → (cut text).2.length ≤ decimalLimit) := by
  have hBlankless : ∀ blanks number, (cut text).2 = blanks ++ number →
      (∀ c ∈ blanks, isIntegerBlank c = true) → blanks = [] := by
    intro blanks number hRest hBlanks
    apply List.eq_nil_iff_forall_not_mem.2
    intro c hMem
    have hDigit : c ∈ (cut text).1.digitChars := h (hRest ▸ List.mem_append_left number hMem)
    exact not_mem_of_isIntegerBlank (hBlanks c hMem) (digitChars_subset _ hDigit)
  rw [documented_iff]
  constructor
  · rintro ⟨blanks, number, hRest, hBlanks, hNumber⟩
    obtain rfl := hBlankless blanks number hRest hBlanks
    rw [List.nil_append] at hRest
    rw [← hRest, signed_plain_iff h] at hNumber
    obtain ⟨hSome, hLength, hValue⟩ := hNumber
    exact ⟨⟨hSome, h, hValue⟩, hLength⟩
  · rintro ⟨⟨hSome, -, hValue⟩, hLength⟩
    exact ⟨[], _, rfl, List.forall_mem_nil _, (signed_plain_iff h).2 ⟨hSome, hLength, hValue⟩⟩

end

/-! ## Predefinitions -/

/-- The predefinitions with their name and value, if the text of a value says which it is: a name
alone, or a name, the first equals sign and a value. -/
inductive Reads (Value : List Char → Int → Prop) : List Char → String → Int → Prop where
  | alone {text : List Char} (hAlone : '=' ∉ text) (hName : trimBy isBlank text ≠ []) :
      Reads Value text (String.ofList (trimBy isBlank text)) 1
  | valued {before after : List Char} {value : Int} (hFirst : '=' ∉ before)
      (hName : trimBy isBlank before ≠ []) (hValue : Value (trimBy isBlank after) value)
      (hRange : 0 ≤ value ∧ value ≤ maxAddress) :
      Reads Value (before ++ '=' :: after) (String.ofList (trimBy isBlank before)) value

/-- The texts that are refused, and why: the name is blank, what stands in place of the value is
none, or the value is not one of 16 bits. -/
inductive Refuses (text : String) : DefineError → Prop where
  | nameless (hBlank : trimBy isBlank (text.toList.takeWhile (· != '=')) = []) :
      Refuses text (.missingName text)
  | invalid {before after : List Char} (hText : text.toList = before ++ '=' :: after)
      (hFirst : '=' ∉ before) (hName : trimBy isBlank before ≠ [])
      (hNone : ∀ value, ¬Typed (trimBy isBlank after) value) : Refuses text (.invalidValue text)
  | wide {before after : List Char} {value : Int} (hText : text.toList = before ++ '=' :: after)
      (hFirst : '=' ∉ before) (hName : trimBy isBlank before ≠ [])
      (hValue : Typed (trimBy isBlank after) value)
      (hRange : ¬(0 ≤ value ∧ value ≤ maxAddress)) : Refuses text (.wideValue text)

section
variable {Value : List Char → Int → Prop} {text before after : List Char} {name : String}
  {value : Int}

theorem takeWhile_before (hFirst : '=' ∉ before) :
    (before ++ '=' :: after).takeWhile (· != '=') = before := by
  have hAll : ∀ c ∈ before, (c != '=') = true := by
    intro c hMem
    simpa using ne_of_mem_of_not_mem hMem hFirst
  rw [List.takeWhile_append_of_pos hAll, List.takeWhile_cons_of_neg (by simp), List.append_nil]

theorem takeWhile_alone (hAlone : '=' ∉ text) : text.takeWhile (· != '=') = text := by
  rw [List.takeWhile_eq_self_iff]
  intro c hMem
  simpa using ne_of_mem_of_not_mem hMem hAlone

/-- A text with an equals sign is cut at the first one. -/
theorem reads_valued_iff (hFirst : '=' ∉ before) :
    Reads Value (before ++ '=' :: after) name value ↔
      trimBy isBlank before ≠ [] ∧ name = String.ofList (trimBy isBlank before) ∧
        Value (trimBy isBlank after) value ∧ 0 ≤ value ∧ value ≤ maxAddress := by
  constructor
  · intro h
    generalize hText : before ++ '=' :: after = text at h
    cases h with
    | alone hAlone _ =>
      rw [← hText] at hAlone
      simp at hAlone
    | @valued before' after' _ hFirst' hName hValue hRange =>
      have hBefore := congrArg (List.takeWhile (· != '=')) hText
      rw [takeWhile_before hFirst, takeWhile_before hFirst'] at hBefore
      subst hBefore
      obtain ⟨-, rfl⟩ := List.cons.inj (List.append_cancel_left hText)
      exact ⟨hName, rfl, hValue, hRange⟩
  · rintro ⟨hName, rfl, hValue, hRange⟩
    exact .valued hFirst hName hValue hRange

theorem reads_alone_iff (hAlone : '=' ∉ text) :
    Reads Value text name value ↔
      trimBy isBlank text ≠ [] ∧ name = String.ofList (trimBy isBlank text) ∧ value = 1 := by
  constructor
  · intro h
    cases h with
    | alone _ hName => exact ⟨hName, rfl, rfl⟩
    | valued _ _ _ _ => simp at hAlone
  · rintro ⟨hName, rfl, rfl⟩
    exact .alone hAlone hName

theorem parse_alone {text : String} (hAlone : '=' ∉ text.toList) :
    parse text =
      if trimBy isBlank text.toList = [] then .error (.missingName text)
      else .ok (String.ofList (trimBy isBlank text.toList), 1) := by
  simp only [parse, takeWhile_alone hAlone, trim_ofList, String.isEmpty_iff,
    String.ofList_eq_empty_iff, List.drop_length]

theorem parse_valued {text : String} (hText : text.toList = before ++ '=' :: after)
    (hFirst : '=' ∉ before) :
    parse text =
      if trimBy isBlank before = [] then .error (.missingName text)
      else (value? (String.ofList after)).elim (.error (.invalidValue text)) fun value =>
        if 0 ≤ value ∧ value ≤ maxAddress then .ok (String.ofList (trimBy isBlank before), value)
        else .error (.wideValue text) := by
  simp only [parse, hText, takeWhile_before hFirst, List.drop_left, trim_ofList,
    String.isEmpty_iff, String.ofList_eq_empty_iff]
  cases value? (String.ofList after) with
  | none => rfl
  | some value => rfl

theorem value?_ofList :
    value? (String.ofList after) = some value ↔ Typed (trimBy isBlank after) value := by
  rw [value?_eq_some_iff, String.toList_ofList]

/-- A predefinition is read as its grammar says, with the values that are taken. -/
theorem parse_eq_ok_iff {text : String} :
    parse text = .ok (name, value) ↔ Reads Typed text.toList name value := by
  by_cases hEquals : '=' ∈ text.toList
  · obtain ⟨before, after, hText, hFirst⟩ := List.eq_append_cons_of_mem hEquals
    rw [parse_valued hText hFirst, hText, reads_valued_iff hFirst, ← value?_ofList]
    by_cases hName : trimBy isBlank before = []
    · simp [hName]
    · rw [if_neg hName]
      cases value? (String.ofList after) with
      | none => simp
      | some found =>
        rw [Option.elim_some]
        by_cases hRange : 0 ≤ found ∧ found ≤ maxAddress
        · rw [if_pos hRange]
          constructor
          · intro h
            cases h
            exact ⟨hName, rfl, rfl, hRange⟩
          · rintro ⟨-, rfl, hFound, -⟩
            rw [Option.some.inj hFound]
        · rw [if_neg hRange]
          constructor
          · intro h
            cases h
          · rintro ⟨-, -, hFound, hWithin⟩
            rw [Option.some.inj hFound] at hRange
            exact absurd hWithin hRange
  · rw [parse_alone hEquals, reads_alone_iff hEquals]
    by_cases hName : trimBy isBlank text.toList = []
    · simp [hName]
    · rw [if_neg hName]
      simp [hName, eq_comm]

/-- A text is refused for the first thing that is wrong with it. -/
theorem parse_eq_error_iff {text : String} {error : DefineError} :
    parse text = .error error ↔ Refuses text error := by
  constructor
  · intro h
    by_cases hEquals : '=' ∈ text.toList
    · obtain ⟨before, after, hText, hFirst⟩ := List.eq_append_cons_of_mem hEquals
      rw [parse_valued hText hFirst] at h
      by_cases hName : trimBy isBlank before = []
      · rw [if_pos hName] at h
        cases h
        exact .nameless (by rw [hText, takeWhile_before hFirst, hName])
      · rw [if_neg hName] at h
        cases hFound : value? (String.ofList after) with
        | none =>
          rw [hFound] at h
          cases h
          refine .invalid hText hFirst hName ?_
          intro value hValue
          rw [value?_ofList.2 hValue] at hFound
          cases hFound
        | some value =>
          rw [hFound, Option.elim_some] at h
          split at h
          · cases h
          · next hRange =>
            cases h
            exact .wide hText hFirst hName (value?_ofList.1 hFound) hRange
    · rw [parse_alone hEquals] at h
      split at h
      · next hName =>
        cases h
        exact .nameless (by rw [takeWhile_alone hEquals, hName])
      · cases h
  · intro h
    cases h with
    | nameless hBlank =>
      by_cases hEquals : '=' ∈ text.toList
      · obtain ⟨before, after, hText, hFirst⟩ := List.eq_append_cons_of_mem hEquals
        rw [hText, takeWhile_before hFirst] at hBlank
        rw [parse_valued hText hFirst, if_pos hBlank]
      · rw [takeWhile_alone hEquals] at hBlank
        rw [parse_alone hEquals, if_pos hBlank]
    | @invalid before after hText hFirst hName hNone =>
      have hFound : value? (String.ofList after) = none := by
        apply Option.eq_none_iff_forall_ne_some.2
        intro value hValue
        exact hNone value (value?_ofList.1 hValue)
      rw [parse_valued hText hFirst, if_neg hName, hFound]
      rfl
    | @wide before after value hText hFirst hName hValue hRange =>
      rw [parse_valued hText hFirst, if_neg hName, value?_ofList.2 hValue, Option.elim_some,
        if_neg hRange]

/-! ## The documented grammar -/

/-- A value that is taken without being documented: more than digits follows its mark. -/
def Loose (text : List Char) : Prop :=
  ∃ value, Typed text value ∧ 0 ≤ value ∧ value ≤ maxAddress ∧
    ¬(cut text).2 ⊆ (cut text).1.digitChars

/-- A documented value that is refused: decimal digits, most of them zeros, but too many. -/
def Overlong (text : List Char) : Prop :=
  text ⊆ Radix.decimal.digitChars ∧ decimalLimit < text.length ∧
    (positional 10 text : Int) ≤ maxAddress

/-- Where what is taken departs from what is documented. -/
def Departs (text : List Char) : Prop :=
  ∃ before after, text = before ++ '=' :: after ∧ '=' ∉ before ∧ trimBy isBlank before ≠ [] ∧
    (Loose (trimBy isBlank after) ∨ Overlong (trimBy isBlank after))

theorem cut_decimal (h : (cut text).1 = .decimal) : (cut text).2 = text := by
  obtain ⟨mark, hMark, hText⟩ := exists_mark text
  rw [h] at hMark
  obtain rfl := List.mem_singleton.1 hMark
  exact hText.symm

/-- The values of 16 bits that are taken are the documented ones, up to the two exceptions. -/
theorem typed_iff_documented_iff :
    (∀ value, 0 ≤ value ∧ value ≤ maxAddress → (Typed text value ↔ Documented text value)) ↔
      ¬(Loose text ∨ Overlong text) := by
  constructor
  · -- each exception is a value that is taken or documented, but not both
    rintro hSame (⟨value, hTyped, hLow, hHigh, hMore⟩ | ⟨hDigits, hLong, hSmall⟩)
    · have hDocumented := (hSame value ⟨hLow, hHigh⟩).1 hTyped
      exact hMore (documented_iff.1 hDocumented).2.1
    · have hCut := cut_digits hDigits
      have hSome : text ≠ [] := List.ne_nil_of_length_pos (Nat.zero_lt_of_lt hLong)
      have hDocumented : Documented text (positional 10 text : Nat) := by
        rw [documented_iff, hCut]
        exact ⟨hSome, hDigits, rfl⟩
      have hTyped := (hSame _ ⟨Int.natCast_nonneg _, hSmall⟩).2 hDocumented
      rw [typed_iff_of_digits (by rw [hCut]; exact hDigits), hCut] at hTyped
      exact Nat.not_le.2 hLong (hTyped.2 rfl)
  · intro hNot value hRange
    by_cases hDigits : (cut text).2 ⊆ (cut text).1.digitChars
    · rw [typed_iff_of_digits hDigits]
      refine ⟨And.left, fun hDocumented => ⟨hDocumented, fun hDecimal => ?_⟩⟩
      apply Nat.not_lt.1
      intro hLong
      obtain ⟨-, -, rfl⟩ := documented_iff.1 hDocumented
      rw [cut_decimal hDecimal, hDecimal] at hDigits hRange
      rw [cut_decimal hDecimal] at hLong
      exact hNot (.inr ⟨hDigits, hLong, hRange.2⟩)
    · constructor
      · intro hTyped
        exact absurd (.inl ⟨value, hTyped, hRange.1, hRange.2, hDigits⟩) hNot
      · intro hDocumented
        exact absurd (documented_iff.1 hDocumented).2.1 hDigits

theorem reads_iff_documented_iff :
    (∀ name value, Reads Typed text name value ↔ Reads Documented text name value) ↔
      ¬Departs text := by
  constructor
  · rintro hSame ⟨before, after, rfl, hFirst, hName, hExcept⟩
    apply typed_iff_documented_iff.1 ?_ hExcept
    intro value hRange
    simpa [reads_valued_iff hFirst, hName, hRange] using
      hSame (String.ofList (trimBy isBlank before)) value
  · intro hNot name value
    by_cases hEquals : '=' ∈ text
    · obtain ⟨before, after, rfl, hFirst⟩ := List.eq_append_cons_of_mem hEquals
      rw [reads_valued_iff hFirst, reads_valued_iff hFirst]
      refine and_congr_right fun hName => and_congr_right fun _ => and_congr_left fun hRange => ?_
      refine typed_iff_documented_iff.2 (fun hExcept => ?_) value hRange
      exact hNot ⟨before, after, rfl, hFirst, hName, hExcept⟩
    · rw [reads_alone_iff hEquals, reads_alone_iff hEquals]

end

/-- A predefinition is taken exactly if it is a name alone, which stands for one, or a name and a
value that is a number of 16 bits, typed in any way; any other text is refused for what is wrong
with it. What is taken are the documented predefinitions, but for those with more than digits after
the mark of their value, and those with too many zeros. -/
theorem parse_accepts (text : String) :
    (∀ name value, parse text = .ok (name, value) ↔ Reads Typed text.toList name value) ∧
      (∀ error, parse text = .error error ↔ Refuses text error) ∧
      ((∀ name value, parse text = .ok (name, value) ↔ Reads Documented text.toList name value) ↔
        ¬Departs text.toList) := by
  refine ⟨fun name value => parse_eq_ok_iff, fun error => parse_eq_error_iff, ?_⟩
  simp only [parse_eq_ok_iff]
  exact reads_iff_documented_iff

theorem positional_zeros (base n : Nat) : positional base (List.replicate n '0') = 0 := by
  induction n with
  | zero => rfl
  | succ n ih =>
    have hRank : digitRank '0' = 0 := by decide
    rw [List.replicate_succ, positional, ih, hRank, Nat.zero_mul]

/-- A second mark is taken, and a value of too many zeros is refused. -/
theorem parse_departs :
    (parse "X=0x0x10" = .ok ("X", 16) ∧
        ¬∃ name value, Reads Documented "X=0x0x10".toList name value) ∧
      Reads Documented ("X=".toList ++ List.replicate (decimalLimit + 1) '0') "X" 0 ∧
        ¬∃ name value,
          parse (String.ofList ("X=".toList ++ List.replicate (decimalLimit + 1) '0')) =
            .ok (name, value) := by
  have hFirst : '=' ∉ "X".toList := by decide
  refine ⟨⟨by decide +kernel, ?_⟩, ?_⟩
  · rintro ⟨name, value, h⟩
    have hValue := ((reads_valued_iff hFirst).1 h).2.2.1
    have hNot : ¬(cut (trimBy isBlank "0x0x10".toList)).2 ⊆ Radix.hexadecimal.digitChars := by
      decide
    exact hNot (documented_iff.1 hValue).2.1
  · have hDigits : List.replicate (decimalLimit + 1) '0' ⊆ Radix.decimal.digitChars := by
      intro c hMem
      rw [(List.mem_replicate.1 hMem).2]
      decide
    have hTrim : trimBy isBlank (List.replicate (decimalLimit + 1) '0') =
        List.replicate (decimalLimit + 1) '0' := by
      apply trimBy_eq_self
      intro c hMem
      rw [(List.mem_replicate.1 hMem).2]
      decide
    have hCut := cut_digits hDigits
    have hText : "X=".toList ++ List.replicate (decimalLimit + 1) '0' =
        "X".toList ++ '=' :: List.replicate (decimalLimit + 1) '0' := rfl
    rw [hText]
    constructor
    · refine (reads_valued_iff hFirst).2 ⟨by decide, by decide, ?_, by decide⟩
      rw [hTrim, documented_iff, hCut, positional_zeros]
      exact ⟨by simp, hDigits, rfl⟩
    · rintro ⟨name, value, h⟩
      rw [parse_eq_ok_iff, String.toList_ofList] at h
      have hTyped := ((reads_valued_iff hFirst).1 h).2.2.1
      rw [hTrim, typed_iff_of_digits (by rw [hCut]; exact hDigits), hCut, List.length_replicate]
        at hTyped
      exact Nat.not_succ_le_self _ (hTyped.2 rfl)

end Lr35902.Define
