import Lr35902.Proofs.LiteralGrammar
import Lr35902.Text.Integer

/-!
The grammar of typed integers. `Grouped` says how digits may be grouped, `Unsigned` what may stand
before them, and `Signed` adds the sign; they say so of a text whose digits are all ASCII. A text is
read as an integer exactly if it is one of these, with digits of any script and with blanks around
it (`readInteger?_eq_some_iff`).
-/
namespace Lr35902.Text

/-- Digits of a notation with single underscores between them, and the digits alone. -/
inductive Grouped (radix : Radix) : List Char → List Char → Prop where
  | last {c : Char} (hDigit : c ∈ radix.digitChars) : Grouped radix [c] [c]
  | next {c : Char} {text digits : List Char} (hDigit : c ∈ radix.digitChars)
      (hMore : Grouped radix text digits) : Grouped radix (c :: text) (c :: digits)
  | apart {c : Char} {text digits : List Char} (hDigit : c ∈ radix.digitChars)
      (hMore : Grouped radix text digits) : Grouped radix (c :: '_' :: text) (c :: digits)

/-- The letters of a notation's mark, which is a zero and one of them. -/
def markLetters : Radix → List Char
  | .hexadecimal => ['x', 'X']
  | .binary => ['b', 'B']
  | .octal | .decimal => []

/-- A text, and what follows its mark. There may be an underscore between them, and no mark. -/
inductive Marked (radix : Radix) : List Char → List Char → Prop where
  | bare {text : List Char} : Marked radix text text
  | mark {letter : Char} {text : List Char} (hLetter : letter ∈ markLetters radix) :
      Marked radix ('0' :: letter :: text) text
  | apart {letter : Char} {text : List Char} (hLetter : letter ∈ markLetters radix) :
      Marked radix ('0' :: letter :: '_' :: text) text

/-- A number without a sign. In decimal notation its digits are not too many. -/
def Unsigned (radix : Radix) (text : List Char) (value : Nat) : Prop :=
  ∃ group digits, Marked radix text group ∧ Grouped radix group digits ∧
    (radix = .decimal → digits.length ≤ decimalLimit) ∧ value = positional radix.base digits

/-- A number with a sign or without one. -/
inductive Signed (radix : Radix) : List Char → Int → Prop where
  | bare {text : List Char} {value : Nat} (h : Unsigned radix text value) : Signed radix text value
  | plus {text : List Char} {value : Nat} (h : Unsigned radix text value) :
      Signed radix ('+' :: text) value
  | minus {text : List Char} {value : Nat} (h : Unsigned radix text value) :
      Signed radix ('-' :: text) (-value)

/-! ## Groups of digits -/

section
variable {radix : Radix} {text digits : List Char} {c : Char}

theorem digit_ne_underscore (h : c ∈ radix.digitChars) : c ≠ '_' := by
  have hAll : ∀ c ∈ radix.digitChars, c ≠ '_' := by
    cases radix <;> exact List.all_iff_forall_prop.1 (by decide)
  exact hAll c h

theorem Grouped.mem (h : Grouped radix text digits) :
    ∀ c ∈ text, c ∈ radix.digitChars ∨ c = '_' := by
  induction h with
  | last hDigit => simp [hDigit]
  | next hDigit _ ih => simpa [hDigit] using ih
  | apart hDigit _ ih => simpa [hDigit] using ih

theorem Grouped.head? (h : Grouped radix text digits) :
    ∃ c rest, text = c :: rest ∧ c ∈ radix.digitChars := by
  cases h with
  | last hDigit => exact ⟨_, _, rfl, hDigit⟩
  | next hDigit _ => exact ⟨_, _, rfl, hDigit⟩
  | apart hDigit _ => exact ⟨_, _, rfl, hDigit⟩

/-- The digits are what is left without the underscores. -/
theorem Grouped.filter_eq (h : Grouped radix text digits) : text.filter (· != '_') = digits := by
  induction h with
  | last hDigit => simp [digit_ne_underscore hDigit]
  | next hDigit _ ih => simp [digit_ne_underscore hDigit, ih]
  | apart hDigit _ ih => simp [digit_ne_underscore hDigit, ih]

theorem Grouped.subset (h : Grouped radix text digits) : digits ⊆ radix.digitChars := by
  induction h with
  | last hDigit => simpa using hDigit
  | next hDigit _ ih => exact List.cons_subset.2 ⟨hDigit, ih⟩
  | apart hDigit _ ih => exact List.cons_subset.2 ⟨hDigit, ih⟩

theorem Grouped.ne_nil (h : Grouped radix text digits) : digits ≠ [] := by
  cases h with
  | last _ => exact List.cons_ne_nil _ _
  | next _ _ => exact List.cons_ne_nil _ _
  | apart _ _ => exact List.cons_ne_nil _ _

theorem underscoresApart_cons (h : c ≠ '_' ∨ text.head?.any (· != '_') = true) :
    underscoresApart (c :: text) = underscoresApart text := by
  rw [underscoresApart]
  · rintro rfl rfl
    simp at h
  · rintro tail rfl rfl
    simp at h

theorem Grouped.underscoresApart (h : Grouped radix text digits) :
    underscoresApart text = true := by
  induction h with
  | last hDigit => rw [underscoresApart_cons (.inl (digit_ne_underscore hDigit))]; rfl
  | next hDigit _ ih => rw [underscoresApart_cons (.inl (digit_ne_underscore hDigit)), ih]
  | apart hDigit hMore ih =>
    obtain ⟨d, rest, rfl, hNext⟩ := hMore.head?
    have hApart : (d :: rest).head?.any (· != '_') = true := by
      simpa using digit_ne_underscore hNext
    rw [underscoresApart_cons (.inl (digit_ne_underscore hDigit)),
      underscoresApart_cons (.inr hApart), ih]

/-- Digits and underscores after a digit are grouped, if the underscores stand only between
digits. -/
theorem grouped_of_underscoresApart (hDigit : c ∈ radix.digitChars)
    (hRun : ∀ d ∈ text, d ∈ radix.digitChars ∨ d = '_') (h : Text.underscoresApart text = true) :
    Grouped radix (c :: text) (c :: text.filter (· != '_')) := by
  induction text generalizing c with
  | nil => exact .last hDigit
  | cons d rest ih =>
    obtain ⟨hFirst, hRest⟩ := List.forall_mem_cons.1 hRun
    by_cases hUnderscore : d = '_'
    · subst hUnderscore
      cases rest with
      | nil => cases h
      | cons e more =>
        have hNext : e ≠ '_' := by
          rintro rfl
          cases h
        rw [underscoresApart_cons (.inr (by simpa using hNext))] at h
        -- the underscore goes between `c` and the group that follows `c` without it
        have hGroup := ih hDigit hRest h
        have hSame : ('_' :: e :: more).filter (· != '_') = (e :: more).filter (· != '_') := rfl
        rw [hSame]
        cases hGroup with
        | next _ hMore => exact .apart hDigit hMore
        | apart _ _ => exact absurd rfl hNext
    · rw [underscoresApart_cons (.inl hUnderscore)] at h
      have hKept : (d :: rest).filter (· != '_') = d :: rest.filter (· != '_') := by
        simp [hUnderscore]
      rw [hKept]
      have hNext := hFirst.resolve_right hUnderscore
      exact .next hDigit (ih hNext hRest h)

end

/-! ## Characters of numbers -/

/-- The characters that numbers are typed with, as far as they are ASCII. -/
def numberChars : List Char := "$+-_xX0123456789abcdefABCDEF".toList

theorem isIntegerBlank_of_mem {c : Char} (h : c ∈ numberChars) : isIntegerBlank c = false := by
  have hAll : ∀ c ∈ numberChars, isIntegerBlank c = false :=
    List.all_iff_forall_prop.1 (by decide)
  exact hAll c h

theorem not_mem_of_isIntegerBlank {c : Char} (h : isIntegerBlank c = true) : c ∉ numberChars := by
  intro hMem
  rw [isIntegerBlank_of_mem hMem] at h
  cases h

theorem digitChars_subset (radix : Radix) : radix.digitChars ⊆ numberChars := by
  cases radix <;> decide

section
variable {radix : Radix} {text digits : List Char} {value : Nat}

theorem Grouped.subset_numberChars (h : Grouped radix text digits) : text ⊆ numberChars := by
  intro c hMem
  rcases h.mem c hMem with hDigit | rfl
  · exact digitChars_subset radix hDigit
  · decide

theorem markLetters_subset (radix : Radix) : markLetters radix ⊆ numberChars := by
  cases radix <;> decide

theorem Unsigned.subset (h : Unsigned radix text value) : text ⊆ numberChars := by
  obtain ⟨group, _, hMarked, hGroup, -, -⟩ := h
  have hZero : '0' ∈ numberChars := by decide
  have hUnderscore : '_' ∈ numberChars := by decide
  cases hMarked with
  | bare => exact hGroup.subset_numberChars
  | mark hLetter =>
    simp [hZero, markLetters_subset radix hLetter, hGroup.subset_numberChars]
  | apart hLetter =>
    simp [hZero, hUnderscore, markLetters_subset radix hLetter, hGroup.subset_numberChars]

theorem Signed.subset {value : Int} (h : Signed radix text value) : text ⊆ numberChars := by
  cases h with
  | bare h => exact h.subset
  | plus h => exact List.cons_subset.2 ⟨by decide, h.subset⟩
  | minus h => exact List.cons_subset.2 ⟨by decide, h.subset⟩

end

/-! ## Reading -/

section
variable {radix : Radix} {text group digits trail : List Char} {value : Nat}

theorem mem_markLetters_iff {letter : Char} :
    letter ∈ markLetters radix ↔
      (radix.base = 16 ∧ (letter = 'x' ∨ letter = 'X')) ∨
        (radix.base = 2 ∧ (letter = 'b' ∨ letter = 'B')) := by
  cases radix <;> simp [markLetters, Radix.base]

theorem marked_afterPrefix (radix : Radix) (text : List Char) :
    Marked radix text (afterPrefix radix.base text) := by
  unfold afterPrefix
  split
  · next letter rest =>
    split
    · next hMark =>
      have hLetter := mem_markLetters_iff.2 hMark
      split
      · exact .apart hLetter
      · exact .mark hLetter
    · exact .bare
  · exact .bare

/-- A mark is taken off a group of digits, which has none in it. -/
theorem Marked.afterPrefix_eq (h : Marked radix text (group ++ trail))
    (hGroup : Grouped radix group digits) (hTrail : ∀ c ∈ trail, isIntegerBlank c = true) :
    afterPrefix radix.base text = group ++ trail := by
  cases h with
  | bare =>
    -- a letter of a mark after the first digit would be a digit or a blank
    unfold afterPrefix
    split
    · next letter rest hText =>
      rw [if_neg]
      intro hMark
      have hLetter := mem_markLetters_iff.2 hMark
      have hMem : letter ∈ group ++ trail := by simp [hText]
      rcases List.mem_append.1 hMem with hInGroup | hInTrail
      · have hLetters : ∀ c ∈ markLetters radix, ¬(c ∈ radix.digitChars ∨ c = '_') := by
          cases radix <;> exact List.all_iff_forall_prop.1 (by decide)
        exact hLetters letter hLetter (hGroup.mem letter hInGroup)
      · exact not_mem_of_isIntegerBlank (hTrail letter hInTrail) (markLetters_subset radix hLetter)
    · rfl
  | mark hLetter =>
    obtain ⟨c, rest, rfl, hFirst⟩ := hGroup.head?
    simp [afterPrefix, mem_markLetters_iff.1 hLetter, digit_ne_underscore hFirst]
  | apart hLetter => simp [afterPrefix, mem_markLetters_iff.1 hLetter]

theorem Marked.append (h : Marked radix text group) (trail : List Char) :
    Marked radix (text ++ trail) (group ++ trail) := by
  cases h with
  | bare => exact .bare
  | mark hLetter => exact .mark hLetter
  | apart hLetter => exact .apart hLetter

theorem Marked.of_append (h : Marked radix text (group ++ trail)) :
    ∃ number, text = number ++ trail ∧ Marked radix number group := by
  cases h with
  | bare => exact ⟨_, rfl, .bare⟩
  | mark hLetter => exact ⟨_, rfl, .mark hLetter⟩
  | apart hLetter => exact ⟨_, rfl, .apart hLetter⟩

theorem takes_iff {c : Char} :
    (c == '_' || decide (digitValue c < radix.base)) = true ↔ c ∈ radix.digitChars ∨ c = '_' := by
  rw [Bool.or_eq_true, beq_iff_eq, decide_eq_true_iff, digitValue_lt_base_iff, or_comm]

/-- The digits and underscores at the start of a group with blanks after it are the group. -/
theorem Grouped.takeWhile_eq (h : Grouped radix group digits)
    (hTrail : ∀ c ∈ trail, isIntegerBlank c = true) :
    (group ++ trail).takeWhile (fun c => c == '_' || decide (digitValue c < radix.base)) =
      group := by
  have hLeft : trail.takeWhile (fun c => c == '_' || decide (digitValue c < radix.base)) = [] := by
    cases trail with
    | nil => rfl
    | cons c trail =>
      apply List.takeWhile_cons_of_neg
      intro hTakes
      have hChar : c ∈ numberChars := by
        rcases takes_iff.1 hTakes with hDigit | rfl
        · exact digitChars_subset radix hDigit
        · decide
      exact not_mem_of_isIntegerBlank (hTrail c List.mem_cons_self) hChar
  rw [List.takeWhile_append_of_pos (fun c hMem => takes_iff.2 (h.mem c hMem)), hLeft,
    List.append_nil]

theorem grouped_of_run {run : List Char} (hRun : ∀ c ∈ run, c ∈ radix.digitChars ∨ c = '_')
    (hSome : run.filter (· != '_') ≠ []) (hFirst : run.head? ≠ some '_')
    (hApart : underscoresApart run = true) : Grouped radix run (run.filter (· != '_')) := by
  cases run with
  | nil => exact absurd rfl hSome
  | cons c rest =>
    have hNot : c ≠ '_' := by simpa using hFirst
    obtain ⟨hDigit, hRest⟩ := List.forall_mem_cons.1 hRun
    rw [underscoresApart_cons (.inl hNot)] at hApart
    rw [List.filter_cons_of_pos (by simpa using hNot)]
    exact grouped_of_underscoresApart (hDigit.resolve_right hNot) hRest hApart

/-- A text is read as an unsigned number exactly if it is one, with blanks after it. -/
theorem readUnsigned?_eq_some_iff :
    readUnsigned? radix.base text = some value ↔
      ∃ number trail, text = number ++ trail ∧ Unsigned radix number value ∧
        ∀ c ∈ trail, isIntegerBlank c = true := by
  have hBase : radix.base = 10 ↔ radix = .decimal := by cases radix <;> decide
  constructor
  · intro hRead
    have hMarked := marked_afterPrefix radix text
    simp only [readUnsigned?, Bool.or_eq_true, List.isEmpty_iff, beq_iff_eq, Bool.not_eq_true',
      Option.ite_none_left_eq_some, Option.ite_none_right_eq_some, Option.some.injEq, not_or,
      Bool.not_eq_false] at hRead
    -- the body is a run of digits and underscores, and a rest that has to be blank
    generalize afterPrefix radix.base text = body at hMarked hRead
    have hBody :=
      Scan.takeWhile_append_drop (fun c => c == '_' || decide (digitValue c < radix.base)) body
    have hRun : ∀ c ∈ body.takeWhile (fun c => c == '_' || decide (digitValue c < radix.base)),
        c ∈ radix.digitChars ∨ c = '_' :=
      fun c hMem => takes_iff.1 (List.all_eq_true.1 List.all_takeWhile c hMem)
    generalize body.takeWhile (fun c => c == '_' || decide (digitValue c < radix.base)) = run
      at hBody hRun hRead
    obtain ⟨⟨⟨hSome, hFirst⟩, hApart⟩, hLength, hTrail, rfl⟩ := hRead
    have hGroup := grouped_of_run hRun hSome hFirst hApart
    rw [← hBody] at hMarked
    obtain ⟨number, hNumber, hOwn⟩ := hMarked.of_append
    refine ⟨number, _, hNumber, ⟨_, _, hOwn, hGroup, ?_, valueOf_eq_positional hGroup.subset⟩,
      List.all_eq_true.1 hTrail⟩
    intro hDecimal
    exact Nat.not_lt.1 fun hLong => hLength ⟨hBase.2 hDecimal, hLong⟩
  · rintro ⟨number, trail, rfl, ⟨group, digits, hMarked, hGroup, hLength, rfl⟩, hTrail⟩
    have hAfter := (hMarked.append trail).afterPrefix_eq hGroup hTrail
    have hFirst : group.head? ≠ some '_' := by
      obtain ⟨c, rest, rfl, hDigit⟩ := hGroup.head?
      simpa using digit_ne_underscore hDigit
    have hFew : ¬(radix.base = 10 ∧ decimalLimit < digits.length) :=
      fun hMany => Nat.not_lt.2 (hLength (hBase.1 hMany.1)) hMany.2
    simp only [readUnsigned?, hAfter, hGroup.takeWhile_eq hTrail, hGroup.filter_eq,
      hGroup.underscoresApart]
    rw [if_neg (by simp [hGroup.ne_nil, hFirst]), if_neg hFew, List.drop_left,
      if_pos (List.all_eq_true.2 hTrail), valueOf_eq_positional hGroup.subset]

theorem Unsigned.head? (h : Unsigned radix text value) :
    ∃ c rest, text = c :: rest ∧ c ∈ radix.digitChars := by
  obtain ⟨group, _, hMarked, hGroup, -, -⟩ := h
  have hZero : '0' ∈ radix.digitChars := by cases radix <;> decide
  cases hMarked with
  | bare => exact hGroup.head?
  | mark _ => exact ⟨_, _, rfl, hZero⟩
  | apart _ => exact ⟨_, _, rfl, hZero⟩

end

/-! ## Digits of other scripts -/

/-- The ranges of the decimal digits of all scripts. -/
def digitRanges : List (Nat × Nat) := decimalZeros.map fun base => (base, base + 9)

section
variable {ranges : List (Nat × Nat)} {first last n value : Nat} {c : Char}

/-- What lies in a range lies in none of those apart from it. -/
theorem inRanges_of_apart
    (h : (ranges.all fun range => decide (last < range.1) || decide (range.2 < first)) = true)
    (hFirst : first ≤ n) (hLast : n ≤ last) : inRanges ranges n = false := by
  rw [inRanges, List.any_eq_false]
  intro range hMem hInside
  have hApart := List.all_eq_true.1 h range hMem
  simp only [Bool.or_eq_true, Bool.and_eq_true, decide_eq_true_iff] at hApart hInside
  omega

theorem inRanges_of_decimalValue? (h : decimalValue? c = some value) :
    inRanges digitRanges c.toNat = true ∧ value < 10 := by
  obtain ⟨base, hFind, rfl⟩ := Option.map_eq_some_iff.1 h
  have hHolds := List.find?_some hFind
  have hMem := List.mem_of_find?_eq_some hFind
  simp only [Bool.and_eq_true, decide_eq_true_iff] at hHolds
  refine ⟨List.any_eq_true.2 ⟨_, List.mem_map_of_mem hMem, ?_⟩, by omega⟩
  simp only [Bool.and_eq_true, decide_eq_true_iff]
  omega

theorem digitRanges_apart_blanks :
    (digitRanges.all fun digits => blankRanges.all fun range =>
      decide (digits.2 < range.1) || decide (range.2 < digits.1)) = true := by
  decide +kernel

/-- A digit of any script is no blank, nor is the digit that it stands for. -/
theorem isIntegerBlank_asciiDigit (c : Char) :
    isIntegerBlank (asciiDigit c) = isIntegerBlank c := by
  unfold asciiDigit
  split
  · rfl
  · next hBeyond =>
    split
    · next value hValue =>
      obtain ⟨hRange, hSmall⟩ := inRanges_of_decimalValue? hValue
      have hDigits : ∀ d < 10, isIntegerBlank (digitChar d) = false := by decide
      have hBlank : isBlank c = false := by
        obtain ⟨range, hMem, hInside⟩ := List.any_eq_true.1 hRange
        simp only [Bool.and_eq_true, decide_eq_true_iff] at hInside
        exact inRanges_of_apart (List.all_eq_true.1 digitRanges_apart_blanks range hMem) hInside.1
          hInside.2
      rw [hDigits value hSmall, isIntegerBlank, if_neg hBeyond, hBlank]
    · rfl

end

section
variable {radix : Radix} {text : List Char} {value : Int}

theorem grouped_self (hSome : text ≠ []) (h : text ⊆ radix.digitChars) :
    Grouped radix text text := by
  induction text with
  | nil => exact absurd rfl hSome
  | cons c rest ih =>
    obtain ⟨hDigit, hRest⟩ := List.cons_subset.1 h
    cases rest with
    | nil => exact .last hDigit
    | cons d more => exact .next hDigit (ih (List.cons_ne_nil d more) hRest)

/-- Digits alone are a number, if they are not too many. -/
theorem signed_digits_iff (h : text ⊆ radix.digitChars) :
    Signed radix text value ↔ text ≠ [] ∧ (radix = .decimal → text.length ≤ decimalLimit) ∧
      value = (positional radix.base text : Nat) := by
  have hOthers : ∀ c ∈ radix.digitChars, c ≠ '+' ∧ c ≠ '-' ∧ c ∉ markLetters radix := by
    cases radix <;> exact List.all_iff_forall_prop.1 (by decide)
  constructor
  · intro hSigned
    cases hSigned with
    | plus _ => exact absurd rfl (hOthers '+' (h List.mem_cons_self)).1
    | minus _ => exact absurd rfl (hOthers '-' (h List.mem_cons_self)).2.1
    | bare hNumber =>
      obtain ⟨group, digits, hMarked, hGroup, hLength, rfl⟩ := hNumber
      cases hMarked with
      | mark hLetter => exact absurd hLetter (hOthers _ (h (by simp))).2.2
      | apart hLetter => exact absurd hLetter (hOthers _ (h (by simp))).2.2
      | bare =>
        have hSame : digits = text := by
          rw [← hGroup.filter_eq, List.filter_eq_self]
          intro c hMem
          simpa using digit_ne_underscore (h hMem)
        rw [hSame] at hLength hGroup ⊢
        exact ⟨hGroup.ne_nil, hLength, rfl⟩
  · rintro ⟨hSome, hLength, rfl⟩
    exact .bare ⟨text, text, .bare, grouped_self hSome h, hLength, rfl⟩

theorem Signed.ne_nil (h : Signed radix text value) : text ≠ [] := by
  cases h with
  | bare h =>
    obtain ⟨c, rest, rfl, -⟩ := h.head?
    exact List.cons_ne_nil _ _
  | plus _ => exact List.cons_ne_nil _ _
  | minus _ => exact List.cons_ne_nil _ _

/-- A text is read as an integer exactly if it is a number with a sign or without one, in digits of
any script and with blanks around it. -/
theorem readInteger?_eq_some_iff :
    readInteger? radix.base text = some value ↔
      ∃ blanks number trail, text = blanks ++ (number ++ trail) ∧
        (∀ c ∈ blanks, isIntegerBlank c = true) ∧ Signed radix (number.map asciiDigit) value ∧
        ∀ c ∈ trail, isIntegerBlank c = true := by
  constructor
  · intro hRead
    have hSigned : ∃ number trail,
        (text.dropWhile isIntegerBlank).map asciiDigit = number ++ trail ∧
          Signed radix number value ∧ ∀ c ∈ trail, isIntegerBlank c = true := by
      unfold readInteger? at hRead
      split at hRead
      · next rest hRest =>
        cases hUnsigned : readUnsigned? radix.base rest with
        | none =>
          rw [hUnsigned] at hRead
          cases hRead
        | some n =>
          rw [hUnsigned] at hRead
          obtain rfl := Option.some.inj hRead
          obtain ⟨number, trail, rfl, hNumber, hTrail⟩ := readUnsigned?_eq_some_iff.1 hUnsigned
          exact ⟨_, trail, hRest, .minus hNumber, hTrail⟩
      · next rest hRest =>
        obtain ⟨n, hUnsigned, rfl⟩ := Option.map_eq_some_iff.1 hRead
        obtain ⟨number, trail, rfl, hNumber, hTrail⟩ := readUnsigned?_eq_some_iff.1 hUnsigned
        exact ⟨_, trail, hRest, .plus hNumber, hTrail⟩
      · obtain ⟨n, hUnsigned, rfl⟩ := Option.map_eq_some_iff.1 hRead
        obtain ⟨number, trail, hText, hNumber, hTrail⟩ := readUnsigned?_eq_some_iff.1 hUnsigned
        exact ⟨number, trail, hText, .bare hNumber, hTrail⟩
    obtain ⟨_, _, hText, hNumber, hTrail⟩ := hSigned
    obtain ⟨number, trail, hDrop, rfl, rfl⟩ := List.map_eq_append_iff.1 hText
    refine ⟨text.takeWhile isIntegerBlank, number, trail, ?_, ?_, hNumber, ?_⟩
    · rw [← hDrop, List.takeWhile_append_dropWhile]
    · exact List.all_eq_true.1 List.all_takeWhile
    · intro c hMem
      rw [← isIntegerBlank_asciiDigit]
      exact hTrail _ (List.mem_map_of_mem hMem)
  · rintro ⟨blanks, number, trail, rfl, hBlanks, hNumber, hTrail⟩
    have hFirst : (number ++ trail).dropWhile isIntegerBlank = number ++ trail := by
      cases number with
      | nil => exact absurd rfl hNumber.ne_nil
      | cons c number =>
        have hChar : isIntegerBlank c = false := by
          rw [← isIntegerBlank_asciiDigit]
          exact isIntegerBlank_of_mem (hNumber.subset List.mem_cons_self)
        exact List.dropWhile_cons_of_neg (ne_true_of_eq_false hChar)
    have hRest : ∀ c ∈ trail.map asciiDigit, isIntegerBlank c = true := by
      simpa [isIntegerBlank_asciiDigit] using hTrail
    unfold readInteger?
    rw [List.dropWhile_append_of_pos hBlanks, hFirst, List.map_append]
    generalize number.map asciiDigit = signed at hNumber
    cases hNumber with
    | bare h =>
      have hRead := readUnsigned?_eq_some_iff.2 ⟨_, _, rfl, h, hRest⟩
      obtain ⟨c, rest, rfl, hDigit⟩ := h.head?
      have hSigns : ∀ c ∈ radix.digitChars, c ≠ '-' ∧ c ≠ '+' := by
        cases radix <;> exact List.all_iff_forall_prop.1 (by decide)
      obtain ⟨hMinus, hPlus⟩ := hSigns c hDigit
      rw [List.cons_append] at hRead ⊢
      simp [hRead, hMinus, hPlus]
    | plus h => simp [readUnsigned?_eq_some_iff.2 ⟨_, _, rfl, h, hRest⟩]
    | minus h => simp [readUnsigned?_eq_some_iff.2 ⟨_, _, rfl, h, hRest⟩]

end

end Lr35902.Text
