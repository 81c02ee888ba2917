import Lr35902.Proofs.ScannedLines

/-!
Places of tokens and diagnostics. Whatever the scanner says is about a place in its text, so lines
and columns are bounded by the length of the text (`scan_within`). A diagnostic about such a place
can be put into words unless one of the numbers in its cause is too long
(`Diagnostic.obstacle?_eq`).
-/
namespace Lr35902

/-! ## Places -/

/-- A place in a text of some length. -/
structure Location.Within (limit : Nat) (location : Location) : Prop where
  line_pos : 1 ≤ location.line
  column_pos : 1 ≤ location.column
  sum_le : location.line + location.column ≤ limit + 2

theorem Location.Within.mono {limit larger : Nat} {location : Location}
    (h : location.Within limit) (hLarger : limit ≤ larger) : location.Within larger := by
  obtain ⟨hLine, hColumn, hSum⟩ := h
  exact ⟨hLine, hColumn, by omega⟩

/-- A token in a text of some length. -/
structure Token.Within (limit : Nat) (token : Token) : Prop where
  location : token.location.Within limit
  text_le : ∀ text, token.lexeme = .string text → text.length ≤ limit

namespace Scan

theorem readLexeme_string_le {c : Char} {rest : List Char} {text : String} {taken : Nat}
    (h : readLexeme c rest = .ok (.string text, taken)) : text.length ≤ rest.length := by
  have hWord (word : String) : classify word ≠ .string text := by
    unfold classify
    split_ifs <;> nofun
  unfold readLexeme at h
  split at h
  · exact absurd (Prod.mk.inj (Except.ok.inj h)).1 (hWord _)
  · split at h
    · simp only [readNumber] at h
      split at h <;> cases h
    · split at h
      · simp only [readDirective] at h
        split at h
        · cases h
        · split at h <;> cases h
      · split at h
        · simp only [readString] at h
          split at h
          · cases h
            rw [String.length_ofList]
            exact length_takeWhile_le _ _
          · cases h
        · split at h <;> cases h

/-- A cursor with so much text left is in a text of some length. -/
structure Cursor.Within (limit : Nat) (cursor : Cursor) (left : Nat) : Prop where
  line_pos : 1 ≤ cursor.line
  column_pos : 1 ≤ cursor.column
  sum_le : cursor.line + cursor.column + left ≤ limit + 2

theorem Cursor.start_within (text : List Char) :
    (Cursor.start text).Within text.length text.length :=
  ⟨Nat.le_refl _, Nat.le_refl _, by simp only [Cursor.start]; omega⟩

section
variable {limit left : Nat} {cursor : Cursor}

theorem Cursor.Within.left_le (h : cursor.Within limit left) : left ≤ limit := by
  obtain ⟨hLine, hColumn, hSum⟩ := h
  omega

theorem Cursor.Within.location (h : cursor.Within limit left) (file : String) :
    (cursor.location file).Within limit := by
  obtain ⟨hLine, hColumn, hSum⟩ := h
  exact ⟨by simp only [Cursor.location]; omega, by simp only [Cursor.location]; omega,
    by simp only [Cursor.location]; omega⟩

theorem Cursor.Within.forward {n left' : Nat} (h : cursor.Within limit left)
    (hLeft : left' + n ≤ left) : (cursor.forward n).Within limit left' := by
  obtain ⟨hLine, hColumn, hSum⟩ := h
  exact ⟨hLine, by simp only [Cursor.forward]; omega, by simp only [Cursor.forward]; omega⟩

theorem Cursor.Within.nextLine (h : cursor.Within limit (left + 1)) (text : List Char) :
    (cursor.nextLine text).Within limit left := by
  obtain ⟨hLine, hColumn, hSum⟩ := h
  exact ⟨by simp only [Cursor.nextLine]; omega, Nat.le_refl _,
    by simp only [Cursor.nextLine]; omega⟩

end

/-- All that the scanner says is about places in the text. -/
theorem scanFrom_within {limit : Nat} {file : String} {cursor : Cursor} {done : List Token}
    {text : List Char} (hCursor : cursor.Within limit text.length)
    (hDone : ∀ token ∈ done, token.Within limit) :
    (∀ tokens, scanFrom file cursor done text = .ok tokens →
        ∀ token ∈ tokens, token.Within limit) ∧
      ∀ diagnostic, scanFrom file cursor done text = .error diagnostic →
        ∃ location, diagnostic.location = some location ∧ location.Within limit := by
  fun_induction scanFrom file cursor done text with
  | case1 cursor done =>
    refine ⟨?_, ?_⟩
    · intro tokens h token hMem
      cases h
      exact hDone token (List.mem_reverse.1 hMem)
    · intro diagnostic h
      cases h
  | case2 cursor done c rest _ ih => exact ih (hCursor.forward (Nat.le_refl _)) hDone
  | case3 cursor done rest comment _ ih =>
    apply ih (hCursor.forward ?_) hDone
    have hComment : comment ≤ rest.length := length_takeWhile_le _ _
    simp only [List.length_drop, List.length_cons]
    omega
  | case4 cursor done rest after _ _ ih =>
    apply ih (hCursor.nextLine rest)
    intro token hMem
    by_cases hStart : atLineStart done = true
    · rw [show after = done from if_pos hStart] at hMem
      exact hDone token hMem
    · rw [show after = ⟨.newline, cursor.location file⟩ :: done from if_neg hStart] at hMem
      rcases List.mem_cons.1 hMem with rfl | hMem
      · refine ⟨hCursor.location file, ?_⟩
        intro text hText
        cases hText
      · exact hDone token hMem
  | case5 cursor done c rest _ _ _ cause _ =>
    refine ⟨?_, ?_⟩
    · intro tokens h
      cases h
    · intro diagnostic h
      cases h
      exact ⟨_, rfl, hCursor.location file⟩
  | case6 cursor done c rest _ _ _ lexeme taken hRead ih =>
    have hTaken := readLexeme_le hRead
    apply ih (hCursor.forward ?_)
    · intro token hMem
      rcases List.mem_cons.1 hMem with rfl | hMem
      · refine ⟨hCursor.location file, ?_⟩
        intro text hText
        obtain rfl : lexeme = .string text := hText
        have hText := readLexeme_string_le hRead
        have hLeft := hCursor.left_le
        rw [List.length_cons] at hLeft
        omega
      · exact hDone token hMem
    · simp only [List.length_drop, List.length_cons]
      omega

end Scan

theorem scan_within {source file : String} :
    (∀ tokens, scan source file = .ok tokens →
        ∀ token ∈ tokens, token.Within source.length) ∧
      ∀ diagnostic, scan source file = .error diagnostic →
        ∃ location, diagnostic.location = some location ∧ location.Within source.length := by
  rw [← String.length_toList]
  exact Scan.scanFrom_within (Scan.Cursor.start_within _) (List.forall_mem_nil _)

/-! ## Diagnostics that can be put into words -/

theorem Text.exceedsDecimalLimit_of_le {value : Int} (h : value.natAbs ≤ 0x1000000000000000000) :
    Text.exceedsDecimalLimit value = false := by
  have hLimit : 0x1000000000000000000 < Nat.pow 10 Text.decimalLimit := by decide +kernel
  rw [Text.exceedsDecimalLimit, decide_eq_false_iff_not]
  omega

/-- A diagnostic about a place in a text whose length can be told can be put into words unless one
of its numbers is too long. -/
theorem Diagnostic.obstacle?_eq {limit : Nat} {d : Diagnostic}
    (hFits : (limit : Int) + 4 ≤ Text.lengthLimit)
    (hPlace : ∀ location, d.location = some location → location.Within limit) :
    d.obstacle? =
      if d.cause.decimals.any Text.exceedsDecimalLimit then some .longNumber else none := by
  unfold Text.lengthLimit at hFits
  cases hLocation : d.location with
  | none => simp [obstacle?, hLocation]
  | some location =>
    obtain ⟨hLine, hColumn, hSum⟩ := hPlace location hLocation
    have hPlain (value : Int) (hLow : 1 ≤ value) (hHigh : value ≤ limit + 1) :
        Text.exceedsDecimalLimit value = false :=
      Text.exceedsDecimalLimit_of_le (by omega)
    have hCaret : ¬Text.lengthLimit < 3 + location.column := by
      unfold Text.lengthLimit
      omega
    have hNumbers : [location.line, location.column].any Text.exceedsDecimalLimit = false := by
      simp [hPlain location.line hLine (by omega), hPlain location.column hColumn (by omega)]
    simp only [obstacle?, hLocation, List.any_append, hNumbers, Bool.or_false]
    cases d.sourceLine with
    | none => rfl
    | some line => simp only [if_neg hCaret]

end Lr35902
