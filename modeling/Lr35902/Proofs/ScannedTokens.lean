import Lr35902.Proofs.OpcodeTable
import Lr35902.Token.Scan

/-!
What the scanner can say. A number literal fits in 16 bits, a keyword or a directive is one of the
known words, an identifier is no keyword, a delimiter has the spelling of its character, a string
stays on its line, and the mark of an included file's end never comes from text (`scan_scanned`). A
text that may hold surrogates is scanned by way of the characters that stand in for them, and only
its strings can differ (`restore_cases`); a text that holds none is scanned as before
(`scanText_chars`).
-/
namespace Lr35902

/-- A lexeme that text can give. -/
def Lexeme.Scanned : Lexeme → Prop
  | .identifier name => Scan.classify name = .identifier name
  | .number value => 0 ≤ value ∧ value ≤ 0xFFFF
  | .string text => '"' ∉ text.toList ∧ '\n' ∉ text.toList
  | .brokenString _ => True
  | .register name => ∃ r : Register, name = r.name
  | .pair name => ∃ p : Pair, name = p.name
  | .flag name => name ∈ flagNames
  | .mnemonic name => ∃ m : Mnemonic, name = m.name
  | .directive name => name ∈ Scan.directiveNames
  | .delimiter mark spelling => spelling = some (String.singleton mark.char)
  | .newline => True
  | .endInclude _ => False

namespace Scan

theorem classify_scanned (word : String) : (classify word).Scanned := by
  unfold classify
  split
  · next hr =>
    obtain ⟨r, -, hr⟩ := List.any_eq_true.1 hr
    exact ⟨r, (beq_iff_eq.1 hr).symm⟩
  · split
    · next hp =>
      obtain ⟨p, -, hp⟩ := List.any_eq_true.1 hp
      exact ⟨p, (beq_iff_eq.1 hp).symm⟩
    · split
      · next hf => exact List.contains_iff_mem.1 hf
      · split
        · next hm =>
          obtain ⟨m, hm⟩ := Option.isSome_iff_exists.1 hm
          exact ⟨m, (Mnemonic.ofName?_eq_some.1 hm).symm⟩
        · next hr hp hf hm =>
          show classify word = .identifier word
          simp only [classify, hr, hp, hf, hm]
          rfl

theorem literalValue_le {radix : Radix} {digits following : List Char} {value : Nat}
    (h : literalValue radix digits following = .ok value) : value ≤ 0xFFFF := by
  unfold literalValue at h
  split at h
  · cases h
  · split at h
    · cases h
    · split at h
      · cases h
      · simp only at h
        split at h
        · next hle =>
          cases h
          exact hle
        · cases h

theorem readNumber_scanned {c : Char} {rest : List Char} {lexeme : Lexeme} {taken : Nat}
    (h : readNumber c rest = .ok (lexeme, taken)) : lexeme.Scanned := by
  simp only [readNumber] at h
  split at h
  · next hValue =>
    cases h
    have hle := literalValue_le hValue
    exact ⟨by omega, by omega⟩
  · cases h

theorem readDirective_scanned {rest : List Char} {lexeme : Lexeme} {taken : Nat}
    (h : readDirective rest = .ok (lexeme, taken)) : lexeme.Scanned := by
  simp only [readDirective] at h
  split at h
  · next hKnown =>
    cases h
    exact List.contains_iff_mem.1 hKnown
  · split at h <;> cases h

theorem readString_scanned {rest : List Char} {lexeme : Lexeme} {taken : Nat}
    (h : readString rest = .ok (lexeme, taken)) : lexeme.Scanned := by
  simp only [readString] at h
  split at h
  · cases h
    have hBody : ∀ c ∈ rest.takeWhile fun c => c != '"' && c != '\n', c ≠ '"' ∧ c ≠ '\n' := by
      intro c hc
      have hKept := List.all_eq_true.1 List.all_takeWhile c hc
      simpa using hKept
    simp only [Lexeme.Scanned, String.toList_ofList]
    exact ⟨fun hc => (hBody _ hc).1 rfl, fun hc => (hBody _ hc).2 rfl⟩
  · cases h

/-- Whatever starts at a character is a lexeme that text can give. -/
theorem readLexeme_scanned {c : Char} {rest : List Char} {lexeme : Lexeme} {taken : Nat}
    (h : readLexeme c rest = .ok (lexeme, taken)) : lexeme.Scanned := by
  unfold readLexeme at h
  split at h
  · cases h
    exact classify_scanned _
  · split at h
    · exact readNumber_scanned h
    · split at h
      · exact readDirective_scanned h
      · split at h
        · exact readString_scanned h
        · split at h
          · cases h
            exact rfl
          · cases h

/-- The loop of the scanner adds only lexemes that text can give. -/
theorem scanFrom_scanned {file : String} {cursor : Cursor} {done : List Token} {text : List Char}
    {tokens : List Token} (h : scanFrom file cursor done text = .ok tokens)
    (hDone : ∀ token ∈ done, token.lexeme.Scanned) : ∀ token ∈ tokens, token.lexeme.Scanned := by
  fun_induction scanFrom file cursor done text with
  | case1 cursor done =>
    cases h
    intro token hMem
    exact hDone token (List.mem_reverse.1 hMem)
  | case2 _ _ _ _ _ ih => exact ih h hDone
  | case3 _ _ _ _ _ ih => exact ih h hDone
  | case4 cursor done rest after _ _ ih =>
    apply ih h
    intro token hMem
    by_cases hStart : atLineStart done = true
    · rw [show after = done from if_pos hStart] at hMem
      exact hDone token hMem
    · rw [show after = ⟨.newline, cursor.location file⟩ :: done from if_neg hStart] at hMem
      rcases List.mem_cons.1 hMem with rfl | hMem
      · trivial
      · exact hDone token hMem
  | case5 => cases h
  | case6 _ _ _ _ _ _ _ lexeme _ hRead ih =>
    apply ih h
    intro token hMem
    rcases List.mem_cons.1 hMem with rfl | hMem
    · exact readLexeme_scanned hRead
    · exact hDone token hMem

end Scan

/-- Every token of a text is one that text can give. -/
theorem scan_scanned {source file : String} {tokens : List Token}
    (h : scan source file = .ok tokens) : ∀ token ∈ tokens, token.lexeme.Scanned :=
  Scan.scanFrom_scanned h (fun _ hMem => absurd hMem List.not_mem_nil)

/-! ## Texts with surrogates -/

/-- Code points of which none is a surrogate are those of their characters. -/
theorem CodePoint.eq_chars {points : List CodePoint}
    (h : ∀ point ∈ points, point.isSurrogate = false) :
    points = (points.map CodePoint.shadow).map .char := by
  rw [List.map_map]
  refine (List.map_id points).symm.trans (List.map_congr_left ?_)
  intro point hMem
  cases point with
  | char c => rfl
  | surrogate index => cases h _ hMem

theorem BrokenText.points_of_ofPoints? {points : List CodePoint} {broken : BrokenText}
    (h : BrokenText.ofPoints? points = some broken) : broken.points = points := by
  unfold ofPoints? at h
  split at h
  · cases h
    rfl
  · cases h

theorem BrokenText.ofPoints?_eq_none {points : List CodePoint} :
    BrokenText.ofPoints? points = none ↔ ∀ point ∈ points, point.isSurrogate = false := by
  unfold ofPoints?
  split
  · next hBroken => simpa using hBroken
  · next hWhole => simpa using hWhole

namespace Scan

theorem afterLines_subset (text : List CodePoint) (lines : Nat) : afterLines text lines ⊆ text := by
  induction lines with
  | zero => exact List.Subset.refl _
  | succ lines ih =>
    intro point hMem
    exact ih (List.dropWhile_subset _ (List.mem_of_mem_drop hMem))

theorem behind_subset (text : List CodePoint) (line column : Int) :
    behind text line column ⊆ text := by
  intro point hMem
  exact afterLines_subset text _ (List.mem_of_mem_drop hMem)

/-- A token stays as it is unless it is a string that turns out broken. -/
theorem restore_cases (text : List CodePoint) (token : Token) :
    restore text token = token ∨
      ∃ written broken, token.lexeme = .string written ∧
        restore text token = { token with lexeme := .brokenString broken } ∧
        broken.points.length ≤ written.length := by
  unfold restore
  split
  · next written hWritten =>
    split
    · next broken hBroken =>
      refine .inr ⟨written, broken, hWritten, rfl, ?_⟩
      rw [BrokenText.points_of_ofPoints? hBroken]
      exact List.length_take_le _ _
    · exact .inl rfl
  · exact .inl rfl

@[simp]
theorem restore_location (text : List CodePoint) (token : Token) :
    (restore text token).location = token.location := by
  obtain hSame | ⟨_, _, -, hRestored, -⟩ := restore_cases text token
  · rw [hSame]
  · rw [hRestored]

theorem restore_chars (text : List Char) (token : Token) :
    restore (text.map .char) token = token := by
  unfold restore
  split
  · next written hWritten =>
    have hNone : BrokenText.ofPoints? ((behind (text.map .char) token.location.line
        token.location.column).take written.length) = none := by
      refine BrokenText.ofPoints?_eq_none.2 ?_
      intro point hMem
      obtain ⟨c, -, rfl⟩ := List.mem_map.1 (behind_subset _ _ _ (List.mem_of_mem_take hMem))
      rfl
    rw [hNone]
  · rfl

end Scan

theorem scanText_ok_iff {text : List CodePoint} {file : String} {tokens : List Token} :
    scanText text file = .ok tokens ↔
      ∃ shadows, scan (String.ofList (text.map CodePoint.shadow)) file = .ok shadows ∧
        tokens = shadows.map (Scan.restore text) := by
  unfold scanText
  cases scan (String.ofList (text.map CodePoint.shadow)) file with
  | error diagnostic => simp
  | ok shadows => simp [eq_comm]

theorem scanText_error_iff {text : List CodePoint} {file : String} {diagnostic : Diagnostic} :
    scanText text file = .error diagnostic ↔
      scan (String.ofList (text.map CodePoint.shadow)) file = .error diagnostic := by
  unfold scanText
  cases scan (String.ofList (text.map CodePoint.shadow)) file with
  | error other => simp
  | ok shadows => simp

/-- A text without surrogates is scanned as its characters are. -/
theorem scanText_chars (text : List Char) (file : String) :
    scanText (text.map .char) file = scan (String.ofList text) file := by
  have hShadow : (text.map CodePoint.char).map CodePoint.shadow = text := by
    rw [List.map_map]
    exact List.map_id text
  have hRestore : Scan.restore (text.map .char) = id := funext (Scan.restore_chars text)
  unfold scanText
  rw [hShadow, hRestore]
  cases scan (String.ofList text) file with
  | error diagnostic => rfl
  | ok tokens => simp

/-- Every token of a text is one that text can give, also if the text holds surrogates. -/
theorem scanText_scanned {text : List CodePoint} {file : String} {tokens : List Token}
    (h : scanText text file = .ok tokens) : ∀ token ∈ tokens, token.lexeme.Scanned := by
  obtain ⟨shadows, hScan, rfl⟩ := scanText_ok_iff.1 h
  intro token hMem
  obtain ⟨shadow, hShadow, rfl⟩ := List.mem_map.1 hMem
  obtain hSame | ⟨_, _, -, hRestored, -⟩ := Scan.restore_cases text shadow
  · rw [hSame]
    exact scan_scanned hScan shadow hShadow
  · rw [hRestored]
    trivial

end Lr35902
