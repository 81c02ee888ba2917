import Lr35902.Proofs.NumberLiterals
import Lr35902.Proofs.OpenFiles
import Lr35902.Proofs.Places

/-!
How scanning fails. The scanner gives up where it comes to a text that begins with nothing it knows
(`ComesTo`, `GivesUp`), and reports a lexical cause. The report can be put into words unless the
cause is a literal whose value has more decimal digits than a message can write. Decimal notation is
refused before that, so such a literal is in another notation (`LongLiteral`), and coming to one is
the only way to fail otherwise than lexically (`scan_lexical_iff`).
-/
namespace Lr35902

/-! ## Where the scanner gives up -/

namespace Scan

/-- The text after what a text begins with: a blank, a comment, a line end or a lexeme. -/
def advance (c : Char) (rest : List Char) : Except Cause (List Char) :=
  if isSpace c then .ok rest
  else if c = ';' then .ok (rest.drop (rest.takeWhile (· != '\n')).length)
  else if c = '\n' then .ok rest
  else
    match readLexeme c rest with
    | .ok (_, taken) => .ok (rest.drop taken)
    | .error cause => .error cause

/-- The texts that the scanner comes to on its way through a text. -/
inductive ComesTo : List Char → List Char → Prop where
  | here (text : List Char) : ComesTo text text
  | step {c : Char} {rest more stop : List Char} (hNext : advance c rest = .ok more)
      (hMore : ComesTo more stop) : ComesTo (c :: rest) stop

/-- The scanner comes to a text that begins with nothing, for some cause. -/
def GivesUp (text : List Char) (cause : Cause) : Prop :=
  ∃ c rest, ComesTo text (c :: rest) ∧ advance c rest = .error cause

/-- A text begins with a literal whose value has more decimal digits than a message can write. -/
def LongLiteral (text : List Char) : Prop :=
  ∃ radix mark digits following, radix ≠ .decimal ∧ Literal radix mark digits ∧ Ends following ∧
    text = mark ++ digits ++ following ∧
    Nat.pow 10 Text.decimalLimit ≤ Text.valueOf radix.base digits

section
variable {file : String} {cursor : Cursor} {done : List Token} {text : List Char}

theorem givesUp_step {c : Char} {rest more : List Char} {cause : Cause}
    (hNext : advance c rest = .ok more) : GivesUp (c :: rest) cause ↔ GivesUp more cause := by
  constructor
  · intro ⟨d, tail, hComes, hStuck⟩
    cases hComes with
    | here => simp [hNext] at hStuck
    | step hOther hMore =>
      obtain rfl : more = _ := by simpa [hNext] using hOther
      exact ⟨d, tail, hMore, hStuck⟩
  · intro ⟨d, tail, hComes, hStuck⟩
    exact ⟨d, tail, .step hNext hComes, hStuck⟩

theorem givesUp_stuck {c : Char} {rest : List Char} {found cause : Cause}
    (hStuck : advance c rest = .error found) : GivesUp (c :: rest) cause ↔ found = cause := by
  constructor
  · intro ⟨d, tail, hComes, hOther⟩
    cases hComes with
    | here => simpa [hStuck] using hOther
    | step hNext => simp [hStuck] at hNext
  · intro hSame
    exact ⟨c, rest, .here _, hSame ▸ hStuck⟩

/-- The scanner reports the cause for which it gives up. -/
theorem scanFrom_error_iff {cause : Cause} :
    (∃ diagnostic, scanFrom file cursor done text = .error diagnostic ∧
      diagnostic.cause = cause) ↔ GivesUp text cause := by
  fun_induction scanFrom file cursor done text with
  | case1 cursor done =>
    constructor
    · intro hFails
      obtain ⟨_, h, _⟩ := hFails
      cases h
    · intro hGivesUp
      obtain ⟨c, rest, hComes, _⟩ := hGivesUp
      cases hComes
  | case2 cursor done c rest hSpace ih =>
    rw [ih, givesUp_step (if_pos hSpace)]
  | case3 cursor done rest comment hSpace ih =>
    rw [ih, givesUp_step (by rw [advance, if_neg hSpace, if_pos rfl])]
  | case4 cursor done rest after hSpace hComment ih =>
    rw [ih, givesUp_step (by rw [advance, if_neg hSpace, if_neg hComment, if_pos rfl])]
  | case5 cursor done c rest hSpace hComment hLine found hRead =>
    have hStuck : advance c rest = .error found := by
      rw [advance, if_neg hSpace, if_neg hComment, if_neg hLine, hRead]
    rw [givesUp_stuck hStuck]
    simp [Cursor.diagnose]
  | case6 cursor done c rest hSpace hComment hLine lexeme taken hRead ih =>
    have hNext : advance c rest = .ok (rest.drop taken) := by
      rw [advance, if_neg hSpace, if_neg hComment, if_neg hLine, hRead]
    rw [ih, givesUp_step hNext]

/-- The scanner gives up a long literal for its value. -/
theorem advance_longLiteral (h : LongLiteral text) :
    ∃ c rest value, text = c :: rest ∧ advance c rest = .error (.wideLiteral value) ∧
      Nat.pow 10 Text.decimalLimit ≤ value := by
  obtain ⟨radix, mark, digits, following, hRadix, hLiteral, hEnd, hText, hLong⟩ := h
  obtain ⟨c, rest, hFirst⟩ : ∃ c rest, mark ++ digits ++ following = c :: rest := by
    apply List.exists_cons_of_ne_nil
    simp [hLiteral.nonempty]
  have hRefused : readLexeme c rest = .error (.wideLiteral (Text.valueOf radix.base digits)) := by
    rw [readLexeme_literal hLiteral (fun hDecimal => absurd hDecimal hRadix) hEnd hFirst, if_neg]
    have hLimit : maxLiteral < Nat.pow 10 Text.decimalLimit := by decide +kernel
    exact Nat.not_le.2 (Nat.lt_of_lt_of_le hLimit hLong)
  obtain ⟨hSpace, hComment, hLine⟩ := not_blank_of_isAsciiDigit (hLiteral.isAsciiDigit_head hFirst)
  refine ⟨c, rest, _, hText.trans hFirst, ?_, hLong⟩
  rw [advance, if_neg (by simp [hSpace]), if_neg hComment, if_neg hLine, hRefused]

theorem longLiteral_of_advance {c : Char} {rest : List Char} {value : Nat}
    (h : advance c rest = .error (.wideLiteral value))
    (hLong : Nat.pow 10 Text.decimalLimit ≤ value) : LongLiteral (c :: rest) := by
  have hRefused : readLexeme c rest = .error (.wideLiteral value) := by
    unfold advance at h
    split at h
    · cases h
    · split at h
      · cases h
      · split at h
        · cases h
        · split at h
          · cases h
          · next hRead =>
            cases h
            exact hRead
  obtain ⟨radix, mark, digits, following, hLiteral, hEnd, hText, rfl⟩ :=
    exists_literal_of_wideLiteral hRefused
  refine ⟨radix, mark, digits, following, ?_, hLiteral, hEnd, hText, hLong⟩
  intro hDecimal
  subst hDecimal
  have hShort := hLiteral.length_le rfl
  generalize Text.decimalLimit = limit at hShort hLong
  exact Nat.not_le.2 (Text.valueOf_lt (by decide) hShort hLiteral.digits_lt) hLong

/-- A long enough run of the last digit of a notation is a long literal. -/
theorem longLiteral_replicate (radix : Radix) {mark : List Char} {c : Char} {n : Nat}
    (hMark : (radix, mark) ∈ marks) (hRadix : radix ≠ .decimal)
    (hDigit : Text.digitValue c + 1 = radix.base)
    (hLong : Nat.pow 10 Text.decimalLimit < Nat.pow radix.base n) :
    LongLiteral (mark ++ List.replicate n c) := by
  have hValue := Text.valueOf_replicate hDigit n
  refine ⟨radix, mark, List.replicate n c, [], hRadix, ⟨hMark, ?_, ?_, ?_, ?_⟩, rfl, by simp, ?_⟩
  · intro hNone
    obtain rfl : n = 0 := by simpa using hNone
    generalize Text.decimalLimit = limit at hLong
    have hPos : 0 < Nat.pow 10 limit := Nat.pow_pos (by decide)
    exact absurd hLong (Nat.not_lt.2 hPos)
  · intro d hd
    rw [List.eq_of_mem_replicate hd]
    omega
  · exact fun hDecimal => absurd hDecimal hRadix
  · exact fun hDecimal => absurd hDecimal hRadix
  · rw [← hValue] at hLong
    exact Nat.le_of_lt_succ hLong

end
end Scan

/-- Of the lexical causes only the value of a literal can be too long to be written. -/
theorem Cause.exceeds_iff {cause : Cause} (h : cause.kind = .lexical) :
    cause.decimals.any Text.exceedsDecimalLimit = true ↔
      ∃ value, cause = .wideLiteral value ∧ Nat.pow 10 Text.decimalLimit ≤ value := by
  cases cause with
  | wideLiteral value => simp [decimals, Text.exceedsDecimalLimit]
  | _ => first | (cases h; done) | simp [decimals]

section
variable {source file : String}

theorem scan_error_iff {cause : Cause} :
    (∃ d, scan source file = .error d ∧ d.cause = cause) ↔ Scan.GivesUp source.toList cause :=
  Scan.scanFrom_error_iff

theorem scan_longLiteral (file : String) {text : List Char}
    (hComes : Scan.ComesTo source.toList text) (hLong : Scan.LongLiteral text) :
    ∃ d value, scan source file = .error d ∧ d.cause = .wideLiteral value ∧
      Nat.pow 10 Text.decimalLimit ≤ value := by
  obtain ⟨c, rest, value, rfl, hStuck, hValue⟩ := Scan.advance_longLiteral hLong
  obtain ⟨d, hError, hCause⟩ := scan_error_iff.2 ⟨c, rest, hComes, hStuck⟩
  exact ⟨d, value, hError, hCause, hValue⟩

/-- The diagnostic of a failure can be put into words unless the scanner comes to a long literal. -/
theorem scan_obstacle? {d : Diagnostic} (hFits : (source.length : Int) + 4 ≤ Text.lengthLimit)
    (h : scan source file = .error d) :
    (d.obstacle? = none ∨ d.obstacle? = some .longNumber) ∧
      (d.obstacle? = none ↔
        ¬∃ text, Scan.ComesTo source.toList text ∧ Scan.LongLiteral text) := by
  have hPlace : ∀ location, d.location = some location → location.Within source.length := by
    intro location hLocation
    obtain ⟨found, hFound, hWithin⟩ := scan_within.2 d h
    obtain rfl : found = location := by simpa [hFound] using hLocation
    exact hWithin
  have hLong : d.cause.decimals.any Text.exceedsDecimalLimit = true ↔
      ∃ text, Scan.ComesTo source.toList text ∧ Scan.LongLiteral text := by
    rw [Cause.exceeds_iff (Scan.scanFrom_error h)]
    constructor
    · intro ⟨value, hCause, hValue⟩
      obtain ⟨c, rest, hComes, hStuck⟩ := scan_error_iff.1 ⟨d, h, hCause⟩
      exact ⟨c :: rest, hComes, Scan.longLiteral_of_advance hStuck hValue⟩
    · intro ⟨text, hComes, hText⟩
      obtain ⟨other, value, hOther, hCause, hValue⟩ := scan_longLiteral file hComes hText
      obtain rfl : d = other := by simpa [h] using hOther
      exact ⟨value, hCause, hValue⟩
  rw [Diagnostic.obstacle?_eq hFits hPlace]
  by_cases hNumber : d.cause.decimals.any Text.exceedsDecimalLimit = true
  · simp [hNumber, hLong.1 hNumber]
  · simp only [hNumber, ← hLong]
    simp

/-- Scanning gives tokens, or fails with a lexical diagnostic that can be put into words, exactly if
it comes to no long literal; if it does, the diagnostic has a number that is too long. -/
theorem scan_lexical_iff (hFits : (source.length : Int) + 4 ≤ Text.lengthLimit) :
    (((∃ tokens, scan source file = .ok tokens) ∨
          ∃ d, scan source file = .error d ∧ d.cause.kind = .lexical ∧ d.obstacle? = none) ↔
        ¬∃ text, Scan.ComesTo source.toList text ∧ Scan.LongLiteral text) ∧
      ∀ d, scan source file = .error d →
        d.cause.kind = .lexical ∧ (d.obstacle? = none ∨ d.obstacle? = some .longNumber) := by
  refine ⟨?_, fun d h => ⟨Scan.scanFrom_error h, (scan_obstacle? hFits h).1⟩⟩
  cases h : scan source file with
  | ok tokens =>
    have hNone : ¬∃ text, Scan.ComesTo source.toList text ∧ Scan.LongLiteral text := by
      intro ⟨text, hComes, hText⟩
      obtain ⟨d, _, hError, -⟩ := scan_longLiteral file hComes hText
      simp [h] at hError
    exact ⟨fun _ => hNone, fun _ => .inl ⟨tokens, rfl⟩⟩
  | error d =>
    rw [← (scan_obstacle? hFits h).2]
    constructor
    · intro hGood
      obtain ⟨tokens, hOk⟩ | ⟨other, hOther, -, hNone⟩ := hGood
      · cases hOk
      · cases hOther
        exact hNone
    · intro hNone
      exact .inr ⟨d, rfl, Scan.scanFrom_error h, hNone⟩

/-- A text that begins with a long literal on its second line. -/
theorem scan_lexical_iff_long_binary :
    let source := String.ofList ('\n' :: ' ' :: '0' :: 'b' :: List.replicate 14285 '1')
    ((source.length : Int) + 4 ≤ Text.lengthLimit) ∧
      ¬((∃ tokens, scan source Location.input = .ok tokens) ∨
        ∃ d, scan source Location.input = .error d ∧ d.cause.kind = .lexical ∧
          d.obstacle? = none) := by
  intro source
  have hLength : source.length = 14289 := by
    simp only [source, String.length_ofList, List.length_cons, List.length_replicate]
  have hFits : (source.length : Int) + 4 ≤ Text.lengthLimit := by
    rw [hLength]
    decide
  refine ⟨hFits, ?_⟩
  rw [(scan_lexical_iff hFits).1, not_not]
  refine ⟨['0', 'b'] ++ List.replicate 14285 '1', ?_, ?_⟩
  · rw [String.toList_ofList]
    exact .step rfl (.step rfl (.here _))
  · exact Scan.longLiteral_replicate .binary (by decide) (by decide) (by decide) (by decide +kernel)

/-- A hexadecimal literal of 3572 digits fails with a diagnostic that cannot be put into words. -/
theorem scan_long_hexadecimal :
    ∃ d, scan (String.ofList (['0', 'x'] ++ List.replicate 3572 'F')) Location.input = .error d ∧
      d.obstacle? = some .longNumber := by
  have hLength : (String.ofList (['0', 'x'] ++ List.replicate 3572 'F')).length = 3574 := by
    simp only [String.length_ofList, List.length_append, List.length_replicate, List.length_cons,
      List.length_nil]
  have hLong : Scan.LongLiteral (['0', 'x'] ++ List.replicate 3572 'F') :=
    Scan.longLiteral_replicate .hexadecimal (by decide) (by decide) (by decide) (by decide +kernel)
  have hComes :
      Scan.ComesTo (String.ofList (['0', 'x'] ++ List.replicate 3572 'F')).toList
        (['0', 'x'] ++ List.replicate 3572 'F') := by
    rw [String.toList_ofList]
    exact .here _
  obtain ⟨d, _, hError, -⟩ := scan_longLiteral Location.input hComes hLong
  obtain ⟨hNone | hSome, hIff⟩ := scan_obstacle? (by rw [hLength]; decide) hError
  · exact absurd ⟨_, hComes, hLong⟩ (hIff.1 hNone)
  · exact ⟨d, hError, hSome⟩

end
end Lr35902
