import Lr35902.Proofs.Measured
import Lr35902.Proofs.Places

/-!
How reading a statement fails. From tokens that a run can meet, every function of the grammar gives
a result, or rejects the tokens at one of their places, or one column after it, for a cause whose
numbers are literals (`Outcome`). Neither an unknown directive nor a negative byte is ever met; what
cannot be put into words is only that a text with a surrogate is wanted as UTF-8 (`Unencodable`,
`read_told`).
-/
namespace Lr35902

/-! ## Causes that can be told -/

/-- A cause of a kind of its own, whose numbers are short. -/
structure Cause.Told (cause : Cause) : Prop where
  kind_ne : cause.kind ≠ .general
  short : ∀ value ∈ cause.decimals, value.natAbs ≤ 0x1000000000000000000

theorem Cause.told_of_nil {cause : Cause} (hKind : (cause.kind == .general) = false)
    (hNone : cause.decimals = []) : cause.Told := by
  refine ⟨beq_eq_false_iff_ne.1 hKind, ?_⟩
  rw [hNone]
  exact List.forall_mem_nil _

theorem Cause.told_of_one {cause : Cause} {value : Int} (hKind : (cause.kind == .general) = false)
    (hOne : cause.decimals = [value]) (hShort : value.natAbs ≤ 0x1000000000000000000) :
    cause.Told := by
  refine ⟨beq_eq_false_iff_ne.1 hKind, ?_⟩
  rw [hOne]
  exact List.forall_mem_singleton.2 hShort

theorem Location.Within.next {limit : Nat} {location : Location} (h : location.Within limit) :
    location.next.Within (limit + 1) := by
  obtain ⟨hLine, hColumn, hSum⟩ := h
  refine ⟨hLine, ?_, ?_⟩
  · show 1 ≤ location.column + 1
    omega
  · show location.line + (location.column + 1) ≤ ((limit + 1 : Nat) : Int) + 2
    omega

namespace Statement

/-- A rejection that can be told. -/
def Fault.Told (limit : Nat) : Fault → Prop
  | .rejected cause location _ => cause.Told ∧ location.Within (limit + 1)
  | .unencodable _ | .unknownDirective _ | .negativeByte => False

/-- What is left of a statement is a text with a surrogate, which UTF-8 refuses. -/
inductive Unencodable : List Token → RefusedString → Prop
  | intro {token : Token} {tail rest : List Token} {text : BrokenText} {data : RefusedString} :
    token.lexeme = .brokenString text → Ends tail rest → data.literal = .broken text →
    data.encoding = .utf8 → Unencodable (token :: tail) data

/-- Tokens ahead that a run over texts of some length can meet. -/
structure Ahead.Sound (limit : Nat) (ahead : Ahead) : Prop where
  last : ahead.last.Within limit
  live : ∀ token ∈ ahead.tokens, token.Live
  within : ∀ token ∈ ahead.tokens, token.Within limit

/-- The outcome of taking something from tokens: it is good, and so are the tokens left, or the
fault can be told. -/
def Outcome {α : Type} (limit : Nat) (Good : α → Prop) : Except Fault (α × Ahead) → Prop
  | .ok (a, rest) => Good a ∧ rest.Sound limit
  | .error fault => fault.Told limit

section
variable {α : Type} {limit : Nat} {Good : α → Prop} {result : Except Fault (α × Ahead)}
  {ahead rest : Ahead} {fault : Fault} {a : α}

theorem Outcome.ok (h : Outcome limit Good result) (hResult : result = .ok (a, rest)) :
    Good a ∧ rest.Sound limit := by
  rw [hResult] at h
  exact h

theorem Outcome.error (h : Outcome limit Good result) (hResult : result = .error fault) :
    fault.Told limit := by
  rw [hResult] at h
  exact h

theorem Ahead.Sound.tail {token : Token} {tokens : List Token} (h : ahead.Sound limit)
    (hTokens : ahead.tokens = token :: tokens) : Ahead.Sound limit ⟨token.location, tokens⟩ where
  last := (h.within token (by rw [hTokens]; exact List.mem_cons_self)).location
  live other hMem := h.live other (by rw [hTokens]; exact List.mem_cons_of_mem _ hMem)
  within other hMem := h.within other (by rw [hTokens]; exact List.mem_cons_of_mem _ hMem)

theorem Ahead.Sound.head {token : Token} {tokens : List Token} (h : ahead.Sound limit)
    (hTokens : ahead.tokens = token :: tokens) : token.Live ∧ token.Within limit :=
  ⟨h.live token (by rw [hTokens]; exact List.mem_cons_self),
    h.within token (by rw [hTokens]; exact List.mem_cons_self)⟩

/-! ## Single tokens -/

/-- The numbers of a token are literals. -/
theorem told_expected (what : Expectation) {token : Token} (h : token.Live) :
    (Cause.expected what (some token.lexeme)).Told := by
  cases hLexeme : token.lexeme with
  | number value =>
    have hRange := h.number hLexeme
    exact Cause.told_of_one rfl rfl (by omega)
  | _ => exact Cause.told_of_nil rfl rfl

theorem told_unexpectedStart {token : Token} (h : token.Live) :
    (Cause.unexpectedStart token.lexeme).Told := by
  cases hLexeme : token.lexeme with
  | number value =>
    have hRange := h.number hLexeme
    exact Cause.told_of_one rfl rfl (by omega)
  | _ => exact Cause.told_of_nil rfl rfl

theorem expect_outcome {what : Expectation} {accept : Lexeme → Option α}
    {Good : α × Location → Prop} (hAhead : ahead.Sound limit)
    (hGood : ∀ (token : Token) a, token.Live → token.Within limit → accept token.lexeme = some a →
      Good (a, token.location)) : Outcome limit Good (expect what accept ahead) := by
  unfold expect
  split
  · exact ⟨Cause.told_of_nil rfl rfl, hAhead.last.next⟩
  · next token rest hTokens =>
    obtain ⟨hLive, hWithin⟩ := hAhead.head hTokens
    split
    · next found hAccept => exact ⟨hGood token found hLive hWithin hAccept, hAhead.tail hTokens⟩
    · exact ⟨told_expected what hLive, hWithin.location.mono (Nat.le_succ _)⟩

/-- A number and where it stands. -/
def NumberAt (limit : Nat) (number : Int × Location) : Prop :=
  (0 ≤ number.1 ∧ number.1 ≤ 0xFFFF) ∧ number.2.Within limit

theorem expect_number_outcome {what : Expectation} (hAhead : ahead.Sound limit) :
    Outcome limit (NumberAt limit) (expect what number? ahead) := by
  apply expect_outcome hAhead
  intro token value hLive hWithin hNumber
  exact ⟨hLive.number (number?_eq_some.1 hNumber), hWithin.location⟩

theorem expect_mark_outcome {what : Expectation} {mark : Delimiter} (hAhead : ahead.Sound limit) :
    Outcome limit (fun _ => True) (expect what (mark? mark) ahead) :=
  expect_outcome hAhead fun _ _ _ _ _ => trivial

theorem finish_told (hAhead : ahead.Sound limit) (h : finish ahead = .error fault) :
    fault.Told limit := by
  unfold finish at h
  split at h
  · cases h
  · next token rest hTokens =>
    obtain ⟨hLive, hWithin⟩ := hAhead.head hTokens
    split at h
    · cases h
    · cases h
    · cases h
      exact ⟨told_expected .endOfLine hLive, hWithin.location.mono (Nat.le_succ _)⟩

theorem afterComma?_sound (hAhead : ahead.Sound limit) (h : afterComma? ahead = some rest) :
    rest.Sound limit := by
  obtain ⟨comma, spelling, -, hTokens, hLast⟩ := afterComma?_eq_some.1 h
  have hTail := hAhead.tail hTokens
  rw [← hLast] at hTail
  exact hTail

/-! ## Lists -/

/-- Further things after commas are as good as a single one. -/
theorem readMore_outcome {reader : Reader α}
    (hReader : ∀ ahead, ahead.Sound limit → Outcome limit Good (reader.read ahead))
    (hAhead : ahead.Sound limit) :
    Outcome limit (fun values => ∀ a ∈ values, Good a) (readMore reader ahead) := by
  fun_induction readMore reader ahead with
  | case1 ahead hNone => exact ⟨List.forall_mem_nil _, hAhead⟩
  | case2 ahead after hAfter fault hRead =>
    exact (hReader after (afterComma?_sound hAhead hAfter)).error hRead
  | case3 ahead after hAfter a middle hRead fault hMore ih =>
    obtain ⟨-, hMiddle⟩ := (hReader after (afterComma?_sound hAhead hAfter)).ok hRead
    exact (ih hMiddle).error hMore
  | case4 ahead after hAfter a middle hRead more final hMore ih =>
    obtain ⟨hFirst, hMiddle⟩ := (hReader after (afterComma?_sound hAhead hAfter)).ok hRead
    obtain ⟨hRest, hFinal⟩ := (ih hMiddle).ok hMore
    exact ⟨List.forall_mem_cons.2 ⟨hFirst, hRest⟩, hFinal⟩

theorem readList_outcome {reader : Reader α}
    (hReader : ∀ ahead, ahead.Sound limit → Outcome limit Good (reader.read ahead))
    (hAhead : ahead.Sound limit) :
    Outcome limit (fun values => ∀ a ∈ values, Good a) (readList reader ahead) := by
  unfold readList
  split
  · exact ⟨List.forall_mem_nil _, hAhead⟩
  · split
    · next hRead => exact (hReader ahead hAhead).error hRead
    · next hRead =>
      obtain ⟨hFirst, hMiddle⟩ := (hReader ahead hAhead).ok hRead
      split
      · next hMore => exact (readMore_outcome hReader hMiddle).error hMore
      · next hMore =>
        obtain ⟨hRest, hFinal⟩ := (readMore_outcome hReader hMiddle).ok hMore
        exact ⟨List.forall_mem_cons.2 ⟨hFirst, hRest⟩, hFinal⟩

/-! ## Operands and bytes -/

/-- An operand with its place, whose number, if it has one, is a literal. -/
structure OperandAt (limit : Nat) (operand : WrittenOperand) : Prop where
  location : operand.location.Within limit
  value_range : ∀ value, operand.written.value? = some value → 0 ≤ value ∧ value ≤ 0xFFFF

theorem operandAt_bare {token : Token} {written : Written} (hLive : token.Live)
    (hWithin : token.Within limit) (h : bare? token.lexeme = some written) :
    OperandAt limit ⟨written, token.location⟩ := by
  refine ⟨hWithin.location, ?_⟩
  intro value hValue
  cases hLexeme : token.lexeme <;> rw [hLexeme] at h <;> cases h <;> cases hValue
  exact hLive.number hLexeme

theorem operandAt_inner {token : Token} {written : Written} (hLive : token.Live)
    (hWithin : token.Within limit) (h : inner? token.lexeme = some written) :
    OperandAt limit ⟨written, token.location⟩ := by
  refine ⟨hWithin.location, ?_⟩
  intro value hValue
  cases hLexeme : token.lexeme <;> rw [hLexeme] at h <;> cases h <;> cases hValue
  exact hLive.number hLexeme

theorem readInner_outcome {opening : Location} {tokens : List Token}
    (hAhead : Ahead.Sound limit ⟨opening, tokens⟩) :
    Outcome limit (OperandAt limit) (readInner opening tokens) := by
  have hOpening : opening.Within (limit + 1) := hAhead.last.mono (Nat.le_succ _)
  unfold readInner
  split
  · exact ⟨Cause.told_of_nil rfl rfl, hOpening⟩
  · next inner rest =>
    obtain ⟨hLive, hWithin⟩ := hAhead.head rfl
    split
    · exact ⟨Cause.told_of_nil rfl rfl, hOpening⟩
    · split
      · exact ⟨Cause.told_of_nil rfl rfl, hWithin.location.mono (Nat.le_succ _)⟩
      · next written hInner =>
        have hClosing : Outcome limit (fun _ => True)
            (expect .closingParen (mark? .rightParen) ⟨inner.location, rest⟩) :=
          expect_mark_outcome (hAhead.tail rfl)
        split
        · next hExpect => exact hClosing.error hExpect
        · next hExpect => exact ⟨operandAt_inner hLive hWithin hInner, (hClosing.ok hExpect).2⟩

theorem readOperand_outcome (hAhead : ahead.Sound limit) :
    Outcome limit (OperandAt limit) (readOperand ahead) := by
  unfold readOperand
  split
  · exact ⟨Cause.told_of_nil rfl rfl, hAhead.last.next⟩
  · next token rest hTokens =>
    obtain ⟨hLive, hWithin⟩ := hAhead.head hTokens
    have hPlace := hWithin.location.mono (Nat.le_succ _)
    split
    · exact ⟨Cause.told_of_nil rfl rfl, hPlace⟩
    · split
      · next hBare => exact ⟨operandAt_bare hLive hWithin hBare, hAhead.tail hTokens⟩
      · exact readInner_outcome (hAhead.tail hTokens)
      · exact ⟨told_expected .operand hLive, hPlace⟩

theorem readByte_outcome (hAhead : ahead.Sound limit) :
    Outcome limit (fun value => 0 ≤ value) (readByte ahead) := by
  have hNumber : Outcome limit (NumberAt limit) (expect .byteValue number? ahead) :=
    expect_number_outcome hAhead
  unfold readByte
  split
  · next hExpect => exact hNumber.error hExpect
  · next hExpect =>
    obtain ⟨⟨hRange, hPlace⟩, hRest⟩ := hNumber.ok hExpect
    split
    · exact ⟨Cause.told_of_one rfl rfl (by omega), hPlace.mono (Nat.le_succ _)⟩
    · exact ⟨hRange.1, hRest⟩

/-! ## Commands -/

theorem culprit?_mem {form : Form} {operands : List WrittenOperand} {culprit : WrittenOperand}
    (h : form.culprit? operands = some culprit) : culprit ∈ operands := by
  unfold Form.culprit? at h
  split at h
  · split at h
    · cases h
    · obtain ⟨pair, hPair, rfl⟩ := Option.map_eq_some_iff.1 h
      exact (List.of_mem_zip (List.mem_of_find?_eq_some hPair)).1
  · cases h

/-- Where no form fits, an operand or the mnemonic is to blame. -/
theorem select_told {mnemonic : String} {operands : List WrittenOperand} {location place : Location}
    {cause : Cause} {hint : Option String} (hLocation : location.Within limit)
    (hOperands : ∀ operand ∈ operands, OperandAt limit operand)
    (h : Form.select mnemonic operands location = .error (cause, place, hint)) :
    cause.Told ∧ place.Within (limit + 1) := by
  unfold Form.select at h
  simp only at h
  split at h
  · cases h
  · split at h
    · next culprit hCulprit =>
      cases h
      obtain ⟨form, -, hForm⟩ := List.exists_of_findSome?_eq_some hCulprit
      have hAt := hOperands culprit (culprit?_mem hForm)
      refine ⟨Cause.told_of_one rfl rfl ?_, hAt.location.mono (Nat.le_succ _)⟩
      cases hValue : culprit.written.value? with
      | none => decide
      | some value =>
        have hRange := hAt.value_range value hValue
        simp only [Option.getD_some]
        omega
    · cases h
      refine ⟨?_, ?_⟩
      · split
        · exact Cause.told_of_nil rfl rfl
        · exact Cause.told_of_nil rfl rfl
      · cases operands with
        | nil => exact hLocation.mono (Nat.le_succ _)
        | cons operand more =>
          exact (hOperands operand List.mem_cons_self).location.mono (Nat.le_succ _)

theorem readInstruction_told {mnemonic : String} (hAhead : ahead.Sound limit)
    (h : readInstruction mnemonic ahead = .error fault) : fault.Told limit := by
  have hList : Outcome limit (fun operands => ∀ operand ∈ operands, OperandAt limit operand)
      (readList operandReader ahead) :=
    readList_outcome (fun _ hSound => readOperand_outcome hSound) hAhead
  unfold readInstruction at h
  split at h
  · next hRead =>
    cases h
    exact hList.error hRead
  · next hRead =>
    obtain ⟨hOperands, hRest⟩ := hList.ok hRead
    split at h
    · next hSelect =>
      cases h
      exact select_told hAhead.last hOperands hSelect
    · split at h
      · next hFinish =>
        cases h
        exact finish_told hRest hFinish
      · cases h

theorem readBytes_told (hAhead : ahead.Sound limit) (h : readBytes ahead = .error fault) :
    fault.Told limit := by
  have hList : Outcome limit (fun values => ∀ value ∈ values, 0 ≤ value)
      (readList byteReader ahead) :=
    readList_outcome (fun _ hSound => readByte_outcome hSound) hAhead
  unfold readBytes at h
  split at h
  · next hRead =>
    cases h
    exact hList.error hRead
  · next values rest hRead =>
    obtain ⟨hValues, hRest⟩ := hList.ok hRead
    split at h
    · next hFinish =>
      cases h
      exact finish_told hRest hFinish
    · split at h
      · next hNegative =>
        -- literals are not negative
        obtain ⟨value, hMem, hValue⟩ := List.any_eq_true.1 hNegative
        exact absurd (hValues value hMem) (by simpa using hValue)
      · split at h <;> cases h

/-- What UTF-8 refuses holds a surrogate. -/
theorem broken_of_refused {data : RefusedString} (h : data.encoding = .utf8) :
    ∃ text, data.literal = .broken text := by
  obtain ⟨literal, encoding, hRefused⟩ := data
  subst h
  cases literal with
  | text content => simp [accepts_text] at hRefused
  | broken content => exact ⟨content, rfl⟩

theorem readString_told {directive : String} {encoding : TextEncoding} (hAhead : ahead.Sound limit)
    (h : readString directive encoding ahead = .error fault) :
    fault.Told limit ∨
      encoding = .utf8 ∧ ∃ data, fault = .unencodable data ∧ Unencodable ahead.tokens data := by
  have hString : Outcome limit (fun found => found.2.Within limit)
      (expect .string string? ahead) :=
    expect_outcome hAhead fun _ _ _ hWithin _ => hWithin.location
  unfold readString at h
  split at h
  · next hExpect =>
    cases h
    exact .inl (hString.error hExpect)
  · next hExpect =>
    obtain ⟨hPlace, hRest⟩ := hString.ok hExpect
    split at h
    · next hFinish =>
      cases h
      exact .inl (finish_told hRest hFinish)
    · next hFinish =>
      split at h
      · cases h
      · next refused hRefused =>
        split at h
        · next hEncoding =>
          cases h
          obtain ⟨hLiteral, hSame⟩ := apply_eq_error.1 hRefused
          have hUtf8 := hSame.trans hEncoding
          obtain ⟨text, hBroken⟩ := broken_of_refused hUtf8
          obtain ⟨token, hTokens, hString, -, -⟩ := expect_ok_iff.1 hExpect
          refine .inr ⟨hEncoding, refused, rfl, ?_⟩
          rw [hTokens]
          refine .intro ?_ (finish_ok_iff.1 hFinish) hBroken hUtf8
          rw [string?_eq_some.1 hString, ← hLiteral, hBroken]
          rfl
        · cases h
          exact .inl ⟨Cause.told_of_nil rfl rfl, hPlace.mono (Nat.le_succ _)⟩

theorem readFill_told (hAhead : ahead.Sound limit) (h : readFill ahead = .error fault) :
    fault.Told limit := by
  have hNumber : Outcome limit (NumberAt limit) (expect .fillCount number? ahead) :=
    expect_number_outcome hAhead
  unfold readFill at h
  split at h
  · next hCount =>
    cases h
    exact hNumber.error hCount
  · next rest hCount =>
    have hComma : Outcome limit (fun _ => True) (expect .comma (mark? .comma) rest) :=
      expect_mark_outcome (hNumber.ok hCount).2
    split at h
    · next hMark =>
      cases h
      exact hComma.error hMark
    · next hMark =>
      have hByte := readByte_outcome (hComma.ok hMark).2
      split at h
      · next hValue =>
        cases h
        exact hByte.error hValue
      · next hValue =>
        split at h
        · next hFinish =>
          cases h
          exact finish_told (hByte.ok hValue).2 hFinish
        · cases h

theorem readPadding_outcome (hAhead : ahead.Sound limit) :
    Outcome limit (fun value => 0 ≤ value) (readPadding ahead) := by
  unfold readPadding
  split
  · next hAfter => exact readByte_outcome (afterComma?_sound hAhead hAfter)
  · exact ⟨Int.le_refl 0, hAhead⟩

theorem readOrigin_told (hAhead : ahead.Sound limit) (h : readOrigin ahead = .error fault) :
    fault.Told limit := by
  have hNumber : Outcome limit (NumberAt limit) (expect .targetAddress number? ahead) :=
    expect_number_outcome hAhead
  unfold readOrigin at h
  split at h
  · next hTarget =>
    cases h
    exact hNumber.error hTarget
  · next hTarget =>
    have hPadding := readPadding_outcome (hNumber.ok hTarget).2
    split at h
    · next hValue =>
      cases h
      exact hPadding.error hValue
    · next hValue =>
      split at h
      · next hFinish =>
        cases h
        exact finish_told (hPadding.ok hValue).2 hFinish
      · cases h

theorem readConstant_told (hAhead : ahead.Sound limit) (h : readConstant ahead = .error fault) :
    fault.Told limit := by
  have hName : Outcome limit (fun _ => True) (expect .constantName identifier? ahead) :=
    expect_outcome hAhead fun _ _ _ _ _ => trivial
  unfold readConstant at h
  split at h
  · next hExpect =>
    cases h
    exact hName.error hExpect
  · next rest hExpect =>
    have hComma : Outcome limit (fun _ => True) (expect .comma (mark? .comma) rest) :=
      expect_mark_outcome (hName.ok hExpect).2
    split at h
    · next hMark =>
      cases h
      exact hComma.error hMark
    · next after hMark =>
      have hNumber : Outcome limit (NumberAt limit) (expect .constantValue number? after) :=
        expect_number_outcome (hComma.ok hMark).2
      split at h
      · next hValue =>
        cases h
        exact hNumber.error hValue
      · next hValue =>
        split at h
        · next hFinish =>
          cases h
          exact finish_told (hNumber.ok hValue).2 hFinish
        · cases h

theorem readUse_told (hAhead : ahead.Sound limit) (h : readUse ahead = .error fault) :
    fault.Told limit := by
  have hString : Outcome limit (fun _ => True) (expect .fileName string? ahead) :=
    expect_outcome hAhead fun _ _ _ _ _ => trivial
  unfold readUse at h
  split at h
  · next hExpect =>
    cases h
    exact hString.error hExpect
  · next hExpect =>
    split at h
    · next hFinish =>
      cases h
      exact finish_told (hString.ok hExpect).2 hFinish
    · cases h

theorem readSection_told {name : String} (hAhead : ahead.Sound limit)
    (h : readSection name ahead = .error fault) : fault.Told limit := by
  unfold readSection at h
  split at h
  · next hFinish =>
    cases h
    exact finish_told hAhead hFinish
  · cases h

/-- A directive that the scanner knows is one that the grammar knows. -/
theorem readDirective_told {name : String} (hName : name ∈ Scan.directiveNames)
    (hAhead : ahead.Sound limit) (h : readDirective name ahead = .error fault) :
    fault.Told limit ∨
      name = ".utf8" ∧ ∃ data, fault = .unencodable data ∧ Unencodable ahead.tokens data := by
  have hOther {encoding : TextEncoding} {directive : String} (hEncoding : encoding ≠ .utf8)
      (hRead : readString directive encoding ahead = .error fault) : fault.Told limit :=
    (readString_told hAhead hRead).resolve_right fun hWanted => hEncoding hWanted.1
  unfold readDirective at h
  split at h
  · exact .inl (readBytes_told hAhead h)
  · exact .inl (hOther TextEncoding.noConfusion h)
  · exact .inl (hOther TextEncoding.noConfusion h)
  · exact (readString_told hAhead h).imp_right fun hWanted => ⟨rfl, hWanted.2⟩
  · exact .inl (readFill_told hAhead h)
  · exact .inl (readOrigin_told hAhead h)
  · exact .inl (readConstant_told hAhead h)
  · exact .inl (readUse_told hAhead h)
  · exact .inl (readSection_told hAhead h)
  · exact .inl (readSection_told hAhead h)
  · simp_all [Scan.directiveNames]

/-- Whatever keeps a statement from being read can be told, unless a text with a surrogate is wanted
as UTF-8. -/
theorem read_told {token : Token} {tokens : List Token}
    (hLive : ∀ other ∈ token :: tokens, other.Live)
    (hWithin : ∀ other ∈ token :: tokens, other.Within limit)
    (h : read token tokens = .error fault) :
    fault.Told limit ∨ token.lexeme = .directive ".utf8" ∧
      ∃ data, fault = .unencodable data ∧ Unencodable tokens data := by
  have hToken := hLive token List.mem_cons_self
  have hPlace := (hWithin token List.mem_cons_self).location
  have hAhead : Ahead.Sound limit ⟨token.location, tokens⟩ :=
    ⟨hPlace, fun other hMem => hLive other (List.mem_cons_of_mem _ hMem),
      fun other hMem => hWithin other (List.mem_cons_of_mem _ hMem)⟩
  unfold read at h
  split at h
  · next hCommand =>
    cases h
    unfold readCommand at hCommand
    split at hCommand
    · cases hCommand
    · cases hCommand
    · cases hCommand
    · exact .inl (readInstruction_told hAhead hCommand)
    · next name hName =>
      have hKnown : name ∈ Scan.directiveNames := by
        rcases hToken with hScanned | ⟨spot, hMark⟩
        · rw [hName] at hScanned
          exact hScanned
        · rw [hName] at hMark
          cases hMark
      refine (readDirective_told hKnown hAhead hCommand).imp_right ?_
      rintro ⟨rfl, hWanted⟩
      exact ⟨hName, hWanted⟩
    · cases hCommand
      exact .inl ⟨told_unexpectedStart hToken, hPlace.mono (Nat.le_succ _)⟩
  · cases h

/-- Wanting a text with a surrogate as UTF-8 keeps a statement from being read. -/
theorem read_of_unencodable {token : Token} {tokens : List Token} {data : RefusedString}
    (hToken : token.lexeme = .directive ".utf8") (h : Unencodable tokens data) :
    read token tokens = .error (.unencodable data) := by
  cases h with
  | @intro string tail rest text _ hString hEnds hLiteral hEncoding =>
    have hExpect : expect .string string? ⟨token.location, string :: tail⟩ =
        .ok ((.broken text, string.location), ⟨string.location, tail⟩) :=
      expect_ok_iff.2 ⟨string, rfl, string?_eq_some.2 hString, rfl, rfl⟩
    have hFinish : finish ⟨string.location, tail⟩ = .ok rest := finish_ok_iff.2 hEnds
    have hApply : TextEncoding.utf8.apply (.broken text) = .error data :=
      apply_eq_error.2 ⟨hLiteral, hEncoding⟩
    simp only [read, readCommand, hToken, readDirective, readString, hExpect, hFinish, hApply,
      if_true]

end
end Statement
end Lr35902
