import Lr35902.Proofs.FormSelection

/-!
Instructions with another literal. An instruction that has been placed is read again with another
number for one of its own (`Lexeme.withValue`). Its operands keep their shapes (`Arguments.retell`),
and a form of the same size takes them as far as shapes go: the same one, or the one for another bit
or restart vector (`Form.Fits.retell`). Then the form takes them and has room for the number, or a
number is to blame (`Form.select_of_matches`, `buildOperands_error`); as a form takes one number
only, it is the one that has been replaced. So the only diagnostics are about ranges and stand at
the literal (`Assembly.step_other_literal`).
-/
namespace Lr35902

theorem forall₂_append_left {α β : Type} {R : α → β → Prop} {front back : List α} {all : List β}
    (h : List.Forall₂ R (front ++ back) all) :
    ∃ first rest, all = first ++ rest ∧ List.Forall₂ R front first ∧ List.Forall₂ R back rest := by
  have hFront := List.forall₂_take front.length h
  have hBack := List.forall₂_drop front.length h
  rw [List.take_left] at hFront
  rw [List.drop_left] at hBack
  exact ⟨_, _, (List.take_append_drop front.length all).symm, hFront, hBack⟩

/-! ## Other values -/

/-- A lexeme with another number. -/
def Lexeme.withValue (value : Int) : Lexeme → Lexeme
  | .number _ => .number value
  | lexeme => lexeme

/-- An operand with another number. -/
def Written.withValue (value : Int) : Written → Written
  | .number _ => .number value
  | .address _ => .address value
  | written => written

/-- Another token for a token: it may stand elsewhere, and have another number. -/
def Token.Retold (value : Int) (token other : Token) : Prop :=
  other.lexeme = token.lexeme ∨ other.lexeme = token.lexeme.withValue value

/-- Another operand for an operand: it may stand elsewhere, and have another number. -/
def WrittenOperand.Retold (value : Int) (operand other : WrittenOperand) : Prop :=
  other.written = operand.written ∨ other.written = operand.written.withValue value

theorem Token.Retold.delimiter {value : Int} {token other : Token} (h : token.Retold value other)
    {mark : Delimiter} {spelling : Option String}
    (hToken : token.lexeme = .delimiter mark spelling) :
    other.lexeme = .delimiter mark spelling := by
  rcases h with hSame | hChanged
  · rw [hSame, hToken]
  · rw [hChanged, hToken]
    rfl

theorem Token.retold_literal {value other : Int} {place : Location}
    {before more others : List Token}
    (h : others.map Token.lexeme = more.map Token.lexeme) :
    List.Forall₂ (Token.Retold other) (before ++ ⟨.number value, place⟩ :: more)
      (before ++ ⟨.number other, place⟩ :: others) := by
  have hMapped : List.Forall₂ (fun lexeme other : Lexeme => other = lexeme)
      (more.map Token.lexeme) (others.map Token.lexeme) := by
    rw [h]
    exact List.forall₂_same.2 fun _ _ => rfl
  have hSame := List.forall₂_map_left_iff.1 (List.forall₂_map_right_iff.1 hMapped)
  apply List.rel_append (List.forall₂_same.2 fun _ _ => .inl rfl)
  exact .cons (.inr rfl) (hSame.imp fun _ _ => .inl)

namespace Statement
variable {value : Int}

theorem bare?_withValue (lexeme : Lexeme) :
    bare? (lexeme.withValue value) = (bare? lexeme).map (Written.withValue value) := by
  cases lexeme <;> rfl

theorem inner?_withValue (lexeme : Lexeme) :
    inner? (lexeme.withValue value) = (inner? lexeme).map (Written.withValue value) := by
  cases lexeme <;> rfl

/-- Other tokens spell an operand of the same shape. -/
theorem OperandSpelled.retell {tokens others : List Token} {operand : WrittenOperand}
    (h : OperandSpelled tokens operand)
    (hOthers : List.Forall₂ (Token.Retold value) tokens others) :
    ∃ other, OperandSpelled others other ∧ operand.Retold value other := by
  cases h with
  | @bare token written hBare =>
    obtain ⟨other, _, hOther, hNil, rfl⟩ := List.forall₂_cons_left_iff.1 hOthers
    obtain rfl := List.forall₂_nil_left_iff.1 hNil
    rcases hOther with hSame | hChanged
    · exact ⟨⟨written, other.location⟩, .bare (by rw [hSame, hBare]), .inl rfl⟩
    · refine ⟨⟨written.withValue value, other.location⟩, .bare ?_, .inr rfl⟩
      rw [hChanged, bare?_withValue, hBare]
      rfl
  | @inner opening inner closing left right written hLeft hInner hRight =>
    obtain ⟨opens, _, hOpens, hMore, rfl⟩ := List.forall₂_cons_left_iff.1 hOthers
    obtain ⟨other, _, hOther, hLast, rfl⟩ := List.forall₂_cons_left_iff.1 hMore
    obtain ⟨closes, _, hCloses, hNil, rfl⟩ := List.forall₂_cons_left_iff.1 hLast
    obtain rfl := List.forall₂_nil_left_iff.1 hNil
    have hLeft := hOpens.delimiter hLeft
    have hRight := hCloses.delimiter hRight
    rcases hOther with hSame | hChanged
    · exact ⟨⟨written, other.location⟩, .inner hLeft (by rw [hSame, hInner]) hRight, .inl rfl⟩
    · refine ⟨⟨written.withValue value, other.location⟩, .inner hLeft ?_ hRight, .inr rfl⟩
      rw [hChanged, inner?_withValue, hInner]
      rfl

theorem Separated.retell {body others : List Token} {operands : List WrittenOperand}
    (h : Separated OperandSpelled body operands)
    (hOthers : List.Forall₂ (Token.Retold value) body others) :
    ∃ retold, Separated OperandSpelled others retold ∧
      List.Forall₂ (WrittenOperand.Retold value) operands retold := by
  induction h generalizing others with
  | last hSpelled =>
    obtain ⟨other, hOther, hRetold⟩ := hSpelled.retell hOthers
    exact ⟨[other], .last hOther, .cons hRetold .nil⟩
  | more hSpelled hComma _ ih =>
    obtain ⟨first, _, rfl, hFirst, hMore⟩ := forall₂_append_left hOthers
    obtain ⟨comma, rest, hOther, hRest, rfl⟩ := List.forall₂_cons_left_iff.1 hMore
    obtain ⟨operand, hOperand, hRetold⟩ := hSpelled.retell hFirst
    obtain ⟨more, hSeparated, hOperands⟩ := ih hRest
    exact ⟨operand :: more, .more hOperand (hOther.delimiter hComma) hSeparated,
      .cons hRetold hOperands⟩

theorem Arguments.retell {body others : List Token} {operands : List WrittenOperand}
    (h : Arguments OperandSpelled body operands)
    (hOthers : List.Forall₂ (Token.Retold value) body others) :
    ∃ retold, Arguments OperandSpelled others retold ∧
      List.Forall₂ (WrittenOperand.Retold value) operands retold := by
  cases h with
  | none =>
    obtain rfl := List.forall₂_nil_left_iff.1 hOthers
    exact ⟨[], .none, .nil⟩
  | some hSeparated =>
    obtain ⟨retold, hRetold, hOperands⟩ := hSeparated.retell hOthers
    exact ⟨retold, .some hRetold, hOperands⟩

/-! ## The literal in its statement -/

theorem OperandSpelled.literal {tokens : List Token} {operand : WrittenOperand}
    (h : OperandSpelled tokens operand) {token : Token} (hToken : token ∈ tokens) {number : Int}
    (hNumber : token.lexeme = .number number) :
    operand.isLiteral = true ∧ operand.location = token.location := by
  cases h with
  | bare hBare =>
    obtain rfl := List.mem_singleton.1 hToken
    rw [hNumber] at hBare
    cases hBare
    exact ⟨rfl, rfl⟩
  | inner hLeft hInner hRight =>
    rcases List.mem_cons.1 hToken with rfl | hToken
    · rw [hNumber] at hLeft
      cases hLeft
    rcases List.mem_cons.1 hToken with rfl | hToken
    · rw [hNumber] at hInner
      cases hInner
      exact ⟨rfl, rfl⟩
    · obtain rfl := List.mem_singleton.1 hToken
      rw [hNumber] at hRight
      cases hRight

/-- A number in the body of an instruction is an operand that stands where the number does. -/
theorem Arguments.literal {body : List Token} {operands : List WrittenOperand}
    (h : Arguments OperandSpelled body operands) {token : Token} (hToken : token ∈ body)
    {number : Int} (hNumber : token.lexeme = .number number) :
    ∃ operand ∈ operands, operand.isLiteral = true ∧ operand.location = token.location := by
  cases h with
  | none => exact absurd hToken List.not_mem_nil
  | some hSeparated =>
    induction hSeparated with
    | last hSpelled => exact ⟨_, List.mem_singleton_self _, hSpelled.literal hToken hNumber⟩
    | more hSpelled hComma _ ih =>
      rcases List.mem_append.1 hToken with hFirst | hRest
      · exact ⟨_, List.mem_cons_self, hSpelled.literal hFirst hNumber⟩
      · rcases List.mem_cons.1 hRest with rfl | hRest
        · rw [hNumber] at hComma
          cases hComma
        · obtain ⟨operand, hMem, hLiteral⟩ := ih hRest
          exact ⟨operand, List.mem_cons_of_mem _ hMem, hLiteral⟩

theorem Ends.endsStatement {token : Token} {tail rest : List Token}
    (h : Ends (token :: tail) rest) :
    token.lexeme.endsStatement = true :=
  h.atEnd token.location

/-- A statement reaches at least as far as tokens go on that do not end it. -/
theorem Ends.body_eq {before behind body tail rest : List Token} {token : Token}
    (h : Ends tail rest) (hTokens : before ++ token :: behind = body ++ tail)
    (hBefore : ∀ other ∈ before, other.lexeme.endsStatement = false)
    (hToken : token.lexeme.endsStatement = false) :
    ∃ more, body = before ++ token :: more ∧ behind = more ++ tail := by
  have hHead {first : Token} {following : List Token} (hTail : tail = first :: following) :
      first.lexeme.endsStatement ≠ false := by
    subst hTail
    rw [h.endsStatement]
    exact Bool.noConfusion
  rcases List.append_eq_append_iff.1 hTokens with ⟨more, hBody, hMore⟩ | ⟨inside, hInside, hTail⟩
  · cases more with
    | nil => exact absurd hToken (hHead hMore.symm)
    | cons first more =>
      obtain ⟨rfl, hBehind⟩ := List.cons.inj hMore
      exact ⟨more, hBody, hBehind⟩
  · cases inside with
    | nil => exact absurd hToken (hHead hTail)
    | cons first inside =>
      exact absurd (hBefore first (by rw [hInside]; simp)) (hHead hTail)

theorem Ends.relex {tail rest others : List Token} (h : Ends tail rest)
    (hOthers : others.map Token.lexeme = tail.map Token.lexeme) :
    ∃ left, Ends others left ∧ left.map Token.lexeme = rest.map Token.lexeme := by
  cases h with
  | input =>
    obtain rfl := List.map_eq_nil_iff.1 hOthers
    exact ⟨[], .input, rfl⟩
  | line hLine =>
    obtain ⟨other, left, rfl, hOther, hLeft⟩ := List.map_eq_cons_iff.1 hOthers
    exact ⟨left, .line (hOther.trans hLine), hLeft⟩
  | file hFile =>
    obtain ⟨other, left, rfl, hOther, hLeft⟩ := List.map_eq_cons_iff.1 hOthers
    exact ⟨other :: left, .file (hOther.trans hFile), hOthers⟩

end Statement

/-! ## The forms of another index -/

/-- The class for another bit or restart vector. -/
def OperandClass.withIndex (j : Fin 8) : OperandClass → OperandClass
  | .bit _ => .bit j
  | .vector _ => .vector j
  | cls => cls

theorem OperandClass.withIndex_eq {cls : OperandClass} (h : cls.takesNumber = false) (j : Fin 8) :
    cls.withIndex j = cls := by
  cases cls with
  | bit | vector => cases h
  | _ => rfl

theorem Form.exists_bit {form : Form} (h : form ∈ bitForms) (j : Fin 8) :
    ∃ same ∈ bitForms, same.mnemonic = form.mnemonic ∧
      same.operands = form.operands.map (OperandClass.withIndex j) ∧ same.size = form.size := by
  have hTarget : ∀ cls ∈ gridOperands, ∀ j : Fin 8, cls.withIndex j = cls := by decide
  obtain ⟨⟨mnemonic, group⟩, hRow, hForms⟩ := List.mem_flatMap.1 h
  obtain ⟨i, -, hForms⟩ := List.mem_flatMap.1 hForms
  obtain ⟨⟨target, column⟩, hColumn, rfl⟩ := List.mem_map.1 hForms
  refine ⟨⟨mnemonic, [.bit j, target], [0xCB, (0x40 * (group + 1) + 8 * j.val + column).toUInt8]⟩,
    List.mem_flatMap.2 ⟨(mnemonic, group), hRow, ?_⟩, rfl, ?_, rfl⟩
  · refine List.mem_flatMap.2 ⟨j, List.mem_finRange j, ?_⟩
    exact List.mem_map.2 ⟨(target, column), hColumn, rfl⟩
  · rw [List.map_cons, List.map_singleton, hTarget target (List.fst_mem_of_mem_zipIdx hColumn) j]
    rfl

/-- The form for a restart vector. -/
def Form.restart (i : Fin 8) : Form := ⟨.rst, [.vector i], [(0xC7 + 8 * i.val).toUInt8]⟩

/-- Every bit and every restart vector has its form, and these forms have one size. -/
theorem Form.exists_withIndex {form : Form} (h : form ∈ table) (j : Fin 8) :
    ∃ same ∈ table, same.mnemonic = form.mnemonic ∧
      same.operands = form.operands.map (OperandClass.withIndex j) ∧ same.size = form.size := by
  have hRows : ∀ form ∈ lowForms ++ moveForms ++ arithmeticForms ++ highForms ++ rotateForms,
      (∀ j : Fin 8, form.operands = form.operands.map (OperandClass.withIndex j)) ∨
        ∃ i, form = restart i := by
    decide +kernel
  have hRestart : ∀ j : Fin 8, restart j ∈ table := by decide +kernel
  rcases List.mem_append.1 h with hRow | hBit
  · rcases hRows form hRow with hFixed | ⟨i, rfl⟩
    · exact ⟨form, h, rfl, hFixed j, rfl⟩
    · exact ⟨restart j, hRestart j, rfl, rfl, rfl⟩
  · obtain ⟨same, hSame, hRest⟩ := exists_bit hBit j
    exact ⟨same, List.mem_append_right _ hSame, hRest⟩

section
variable {value : Int} {operand other : WrittenOperand} {cls : OperandClass}

theorem Written.withValue_eq {written : Written} (h : written.value?.isSome = false) :
    written.withValue value = written := by
  cases written with
  | number | address => cases h
  | _ => rfl

/-- An operand that is no number keeps its class, whatever the index. -/
theorem WrittenOperand.Retold.ne_mismatch_of_fixed (h : operand.Retold value other)
    (hFits : operand.written.fit cls = .fits) (hFixed : cls.takesNumber = false) (j : Fin 8) :
    other.written.fit (cls.withIndex j) ≠ .mismatch := by
  have hValue : operand.written.value?.isSome = false := by
    by_contra hNumber
    rw [Bool.not_eq_false] at hNumber
    rw [Written.takesNumber_of_fit (by rw [hFits]; decide) hNumber] at hFixed
    cases hFixed
  have hSame : other.written = operand.written := by
    rcases h with hSame | hChanged
    · exact hSame
    · rw [hChanged, Written.withValue_eq hValue]
  rw [OperandClass.withIndex_eq hFixed, hSame, hFits]
  decide

theorem OperandClass.exists_withIndex_eq (cls : OperandClass) : ∃ j, cls.withIndex j = cls := by
  cases cls with
  | bit i => exact ⟨i, rfl⟩
  | vector i => exact ⟨i, rfl⟩
  | _ => exact ⟨0, rfl⟩

/-- A number in place of another one has the same shape, for the index that it selects. -/
theorem Written.exists_index {written : Written} (hFits : written.fit cls = .fits)
    (hNumber : written.value?.isSome = true) (hValue : 0 ≤ value) :
    ∃ j, (written.withValue value).fit (cls.withIndex j) ≠ .mismatch := by
  cases written with
  | number old =>
    cases cls with
    | word | relative => exact ⟨0, Fit.noConfusion⟩
    | byte =>
      refine ⟨0, ?_⟩
      change (if 0xFF < value then Fit.outOfRange else .fits) ≠ .mismatch
      split <;> decide
    | bit i =>
      by_cases hWide : 7 < value
      · refine ⟨0, ?_⟩
        change (if 7 < value then Fit.outOfRange else .when (value == _)) ≠ .mismatch
        rw [if_pos hWide]
        decide
      · refine ⟨⟨value.toNat, by omega⟩, ?_⟩
        change (if 7 < value then Fit.outOfRange else .when (value == (value.toNat : Int))) ≠
          .mismatch
        rw [if_neg hWide, Int.toNat_of_nonneg hValue, beq_self_eq_true]
        decide
    | vector i =>
      by_cases hVector : (OperandClass.octet.any fun j => value == 8 * (j.val : Int)) = true
      · obtain ⟨j, -, hIndex⟩ := List.any_eq_true.1 hVector
        refine ⟨j, ?_⟩
        change (if (OperandClass.octet.any fun j => value == 8 * (j.val : Int)) = true then
          Fit.when (value == 8 * (j.val : Int)) else .outOfRange) ≠ .mismatch
        rw [if_pos hVector, hIndex]
        decide
      · refine ⟨0, ?_⟩
        change (if (OperandClass.octet.any fun j => value == 8 * (j.val : Int)) = true then
          Fit.when _ else .outOfRange) ≠ .mismatch
        rw [if_neg hVector]
        decide
    | _ => cases hFits
  | address old =>
    cases cls with
    | memory => exact ⟨0, Fit.noConfusion⟩
    | high =>
      refine ⟨0, ?_⟩
      change (if (highOffset? value).isNone then Fit.outOfRange else .fits) ≠ .mismatch
      split <;> decide
    | _ => cases hFits
  | _ => cases hNumber

theorem WrittenOperand.Retold.exists_index (h : operand.Retold value other)
    (hFits : operand.written.fit cls = .fits) (hValue : 0 ≤ value) :
    ∃ j, other.written.fit (cls.withIndex j) ≠ .mismatch := by
  have hOwn (hSame : other.written = operand.written) :
      ∃ j, other.written.fit (cls.withIndex j) ≠ .mismatch := by
    obtain ⟨j, hIndex⟩ := cls.exists_withIndex_eq
    exact ⟨j, by rw [hIndex, hSame, hFits]; decide⟩
  rcases h with hSame | hChanged
  · exact hOwn hSame
  · cases hNumber : operand.written.value?.isSome with
    | true =>
      rw [hChanged]
      exact Written.exists_index hFits hNumber hValue
    | false => exact hOwn (by rw [hChanged, Written.withValue_eq hNumber])

end

/-! ## The form for another literal -/

section
variable {value : Int} {operands others : List WrittenOperand} {classes : List OperandClass}

theorem matches_of_fixed
    (hFits : List.Forall₂ (fun operand cls => operand.written.fit cls = .fits) operands classes)
    (hOthers : List.Forall₂ (WrittenOperand.Retold value) operands others)
    (hFixed : classes.countP OperandClass.takesNumber = 0) (j : Fin 8) :
    List.Forall₂ (fun operand cls => operand.written.fit cls ≠ .mismatch) others
      (classes.map (OperandClass.withIndex j)) := by
  induction hFits generalizing others with
  | nil =>
    obtain rfl := List.forall₂_nil_left_iff.1 hOthers
    exact .nil
  | cons hFirst _ ih =>
    obtain ⟨other, rest, hOther, hRest, rfl⟩ := List.forall₂_cons_left_iff.1 hOthers
    rw [List.countP_cons] at hFixed
    split at hFixed
    · omega
    · next hNumber =>
      exact .cons (hOther.ne_mismatch_of_fixed hFirst (by simpa using hNumber) j) (ih hRest hFixed)

/-- One number at most is replaced, so one index serves for all the classes. -/
theorem exists_matches_of_fits
    (hFits : List.Forall₂ (fun operand cls => operand.written.fit cls = .fits) operands classes)
    (hOthers : List.Forall₂ (WrittenOperand.Retold value) operands others)
    (hCount : classes.countP OperandClass.takesNumber ≤ 1) (hValue : 0 ≤ value) :
    ∃ j, List.Forall₂ (fun operand cls => operand.written.fit cls ≠ .mismatch) others
      (classes.map (OperandClass.withIndex j)) := by
  induction hFits generalizing others with
  | nil =>
    obtain rfl := List.forall₂_nil_left_iff.1 hOthers
    exact ⟨0, .nil⟩
  | cons hFirst hMore ih =>
    obtain ⟨other, rest, hOther, hRest, rfl⟩ := List.forall₂_cons_left_iff.1 hOthers
    rw [List.countP_cons] at hCount
    split at hCount
    · obtain ⟨j, hIndex⟩ := hOther.exists_index hFirst hValue
      exact ⟨j, .cons hIndex (matches_of_fixed hMore hRest (by omega) j)⟩
    · next hNumber =>
      obtain ⟨j, hMatch⟩ := ih hRest hCount
      exact ⟨j, .cons (hOther.ne_mismatch_of_fixed hFirst (by simpa using hNumber) j) hMatch⟩

/-- A form of the same size takes the operands, as far as shapes go. -/
theorem Form.Fits.retell {form : Form} (h : form.Fits operands) (hTable : form ∈ table)
    (hOthers : List.Forall₂ (WrittenOperand.Retold value) operands others) (hValue : 0 ≤ value) :
    ∃ same ∈ table, same.mnemonic = form.mnemonic ∧ same.size = form.size ∧
      same.Matches others := by
  obtain ⟨j, hMatches⟩ := exists_matches_of_fits h hOthers (countP_takesNumber hTable) hValue
  obtain ⟨same, hSame, hMnemonic, hOperands, hSize⟩ := exists_withIndex hTable j
  refine ⟨same, hSame, hMnemonic, hSize, ?_⟩
  rw [Matches, hOperands]
  exact hMatches

/-- Where a form matches, it is chosen, or a number is out of range. -/
theorem Form.select_of_matches {mnemonic : String} {form : Form} (hForm : form ∈ ofName mnemonic)
    (h : form.Matches operands) (location : Location) :
    select mnemonic operands location = .ok form ∨
      ∃ literal ∈ operands, literal.isLiteral = true ∧ ∃ cause hint, cause.kind = .range ∧
        select mnemonic operands location = .error (cause, literal.location, hint) := by
  by_cases hFits : form.Fits operands
  · left
    apply select_ok_iff.2
    apply find?_eq_some_of_unique hForm (accepts_iff.2 hFits)
    intro other hOther hAccepts
    exact eq_of_accepts hOther hForm (accepts_iff.1 hAccepts) h
  · right
    have hNone : ((ofName mnemonic).find? fun form => form.accepts operands) = none := by
      rw [List.find?_eq_none]
      intro other hOther hAccepts
      have hFits' := accepts_iff.1 hAccepts
      rw [eq_of_accepts hOther hForm hFits' h] at hFits'
      exact hFits hFits'
    have hFound : ((ofName mnemonic).findSome? fun form => form.culprit? operands).isSome = true :=
      List.findSome?_isSome_iff.2
        ⟨form, hForm, Option.isSome_iff_ne_none.2 (h.culprit?_ne_none hFits)⟩
    obtain ⟨literal, hLiteral⟩ := Option.isSome_iff_exists.1 hFound
    obtain ⟨_, _, hCulprit⟩ := List.exists_of_findSome?_eq_some hLiteral
    obtain ⟨-, hMem, hNumber⟩ := culprit?_some hCulprit
    refine ⟨literal, hMem, hNumber,
      .operandOutOfRange (literal.written.value?.getD 0) mnemonic, none, rfl, ?_⟩
    rw [select_eq_selectAmong, selectAmong, hNone]
    simp only [hLiteral]

theorem NumberKind.convert_error {kind : NumberKind} {referent : Referent} {next : Int}
    {objection : Objection} (h : kind.convert referent next = .error objection) :
    objection.cause.kind = .range := by
  cases kind with
  | immediate8 =>
    simp only [convert] at h
    split at h
    · cases h
      rfl
    · cases h
  | address8 =>
    simp only [convert] at h
    split at h
    · cases h
    · cases h
      rfl
  | relative =>
    simp only [convert] at h
    split at h
    · cases h
    · cases h
      rfl
  | immediate16 | address16 | bit | vector => cases h

/-- Only numbers are refused when operands are built, for their ranges. -/
theorem WrittenOperand.build_error {operand : WrittenOperand} {cls : OperandClass} {next : Int}
    {objection : Objection} (h : operand.build cls next = .error objection) :
    operand.isLiteral = true ∧ objection.cause.kind = .range := by
  cases hRole : cls.role with
  | implied implied =>
    rw [build_implied hRole] at h
    cases h
  | slot kind =>
    rw [build_slot hRole] at h
    unfold fill at h
    split at h
    case h_1 | h_2 =>
      next hWritten =>
      split at h
      · cases h
      · next hConvert =>
        cases h
        exact ⟨by rw [isLiteral, hWritten]; rfl, NumberKind.convert_error hConvert⟩
    all_goals cases h

theorem buildOperands_error {next : Int} {objection : Objection} {place : Location}
    (h : buildOperands next operands classes = .error (objection, place)) :
    ∃ literal ∈ operands, literal.isLiteral = true ∧ literal.location = place ∧
      objection.cause.kind = .range := by
  induction operands generalizing classes with
  | nil => cases h
  | cons operand operands ih =>
    cases classes with
    | nil => cases h
    | cons cls classes =>
      rw [buildOperands] at h
      split at h
      · next hBuild =>
        cases h
        obtain ⟨hLiteral, hKind⟩ := WrittenOperand.build_error hBuild
        exact ⟨operand, List.mem_cons_self, hLiteral, rfl, hKind⟩
      · split at h
        · next hMore =>
          cases h
          obtain ⟨literal, hMem, hLiteral⟩ := ih hMore
          exact ⟨literal, List.mem_cons_of_mem _ hMem, hLiteral⟩
        · cases h

end

/-! ## Statements with another literal -/

namespace Assembly
variable {surroundings : Surroundings} {state after : State} {head : Token} {mnemonic : String}

theorem step_mnemonic (hHead : head.lexeme = .mnemonic mnemonic) (tokens : List Token) :
    state.step surroundings head tokens =
      match Statement.readInstruction mnemonic ⟨head.location, tokens⟩ with
      | .error fault => .error (state.ofReading fault)
      | .ok (command, rest) =>
        State.perform surroundings { state with tokens := rest } ⟨head.location, command⟩ := by
  simp only [State.step, Statement.read, Statement.readCommand, hHead]
  cases Statement.readInstruction mnemonic ⟨head.location, tokens⟩ with
  | error fault => rfl
  | ok found => rfl

/-- An instruction whose operands are spelled right is placed in the form that they choose. -/
theorem step_instruction (hHead : head.lexeme = .mnemonic mnemonic) {body tail rest : List Token}
    {operands : List WrittenOperand}
    (hArguments : Statement.Arguments Statement.OperandSpelled body operands)
    (hEnds : Statement.Ends tail rest) :
    state.step surroundings head (body ++ tail) =
      match Form.select mnemonic operands head.location with
      | .error (cause, location, hint) => .error (state.diagnose cause location hint)
      | .ok form =>
        State.placeInstruction { state with tokens := rest } head.location mnemonic form
          operands := by
  have hList : ∃ middle, Statement.readList Statement.operandReader ⟨head.location, body ++ tail⟩ =
      .ok (operands, middle) ∧ Statement.finish middle = .ok rest :=
    (Statement.readList_ok_iff Statement.operandReader_takes).2
      ⟨body, tail, rfl, hArguments, hEnds⟩
  obtain ⟨middle, hList, hFinish⟩ := hList
  rw [step_mnemonic hHead]
  simp only [Statement.readInstruction, hList]
  cases Form.select mnemonic operands head.location with
  | error fault => rfl
  | ok form =>
    simp only [hFinish]
    rfl

theorem step_instruction_ok (hHead : head.lexeme = .mnemonic mnemonic) {tokens : List Token}
    (h : state.step surroundings head tokens = .ok after) :
    ∃ body tail rest operands form, tokens = body ++ tail ∧
      Statement.Arguments Statement.OperandSpelled body operands ∧ Statement.Ends tail rest ∧
      Form.select mnemonic operands head.location = .ok form ∧
      State.placeInstruction { state with tokens := rest } head.location mnemonic form operands =
        .ok after := by
  rw [step_mnemonic hHead] at h
  split at h
  · cases h
  · next command rest hRead =>
    obtain ⟨body, tail, hTokens, ⟨hArguments, hForm⟩, hEnds⟩ :=
      Statement.readInstruction_ok_iff.1 hRead
    exact ⟨body, tail, rest, _, _, hTokens, hArguments, hEnds, hForm, h⟩

theorem State.placeInstruction_ok {location : Location} {form : Form}
    {operands : List WrittenOperand}
    (h : state.placeInstruction location mnemonic form operands = .ok after) :
    state.program.location + form.size ≤ memorySize ∧
      ∃ built, after = { state with
        program := state.program.append
          (state.program.itemAt location (.instruction mnemonic built form.size)) } := by
  obtain ⟨built, -, hPlace⟩ := placeInstruction_ok_iff.1 h
  obtain ⟨hRoom, hAfter⟩ := place_ok_iff.1 hPlace
  exact ⟨hRoom, built, hAfter⟩

/-- Where there is room for an instruction, it is placed, or a number is refused for its range. -/
theorem State.placeInstruction_of_room {location : Location} {form : Form}
    (operands : List WrittenOperand) (hRoom : state.program.location + form.size ≤ memorySize) :
    (∃ after, state.placeInstruction location mnemonic form operands = .ok after) ∨
      ∃ literal ∈ operands, literal.isLiteral = true ∧ ∃ cause hint, cause.kind = .range ∧
        state.placeInstruction location mnemonic form operands =
          .error (state.diagnose cause literal.location hint) := by
  cases hBuilt : buildOperands (state.program.location + form.size) operands form.operands with
  | ok built =>
    exact .inl ⟨_, placeInstruction_ok_iff.2 ⟨built, hBuilt, place_ok_iff.2 ⟨hRoom, rfl⟩⟩⟩
  | error failure =>
    obtain ⟨objection, place⟩ := failure
    obtain ⟨literal, hMem, hLiteral, rfl, hKind⟩ := buildOperands_error hBuilt
    refine .inr ⟨literal, hMem, hLiteral, objection.cause, objection.hint, hKind, ?_⟩
    rw [placeInstruction, hBuilt]

/-- Where an instruction is placed, it is also placed with any other number for one of its own, at
the same address and with the same size, or the number is refused: the only diagnostic is about a
range, and it stands at this number. The other instruction may belong to another program, and the
tokens after the number may stand elsewhere. -/
theorem step_other_literal (beside : State) {before behind : List Token} (others : List Token)
    {value : Int} (other : Int) {place : Location} (hHead : head.lexeme = .mnemonic mnemonic)
    (hBefore : ∀ token ∈ before, token.lexeme.endsStatement = false)
    (hStep : state.step surroundings head (before ++ ⟨.number value, place⟩ :: behind) = .ok after)
    (hOthers : others.map Token.lexeme = behind.map Token.lexeme)
    (hAddress : beside.program.location = state.program.location) (hOther : 0 ≤ other) :
    ∃ size operands, after.program = state.program.append
        (state.program.itemAt head.location (.instruction mnemonic operands size)) ∧
      ((∃ again built,
          beside.step surroundings head (before ++ ⟨.number other, place⟩ :: others) = .ok again ∧
          again.program = beside.program.append
            (beside.program.itemAt head.location (.instruction mnemonic built size)) ∧
          again.tokens.map Token.lexeme = after.tokens.map Token.lexeme) ∨
        ∃ cause hint, cause.kind = .range ∧
          beside.step surroundings head (before ++ ⟨.number other, place⟩ :: others) =
            .error (beside.diagnose cause place hint)) := by
  obtain ⟨body, tail, rest, operands, form, hTokens, hArguments, hEnds, hForm, hPlaced⟩ :=
    step_instruction_ok hHead hStep
  obtain ⟨more, rfl, rfl⟩ := hEnds.body_eq hTokens hBefore rfl
  obtain ⟨hTable, rfl, hFits⟩ := Form.select_ok hForm
  obtain ⟨hRoom, built, rfl⟩ := State.placeInstruction_ok hPlaced
  -- the tokens after the number, in the statement and behind it
  rw [List.map_append] at hOthers
  obtain ⟨inside, outside, rfl, hInside, hOutside⟩ := List.map_eq_append_iff.1 hOthers
  obtain ⟨left, hLeft, hLexemes⟩ := hEnds.relex hOutside
  obtain ⟨retold, hRetold, hOperands⟩ := hArguments.retell (Token.retold_literal hInside)
  obtain ⟨same, hSame, hMnemonic, hSize, hMatches⟩ := hFits.retell hTable hOperands hOther
  -- any number that is refused is the one that has been replaced
  obtain ⟨literal, hLiteral, hNumber, hPlace⟩ := hRetold.literal
    (List.mem_append_right before List.mem_cons_self) rfl
  have hUnique {refused : WrittenOperand} (hMem : refused ∈ retold)
      (hRefused : refused.isLiteral = true) : refused.location = place := by
    rw [hMatches.literal_eq hSame hMem hLiteral hRefused hNumber, hPlace]
  have hAgain : beside.step surroundings head
      ((before ++ ⟨.number other, place⟩ :: inside) ++ outside) = _ :=
    step_instruction hHead hRetold hLeft
  rw [List.append_assoc, List.cons_append] at hAgain
  refine ⟨form.size, built, rfl, ?_⟩
  rw [hAgain]
  have hName : same ∈ Form.ofName form.mnemonic.name := Form.mem_ofName.2 ⟨hSame, by rw [hMnemonic]⟩
  rcases Form.select_of_matches hName hMatches head.location with
    hSelect | ⟨refused, hMem, hRefused, cause, hint, hKind, hSelect⟩
  · rw [hSelect]
    let ahead : State := { beside with tokens := left }
    have hRoom : ahead.program.location + same.size ≤ memorySize := by
      rw [hSize]
      exact hAddress ▸ hRoom
    rcases State.placeInstruction_of_room retold hRoom with
      ⟨again, hAgain⟩ | ⟨refused, hMem, hRefused, cause, hint, hKind, hFault⟩
    · obtain ⟨-, found, rfl⟩ := State.placeInstruction_ok hAgain
      refine .inl ⟨_, found, hAgain, ?_, hLexemes⟩
      rw [← hSize]
    · rw [← hUnique hMem hRefused]
      exact .inr ⟨cause, hint, hKind, hFault⟩
  · rw [hSelect, ← hUnique hMem hRefused]
    exact .inr ⟨cause, hint, hKind, rfl⟩

/-- A jump on a condition reaches address `0x10` from the start, and does not reach `0x1000`. -/
theorem step_other_literal_jump :
    let place : Location := ⟨"<input>", 1, 8⟩
    let head : Token := ⟨.mnemonic "jr", ⟨"<input>", 1, 1⟩⟩
    let before : List Token :=
      [⟨.flag "nz", ⟨"<input>", 1, 4⟩⟩, ⟨Delimiter.comma.lexeme, ⟨"<input>", 1, 6⟩⟩]
    let state : State := ⟨[], .empty, [], [], []⟩
    (∃ after, state.step ⟨.empty, [], none⟩ head
        (before ++ [⟨.number 0x10, place⟩, ⟨.newline, ⟨"<input>", 1, 12⟩⟩]) = .ok after ∧
      after.program.location = 2) ∧
    ∃ cause hint, cause.kind = .range ∧
      state.step ⟨.empty, [], none⟩ head
        (before ++ [⟨.number 0x1000, place⟩, ⟨.newline, ⟨"<input>", 1, 14⟩⟩]) =
          .error (state.diagnose cause place hint) := by
  intro place head before state
  have hReach : ((state.step ⟨.empty, [], none⟩ head
      (before ++ [⟨.number 0x10, place⟩, ⟨.newline, ⟨"<input>", 1, 12⟩⟩])).toOption.map
        fun after => after.program.location) = some 2 := by decide +kernel
  have hFar : (state.step ⟨.empty, [], none⟩ head
      (before ++ [⟨.number 0x1000, place⟩, ⟨.newline, ⟨"<input>", 1, 14⟩⟩])).toOption.isSome =
        false := by decide +kernel
  obtain ⟨after, hStep, hLocation⟩ := Option.map_eq_some_iff.1 hReach
  have hStep := eq_ok_of_toOption hStep
  refine ⟨⟨after, hStep, hLocation⟩, ?_⟩
  have hBefore : ∀ token ∈ before, token.lexeme.endsStatement = false := by decide
  obtain ⟨_, _, -, hPlaced | hRefused⟩ := step_other_literal state
    [⟨.newline, ⟨"<input>", 1, 14⟩⟩] 0x1000 rfl hBefore hStep rfl rfl (by decide)
  · obtain ⟨again, _, hAgain, -⟩ := hPlaced
    rw [hAgain] at hFar
    cases hFar
  · exact hRefused

end Assembly
end Lr35902
