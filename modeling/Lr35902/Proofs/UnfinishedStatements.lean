import Lr35902.Proofs.Trace

/-!
Statements that break off. Where the tokens run out in the middle of a statement, something is
missing of it: an operand or part of one, a number, a string, a comma or a name. `Lacks` says what,
by the grammar, and which cause is given for it. Reading such tokens fails for that cause
(`read_of_lacks`), and no other tokens are refused with the end of the input as the cause
(`lacks_of_read`).
-/
namespace Lr35902

/-- A cause that tells of the end of the input. A missing operand does so where no line ends. -/
inductive Cause.RunsOut (tokens : List Token) : Cause → Prop
  | expected (what : Expectation) : RunsOut tokens (.expected what none)
  | operand : (∀ token ∈ tokens, token.lexeme.endsStatement = false) →
    RunsOut tokens .missingOperand

/-- The place of a cause at the end of the input, by the place of the last token. Parentheses that
hold nothing are shown where they open, and all else one column after that place. -/
def Cause.placeAtEnd (last : Location) : Cause → Location
  | .emptyParentheses => last
  | _ => last.next

theorem Cause.RunsOut.tail {tokens rest : List Token} {cause : Cause}
    (h : cause.RunsOut (tokens ++ rest)) : cause.RunsOut rest := by
  cases h with
  | expected what => exact .expected what
  | operand hNone => exact .operand fun token hMem => hNone token (List.mem_append_right _ hMem)

namespace Statement

/-! ## What may be missing -/

/-- Nothing is there of what the grammar expects. -/
inductive Missing (what : Expectation) : List Token → Cause → Prop
  | intro : Missing what [] (.expected what none)

/-- The start of an operand. -/
inductive OperandLacks : List Token → Cause → Prop
  | operand : OperandLacks [] .missingOperand
  | inner {opening : Token} {left : Option String} :
    opening.lexeme = .delimiter .leftParen left → OperandLacks [opening] .emptyParentheses
  | closing {opening inner : Token} {left : Option String} {written : Written} :
    opening.lexeme = .delimiter .leftParen left → inner? inner.lexeme = some written →
    OperandLacks [opening, inner] (.expected .closingParen none)

/-- Things with commas between them, of which the last one lacks something. -/
inductive ListLacks {α : Type} (Spelled : List Token → α → Prop)
    (Lacking : List Token → Cause → Prop) : List Token → Cause → Prop
  | last {tokens : List Token} {cause : Cause} :
    Lacking tokens cause → ListLacks Spelled Lacking tokens cause
  | more {tokens rest : List Token} {comma : Token} {spelling : Option String} {a : α}
    {cause : Cause} :
    Spelled tokens a → comma.lexeme = .delimiter .comma spelling →
    ListLacks Spelled Lacking rest cause → ListLacks Spelled Lacking (tokens ++ comma :: rest) cause

/-- A list of which something is there. Where nothing is, nothing is missing. -/
def ArgumentsLack {α : Type} (Spelled : List Token → α → Prop)
    (Lacking : List Token → Cause → Prop) (body : List Token) (cause : Cause) : Prop :=
  body ≠ [] ∧ ListLacks Spelled Lacking body cause

inductive FillLacks : List Token → Cause → Prop
  | count : FillLacks [] (.expected .fillCount none)
  | comma {counted : Token} {count : Int} :
    counted.lexeme = .number count → FillLacks [counted] (.expected .comma none)
  | value {counted comma : Token} {count : Int} {spelling : Option String} :
    counted.lexeme = .number count → comma.lexeme = .delimiter .comma spelling →
    FillLacks [counted, comma] (.expected .byteValue none)

inductive OriginLacks : List Token → Cause → Prop
  | target : OriginLacks [] (.expected .targetAddress none)
  | value {targeted comma : Token} {target : Int} {spelling : Option String} :
    targeted.lexeme = .number target → comma.lexeme = .delimiter .comma spelling →
    OriginLacks [targeted, comma] (.expected .byteValue none)

inductive ConstantLacks : List Token → Cause → Prop
  | name : ConstantLacks [] (.expected .constantName none)
  | comma {named : Token} {name : String} :
    named.lexeme = .identifier name → ConstantLacks [named] (.expected .comma none)
  | value {named comma : Token} {name : String} {spelling : Option String} :
    named.lexeme = .identifier name → comma.lexeme = .delimiter .comma spelling →
    ConstantLacks [named, comma] (.expected .constantValue none)

/-- What stands after the name of a directive, and what is missing of it. -/
def DirectiveLacks (name : String) : List Token → Cause → Prop :=
  match name with
  | ".byte" => ArgumentsLack ByteSpelled (Missing .byteValue)
  | ".ascii" | ".asciz" | ".utf8" => Missing .string
  | ".fill" => FillLacks
  | ".org" => OriginLacks
  | ".equ" => ConstantLacks
  | ".use" => Missing .fileName
  | _ => fun _ _ => False

/-- The statement that starts with some token breaks off, and lacks what the cause says. -/
def Lacks (head : Token) (body : List Token) (cause : Cause) : Prop :=
  match head.lexeme with
  | .mnemonic _ => ArgumentsLack OperandSpelled OperandLacks body cause
  | .directive name => DirectiveLacks name body cause
  | _ => False

/-- The place of the last token, or another place if there is none. -/
def lastPlace (place : Location) (tokens : List Token) : Location :=
  (tokens.getLast?.map Token.location).getD place

theorem lastPlace_cons (place : Location) (token : Token) (tokens : List Token) :
    lastPlace place (token :: tokens) = lastPlace token.location tokens := by
  cases tokens <;> rfl

theorem lastPlace_append_cons (place : Location) (tokens rest : List Token) (token : Token) :
    lastPlace place (tokens ++ token :: rest) = lastPlace token.location rest := by
  induction tokens generalizing place with
  | nil => exact lastPlace_cons place token rest
  | cons first tokens ih => rw [List.cons_append, lastPlace_cons, ih]

/-- The fault of tokens that lack something after a place. -/
def lackFault (cause : Cause) (place : Location) (tokens : List Token) : Fault :=
  .rejected cause (cause.placeAtEnd (lastPlace place tokens)) none

/-- A reading that fails on tokens that lack something, and on no others because they run out. -/
structure Misses {β : Type} (read : Ahead → Except Fault β) (Lacking : List Token → Cause → Prop) :
    Prop where
  fails : ∀ {tokens cause}, Lacking tokens cause → ∀ place,
    read ⟨place, tokens⟩ = .error (lackFault cause place tokens)
  only : ∀ {ahead cause location hint}, read ahead = .error (.rejected cause location hint) →
    cause.RunsOut ahead.tokens → Lacking ahead.tokens cause
  plain : ∀ {tokens cause}, Lacking tokens cause →
    ∀ token ∈ tokens, isArgument token.lexeme = true

/-! ## Single tokens -/

theorem Missing.eq {what : Expectation} {tokens : List Token} {cause : Cause}
    (h : Missing what tokens cause) : tokens = [] ∧ cause = .expected what none := by
  obtain ⟨⟩ := h
  exact ⟨rfl, rfl⟩

theorem Missing.isArgument {what : Expectation} {tokens : List Token} {cause : Cause}
    (h : Missing what tokens cause) :
    ∀ token ∈ tokens, Statement.isArgument token.lexeme = true := by
  rw [h.eq.1]
  exact List.forall_mem_nil _

theorem isArgument_of_comma {first comma : Token} {spelling : Option String}
    (hFirst : isArgument first.lexeme = true) (hComma : comma.lexeme = .delimiter .comma spelling) :
    ∀ token ∈ [first, comma], isArgument token.lexeme = true :=
  List.forall_mem_cons.2 ⟨hFirst, List.forall_mem_singleton.2 (isArgument_of_eq hComma rfl)⟩

theorem expect_cons {α : Type} {what : Expectation} {accept : Lexeme → Option α} {a : α}
    {token : Token} (h : accept token.lexeme = some a) (place : Location) (rest : List Token) :
    expect what accept ⟨place, token :: rest⟩ =
      .ok ((a, token.location), ⟨token.location, rest⟩) :=
  expect_ok_iff.2 ⟨token, rfl, h, rfl, rfl⟩

theorem expect_nil {α : Type} (what : Expectation) (accept : Lexeme → Option α)
    (place : Location) :
    expect what accept ⟨place, []⟩ = .error (lackFault (.expected what none) place []) := rfl

theorem readByte_nil (place : Location) :
    readByte ⟨place, []⟩ = .error (lackFault (.expected .byteValue none) place []) := rfl

section
variable {α : Type} {ahead : Ahead} {cause : Cause} {location : Location} {hint : Option String}
  {tokens : List Token}

theorem expect_only {what : Expectation} {accept : Lexeme → Option α}
    (h : expect what accept ahead = .error (.rejected cause location hint))
    (hOut : cause.RunsOut tokens) : Missing what ahead.tokens cause := by
  unfold expect at h
  split at h
  · next hTokens =>
    cases h
    rw [hTokens]
    exact .intro
  · split at h
    · cases h
    · cases h
      cases hOut

/-- What stands too much at the end of a statement is never the end of the input. -/
theorem not_runsOut_of_finish (h : finish ahead = .error (.rejected cause location hint)) :
    ¬cause.RunsOut tokens := by
  intro hOut
  unfold finish at h
  split at h
  · cases h
  · split at h
    · cases h
    · cases h
    · cases h
      cases hOut

theorem readByte_only (h : readByte ahead = .error (.rejected cause location hint))
    (hOut : cause.RunsOut tokens) : Missing .byteValue ahead.tokens cause := by
  unfold readByte at h
  split at h
  · next hExpect =>
    cases h
    exact expect_only hExpect hOut
  · split at h
    · cases h
      cases hOut
    · cases h

theorem readByte_misses : Misses readByte (Missing .byteValue) where
  fails := by
    rintro tokens cause ⟨⟩ place
    exact readByte_nil place
  only h hOut := readByte_only h hOut
  plain h := h.isArgument

theorem readInner_only {opening : Location} {inside : List Token}
    (h : readInner opening inside = .error (.rejected cause location hint))
    (hOut : cause.RunsOut tokens) :
    ∃ inner written, inside = [inner] ∧ inner? inner.lexeme = some written ∧
      cause = .expected .closingParen none := by
  unfold readInner at h
  split at h
  · cases h
    cases hOut
  · next inner rest =>
    split at h
    · cases h
      cases hOut
    · split at h
      · cases h
        cases hOut
      · next written hInner =>
        split at h
        · next hExpect =>
          cases h
          have hMissing : Missing .closingParen rest cause := expect_only hExpect hOut
          obtain ⟨rfl, hCause⟩ := hMissing.eq
          exact ⟨inner, written, rfl, hInner, hCause⟩
        · cases h

theorem readOperand_only (h : readOperand ahead = .error (.rejected cause location hint))
    (hOut : cause.RunsOut ahead.tokens) : OperandLacks ahead.tokens cause := by
  unfold readOperand at h
  split at h
  · next hTokens =>
    cases h
    rw [hTokens]
    exact .operand
  · next token rest hTokens =>
    split at h
    · next hEnds =>
      -- an operand that is missing at the end of a line does not tell of the end of the input
      cases h
      cases hOut with
      | operand hNone =>
        have hToken := hNone token (by rw [hTokens]; exact List.mem_cons_self)
        rw [hEnds] at hToken
        cases hToken
    · split at h
      · cases h
      · next left _ hLeft =>
        obtain ⟨inner, written, rfl, hInner, rfl⟩ := readInner_only h hOut
        rw [hTokens]
        exact .closing hLeft hInner
      · cases h
        cases hOut

end

theorem isArgument_of_inner? {lexeme : Lexeme} {written : Written}
    (h : inner? lexeme = some written) : isArgument lexeme = true := by
  cases lexeme <;> cases h <;> rfl

theorem readOperand_misses : Misses readOperand OperandLacks where
  fails := by
    intro tokens cause h place
    cases h with
    | operand => rfl
    | @inner opening left hLeft =>
      obtain ⟨lexeme, location⟩ := opening
      cases hLeft
      rfl
    | @closing opening inner left written hLeft hInner =>
      obtain ⟨lexeme, location⟩ := opening
      cases hLeft
      have hPlain := endsStatement_of_inner? hInner
      have hClosing := expect_nil .closingParen (mark? .rightParen) inner.location
      show readInner location [inner] = _
      simp only [readInner, hPlain, hInner, hClosing, Bool.false_eq_true, if_false]
      rfl
  only h hOut := readOperand_only h hOut
  plain := by
    intro tokens cause h
    cases h with
    | operand => exact List.forall_mem_nil _
    | inner hLeft => exact List.forall_mem_singleton.2 (isArgument_of_eq hLeft rfl)
    | closing hLeft hInner =>
      refine List.forall_mem_cons.2 ⟨isArgument_of_eq hLeft rfl, ?_⟩
      exact List.forall_mem_singleton.2 (isArgument_of_inner? hInner)

/-! ## Lists -/

section
variable {α : Type} {reader : Reader α} {Spelled : List Token → α → Prop}
  {Lacking : List Token → Cause → Prop} {cause : Cause}

theorem readMore_fails {ahead after : Ahead} {fault : Fault}
    (hAfter : afterComma? ahead = some after) (hRead : reader.read after = .error fault) :
    readMore reader ahead = .error fault := by
  rw [readMore]
  split
  · next hNone => rw [hAfter] at hNone; cases hNone
  · next found hSome =>
    rw [hAfter] at hSome
    cases hSome
    split
    · next hError =>
      rw [hRead] at hError
      cases hError
      rfl
    · next hOk => rw [hRead] at hOk; cases hOk

theorem readMore_fails_later {ahead after rest : Ahead} {a : α} {fault : Fault}
    (hAfter : afterComma? ahead = some after) (hRead : reader.read after = .ok (a, rest))
    (hMore : readMore reader rest = .error fault) : readMore reader ahead = .error fault := by
  rw [readMore]
  split
  · next hNone => rw [hAfter] at hNone; cases hNone
  · next found hSome =>
    rw [hAfter] at hSome
    cases hSome
    split
    · next hError => rw [hRead] at hError; cases hError
    · next hOk =>
      rw [hRead] at hOk
      cases hOk
      simp only [hMore]

/-- After a comma the loop takes what is whole and fails on what is not. -/
theorem readMore_of_lacks (hTakes : reader.Takes Spelled) (hMisses : Misses reader.read Lacking)
    {rest : List Token} (h : ListLacks Spelled Lacking rest cause) {comma : Token}
    {spelling : Option String} (hComma : comma.lexeme = .delimiter .comma spelling)
    (place : Location) :
    readMore reader ⟨place, comma :: rest⟩ = .error (lackFault cause comma.location rest) := by
  have hAfter (place : Location) (rest : List Token) {comma : Token} {spelling : Option String}
      (hComma : comma.lexeme = .delimiter .comma spelling) :
      afterComma? ⟨place, comma :: rest⟩ = some ⟨comma.location, rest⟩ :=
    afterComma?_eq_some.2 ⟨comma, spelling, hComma, rfl, rfl⟩
  induction h generalizing comma spelling place with
  | @last tokens cause hLacks =>
    exact readMore_fails (hAfter place tokens hComma) (hMisses.fails hLacks comma.location)
  | @more tokens rest next other a cause hSpelled hNext _ ih =>
    obtain ⟨middle, hRead⟩ := hTakes.complete hSpelled comma.location (next :: rest)
    rw [lackFault, lastPlace_append_cons]
    exact readMore_fails_later (hAfter place _ hComma) hRead (ih hNext middle)

theorem readList_of_lacks (hTakes : reader.Takes Spelled) (hMisses : Misses reader.read Lacking)
    {body : List Token} (h : ArgumentsLack Spelled Lacking body cause) (place : Location) :
    readList reader ⟨place, body⟩ = .error (lackFault cause place body) := by
  obtain ⟨hSome, hLacks⟩ := h
  cases hLacks with
  | last hLast =>
    have hStart : atEnd ⟨place, body⟩ = false := by
      cases body with
      | nil => exact absurd rfl hSome
      | cons token rest =>
        exact endsStatement_of_isArgument (hMisses.plain hLast token List.mem_cons_self)
    rw [readList, hStart]
    simp only [Bool.false_eq_true, if_false, hMisses.fails hLast place]
  | @more tokens rest comma spelling a _ hSpelled hComma hRest =>
    have hStart : atEnd ⟨place, tokens ++ comma :: rest⟩ = false := by
      obtain ⟨token, following, rfl, hOpens⟩ := hTakes.opens hSpelled
      exact hOpens
    obtain ⟨middle, hRead⟩ := hTakes.complete hSpelled place (comma :: rest)
    have hMore := readMore_of_lacks hTakes hMisses hRest hComma middle
    rw [readList, hStart, lackFault, lastPlace_append_cons]
    simp only [Bool.false_eq_true, if_false, hRead, hMore]
    rfl

theorem readMore_only (hTakes : reader.Takes Spelled) (hMisses : Misses reader.read Lacking)
    {ahead : Ahead} {location : Location} {hint : Option String}
    (h : readMore reader ahead = .error (.rejected cause location hint))
    (hOut : cause.RunsOut ahead.tokens) :
    ∃ comma spelling rest, ahead.tokens = comma :: rest ∧
      comma.lexeme = .delimiter .comma spelling ∧ ListLacks Spelled Lacking rest cause := by
  fun_induction readMore reader ahead with
  | case1 ahead hNone => cases h
  | case2 ahead after hAfter fault hRead =>
    cases h
    obtain ⟨comma, spelling, hComma, hTokens, -⟩ := afterComma?_eq_some.1 hAfter
    rw [hTokens, ← List.singleton_append] at hOut
    exact ⟨comma, spelling, after.tokens, hTokens, hComma, .last (hMisses.only hRead hOut.tail)⟩
  | case3 ahead after hAfter a middle hRead fault hMore ih =>
    cases h
    obtain ⟨comma, spelling, hComma, hTokens, -⟩ := afterComma?_eq_some.1 hAfter
    obtain ⟨whole, hWhole, hSpelled⟩ := hTakes.sound hRead
    rw [hTokens, ← List.singleton_append, hWhole] at hOut
    obtain ⟨next, other, rest, hRest, hNext, hLacks⟩ := ih hMore hOut.tail.tail
    refine ⟨comma, spelling, after.tokens, hTokens, hComma, ?_⟩
    rw [hWhole, hRest]
    exact .more hSpelled hNext hLacks
  | case4 => cases h

theorem readList_only (hTakes : reader.Takes Spelled) (hMisses : Misses reader.read Lacking)
    {ahead : Ahead} {location : Location} {hint : Option String}
    (h : readList reader ahead = .error (.rejected cause location hint))
    (hOut : cause.RunsOut ahead.tokens) : ArgumentsLack Spelled Lacking ahead.tokens cause := by
  unfold readList at h
  split at h
  · cases h
  · next hStart =>
    refine ⟨?_, ?_⟩
    · intro hNone
      exact hStart (by rw [atEnd, hNone])
    · split at h
      · next hRead =>
        cases h
        exact .last (hMisses.only hRead hOut)
      · next a middle hRead =>
        obtain ⟨whole, hWhole, hSpelled⟩ := hTakes.sound hRead
        split at h
        · next hMore =>
          cases h
          rw [hWhole] at hOut ⊢
          obtain ⟨comma, spelling, rest, hRest, hComma, hLacks⟩ :=
            readMore_only hTakes hMisses hMore hOut.tail
          rw [hRest]
          exact .more hSpelled hComma hLacks
        · cases h

theorem ListLacks.isArgument
    (hSpelled : ∀ {tokens a}, Spelled tokens a →
      ∀ token ∈ tokens, Statement.isArgument token.lexeme = true)
    (hMisses : Misses reader.read Lacking) {body : List Token}
    (h : ListLacks Spelled Lacking body cause) :
    ∀ token ∈ body, Statement.isArgument token.lexeme = true := by
  induction h with
  | last hLast => exact hMisses.plain hLast
  | more hFirst hComma _ ih =>
    refine List.forall_mem_append.2 ⟨hSpelled hFirst, ?_⟩
    exact List.forall_mem_cons.2 ⟨isArgument_of_eq hComma rfl, ih⟩

theorem readList_misses (hTakes : reader.Takes Spelled)
    (hSpelled : ∀ {tokens a}, Spelled tokens a →
      ∀ token ∈ tokens, Statement.isArgument token.lexeme = true)
    (hMisses : Misses reader.read Lacking) :
    Misses (readList reader) (ArgumentsLack Spelled Lacking) where
  fails h place := readList_of_lacks hTakes hMisses h place
  only h hOut := readList_only hTakes hMisses h hOut
  plain h := h.2.isArgument hSpelled hMisses

end

/-! ## Commands -/

section
variable {cause : Cause} {location : Location} {hint : Option String}

/-- Operands that fit no form are all there. -/
theorem not_runsOut_of_select {mnemonic : String} {operands : List WrittenOperand}
    {place : Location} {tokens : List Token}
    (h : Form.select mnemonic operands place = .error (cause, location, hint)) :
    ¬cause.RunsOut tokens := by
  intro hOut
  unfold Form.select at h
  simp only at h
  split at h
  · cases h
  · split at h
    · cases h
      cases hOut
    · cases h
      split at hOut <;> cases hOut

theorem readInstruction_misses (mnemonic : String) :
    Misses (readInstruction mnemonic) (ArgumentsLack OperandSpelled OperandLacks) := by
  have hList : Misses (readList operandReader) (ArgumentsLack OperandSpelled OperandLacks) :=
    readList_misses operandReader_takes OperandSpelled.isArgument readOperand_misses
  refine ⟨?_, ?_, hList.plain⟩
  · intro tokens cause h place
    simp only [readInstruction, hList.fails h place]
  · intro ahead cause location hint h hOut
    unfold readInstruction at h
    split at h
    · next hRead =>
      cases h
      exact hList.only hRead hOut
    · split at h
      · next hSelect =>
        cases h
        exact absurd hOut (not_runsOut_of_select hSelect)
      · split at h
        · next hFinish =>
          cases h
          exact absurd hOut (not_runsOut_of_finish hFinish)
        · cases h

theorem readBytes_misses : Misses readBytes (ArgumentsLack ByteSpelled (Missing .byteValue)) := by
  have hList : Misses (readList byteReader) (ArgumentsLack ByteSpelled (Missing .byteValue)) :=
    readList_misses byteReader_takes ByteSpelled.isArgument readByte_misses
  refine ⟨?_, ?_, hList.plain⟩
  · intro tokens cause h place
    simp only [readBytes, hList.fails h place]
  · intro ahead cause location hint h hOut
    unfold readBytes at h
    split at h
    · next hRead =>
      cases h
      exact hList.only hRead hOut
    · split at h
      · next hFinish =>
        cases h
        exact absurd hOut (not_runsOut_of_finish hFinish)
      · split at h
        · cases h
        · split at h <;> cases h

theorem readString_misses (directive : String) (encoding : TextEncoding) :
    Misses (readString directive encoding) (Missing .string) where
  fails := by
    rintro tokens cause ⟨⟩ place
    rfl
  only := by
    intro ahead cause location hint h hOut
    unfold readString at h
    split at h
    · next hExpect =>
      cases h
      exact expect_only hExpect hOut
    · split at h
      · next hFinish =>
        cases h
        exact absurd hOut (not_runsOut_of_finish hFinish)
      · split at h
        · cases h
        · split at h
          · cases h
          · cases h
            cases hOut
  plain h := h.isArgument

theorem readFill_misses : Misses readFill FillLacks where
  fails := by
    intro tokens cause h place
    cases h with
    | count => rfl
    | comma hCount =>
      simp only [readFill, expect_cons (number?_eq_some.2 hCount), expect_nil]
      rfl
    | @value _ _ _ spelling hCount hComma =>
      simp only [readFill, expect_cons (number?_eq_some.2 hCount),
        expect_cons (mark?_eq_some.2 ⟨spelling, hComma⟩), readByte_nil]
      rfl
  only := by
    intro ahead cause location hint h hOut
    unfold readFill at h
    split at h
    · next hCount =>
      cases h
      obtain ⟨hTokens, rfl⟩ := (expect_only hCount hOut).eq
      rw [hTokens]
      exact .count
    · next count _ afterCount hCount =>
      obtain ⟨counted, hTokens, hCounted, -, -⟩ := expect_ok_iff.1 hCount
      rw [hTokens]
      split at h
      · next hComma =>
        cases h
        obtain ⟨hNone, rfl⟩ := (expect_only hComma hOut).eq
        rw [hNone]
        exact .comma (number?_eq_some.1 hCounted)
      · next separator afterComma hComma =>
        obtain ⟨⟨⟩, _⟩ := separator
        obtain ⟨comma, hAfterCount, hMark, -, -⟩ := expect_ok_iff.1 hComma
        obtain ⟨spelling, hSpelling⟩ := mark?_eq_some.1 hMark
        rw [hAfterCount]
        split at h
        · next hValue =>
          cases h
          obtain ⟨hNone, rfl⟩ := (readByte_only hValue hOut).eq
          rw [hNone]
          exact .value (number?_eq_some.1 hCounted) hSpelling
        · split at h
          · next hFinish =>
            cases h
            exact absurd hOut (not_runsOut_of_finish hFinish)
          · cases h
  plain := by
    intro tokens cause h
    cases h with
    | count => exact List.forall_mem_nil _
    | comma hCount => exact List.forall_mem_singleton.2 (isArgument_of_eq hCount rfl)
    | value hCount hComma => exact isArgument_of_comma (isArgument_of_eq hCount rfl) hComma

theorem readPadding_only {ahead : Ahead} {tokens : List Token}
    (h : readPadding ahead = .error (.rejected cause location hint)) (hOut : cause.RunsOut tokens) :
    ∃ comma spelling, ahead.tokens = [comma] ∧ comma.lexeme = .delimiter .comma spelling ∧
      cause = .expected .byteValue none := by
  unfold readPadding at h
  split at h
  · next hAfter =>
    obtain ⟨comma, spelling, hComma, hTokens, -⟩ := afterComma?_eq_some.1 hAfter
    obtain ⟨hNone, hCause⟩ := (readByte_only h hOut).eq
    exact ⟨comma, spelling, by rw [hTokens, hNone], hComma, hCause⟩
  · cases h

theorem readOrigin_misses : Misses readOrigin OriginLacks where
  fails := by
    intro tokens cause h place
    cases h with
    | target => rfl
    | @value targeted comma _ spelling hTarget hComma =>
      have hAfter : afterComma? ⟨targeted.location, [comma]⟩ = some ⟨comma.location, []⟩ :=
        afterComma?_eq_some.2 ⟨comma, spelling, hComma, rfl, rfl⟩
      simp only [readOrigin, expect_cons (number?_eq_some.2 hTarget), readPadding, hAfter,
        readByte_nil]
      rfl
  only := by
    intro ahead cause location hint h hOut
    unfold readOrigin at h
    split at h
    · next hTarget =>
      cases h
      obtain ⟨hTokens, rfl⟩ := (expect_only hTarget hOut).eq
      rw [hTokens]
      exact .target
    · next target _ afterTarget hTarget =>
      obtain ⟨targeted, hTokens, hTargeted, -, -⟩ := expect_ok_iff.1 hTarget
      rw [hTokens]
      split at h
      · next hPadding =>
        cases h
        obtain ⟨comma, spelling, hAfterTarget, hComma, rfl⟩ := readPadding_only hPadding hOut
        rw [hAfterTarget]
        exact .value (number?_eq_some.1 hTargeted) hComma
      · split at h
        · next hFinish =>
          cases h
          exact absurd hOut (not_runsOut_of_finish hFinish)
        · cases h
  plain := by
    intro tokens cause h
    cases h with
    | target => exact List.forall_mem_nil _
    | value hTarget hComma => exact isArgument_of_comma (isArgument_of_eq hTarget rfl) hComma

theorem readConstant_misses : Misses readConstant ConstantLacks where
  fails := by
    intro tokens cause h place
    cases h with
    | name => rfl
    | comma hName =>
      simp only [readConstant, expect_cons (identifier?_eq_some.2 hName), expect_nil]
      rfl
    | @value _ _ _ spelling hName hComma =>
      simp only [readConstant, expect_cons (identifier?_eq_some.2 hName),
        expect_cons (mark?_eq_some.2 ⟨spelling, hComma⟩), expect_nil]
      rfl
  only := by
    intro ahead cause location hint h hOut
    unfold readConstant at h
    split at h
    · next hName =>
      cases h
      obtain ⟨hTokens, rfl⟩ := (expect_only hName hOut).eq
      rw [hTokens]
      exact .name
    · next name _ afterName hName =>
      obtain ⟨named, hTokens, hNamed, -, -⟩ := expect_ok_iff.1 hName
      rw [hTokens]
      split at h
      · next hComma =>
        cases h
        obtain ⟨hNone, rfl⟩ := (expect_only hComma hOut).eq
        rw [hNone]
        exact .comma (identifier?_eq_some.1 hNamed)
      · next separator afterComma hComma =>
        obtain ⟨⟨⟩, _⟩ := separator
        obtain ⟨comma, hAfterName, hMark, -, -⟩ := expect_ok_iff.1 hComma
        obtain ⟨spelling, hSpelling⟩ := mark?_eq_some.1 hMark
        rw [hAfterName]
        split at h
        · next hValue =>
          cases h
          obtain ⟨hNone, rfl⟩ := (expect_only hValue hOut).eq
          rw [hNone]
          exact .value (identifier?_eq_some.1 hNamed) hSpelling
        · split at h
          · next hFinish =>
            cases h
            exact absurd hOut (not_runsOut_of_finish hFinish)
          · cases h
  plain := by
    intro tokens cause h
    cases h with
    | name => exact List.forall_mem_nil _
    | comma hName => exact List.forall_mem_singleton.2 (isArgument_of_eq hName rfl)
    | value hName hComma => exact isArgument_of_comma (isArgument_of_eq hName rfl) hComma

theorem readUse_misses : Misses readUse (Missing .fileName) where
  fails := by
    rintro tokens cause ⟨⟩ place
    rfl
  only := by
    intro ahead cause location hint h hOut
    unfold readUse at h
    split at h
    · next hExpect =>
      cases h
      exact expect_only hExpect hOut
    · split at h
      · next hFinish =>
        cases h
        exact absurd hOut (not_runsOut_of_finish hFinish)
      · cases h
  plain h := h.isArgument

/-- A section marker needs nothing after it. -/
theorem readSection_misses (name : String) : Misses (readSection name) fun _ _ => False where
  fails h := h.elim
  only := by
    intro ahead cause location hint h hOut
    unfold readSection at h
    split at h
    · next hFinish =>
      cases h
      exact absurd hOut (not_runsOut_of_finish hFinish)
    · cases h
  plain h := h.elim

theorem readDirective_misses (name : String) :
    Misses (readDirective name) (DirectiveLacks name) := by
  unfold readDirective DirectiveLacks
  split
  · exact readBytes_misses
  · exact readString_misses _ _
  · exact readString_misses _ _
  · exact readString_misses _ _
  · exact readFill_misses
  · exact readOrigin_misses
  · exact readConstant_misses
  · exact readUse_misses
  · exact readSection_misses _
  · exact readSection_misses _
  · -- an unknown name is a fault of its own kind
    split
    case h_9 =>
      refine ⟨fun h => h.elim, ?_, fun h => h.elim⟩
      intro _ _ _ _ h
      cases h
    all_goals contradiction

end

/-! ## Statements -/

/-- A statement that breaks off is refused for what it lacks. -/
theorem read_of_lacks {head : Token} {body : List Token} {cause : Cause}
    (h : Lacks head body cause) :
    read head body = .error (lackFault cause head.location body) := by
  unfold Lacks at h
  split at h
  · next name hMnemonic =>
    simp only [read, readCommand, hMnemonic, (readInstruction_misses name).fails h]
  · next name hDirective =>
    simp only [read, readCommand, hDirective, (readDirective_misses name).fails h]
  · exact h.elim

/-- Only a statement that breaks off is refused because the tokens run out. -/
theorem lacks_of_read {head : Token} {body : List Token} {cause : Cause} {location : Location}
    {hint : Option String} (h : read head body = .error (.rejected cause location hint))
    (hOut : cause.RunsOut body) : Lacks head body cause := by
  unfold read at h
  split at h
  · next hCommand =>
    cases h
    unfold readCommand at hCommand
    unfold Lacks
    split at hCommand
    · cases hCommand
    · cases hCommand
    · cases hCommand
    · next name hMnemonic =>
      simp only [hMnemonic]
      exact (readInstruction_misses name).only hCommand hOut
    · next name hDirective =>
      simp only [hDirective]
      exact (readDirective_misses name).only hCommand hOut
    · cases hCommand
      cases hOut
  · cases h

/-- No line ends in a statement that breaks off. -/
theorem Lacks.endsStatement {head : Token} {body : List Token} {cause : Cause}
    (h : Lacks head body cause) :
    ∀ token ∈ head :: body, token.lexeme.endsStatement = false := by
  unfold Lacks at h
  split at h
  · next name hMnemonic =>
    refine List.forall_mem_cons.2 ⟨by rw [hMnemonic]; rfl, fun token hMem => ?_⟩
    exact endsStatement_of_isArgument ((readInstruction_misses name).plain h token hMem)
  · next name hDirective =>
    refine List.forall_mem_cons.2 ⟨by rw [hDirective]; rfl, fun token hMem => ?_⟩
    exact endsStatement_of_isArgument ((readDirective_misses name).plain h token hMem)
  · exact h.elim

end Statement
end Lr35902
