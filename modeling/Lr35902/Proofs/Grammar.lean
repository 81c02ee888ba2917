import Lr35902.Statement.Basic

/-!
The grammar of statements, said as a relation between tokens and commands. `Body` lists what the
tokens of an instruction or a directive may be, its line end left out; `Reads` adds the line ends,
the labels and the marks of included files. Main statement: reading the front of the tokens succeeds
exactly when the grammar has a command there, and gives that command (`read_ok_iff`).
-/
namespace Lr35902.Statement

/-! ## Ends of statements -/

/-- The statement before the tokens is over, and these tokens remain after its line end. -/
inductive Ends : List Token → List Token → Prop
  | input : Ends [] []
  | line {token : Token} {rest : List Token} : token.lexeme = .newline → Ends (token :: rest) rest
  | file {token : Token} {rest : List Token} {file : FileMark} :
    token.lexeme = .endInclude file → Ends (token :: rest) (token :: rest)

theorem finish_ok_iff {ahead : Ahead} {rest : List Token} :
    finish ahead = .ok rest ↔ Ends ahead.tokens rest := by
  obtain ⟨last, tokens⟩ := ahead
  constructor
  · intro h
    unfold finish at h
    split at h
    · next hTokens =>
      cases h
      rw [show tokens = [] from hTokens]
      exact .input
    · next token more hTokens =>
      rw [show tokens = token :: more from hTokens]
      split at h
      · next hLine =>
        cases h
        exact .line hLine
      · next hFile =>
        cases h
        exact .file hFile
      · cases h
  · intro h
    cases h with
    | input => rfl
    | line hLine => simp only [finish, hLine]
    | file hFile => simp only [finish, hFile]

theorem Ends.atEnd {tail rest : List Token} (h : Ends tail rest) (last : Location) :
    atEnd ⟨last, tail⟩ = true := by
  cases h with
  | input => rfl
  | line hLine => simp only [Statement.atEnd, hLine, Lexeme.endsStatement]
  | file hFile => simp only [Statement.atEnd, hFile, Lexeme.endsStatement]

theorem Ends.afterComma? {tail rest : List Token} (h : Ends tail rest) (last : Location) :
    afterComma? ⟨last, tail⟩ = none := by
  cases h with
  | input => rfl
  | @line token more hLine =>
    obtain ⟨lexeme, location⟩ := token
    cases hLine
    rfl
  | @file token more file hFile =>
    obtain ⟨lexeme, location⟩ := token
    cases hFile
    rfl

/-! ## Single tokens -/

theorem expect_ok_iff {α : Type} {what : Expectation} {accept : Lexeme → Option α} {ahead : Ahead}
    {a : α} {location : Location} {rest : Ahead} :
    expect what accept ahead = .ok ((a, location), rest) ↔
      ∃ token, ahead.tokens = token :: rest.tokens ∧ accept token.lexeme = some a ∧
        location = token.location ∧ rest.last = token.location := by
  obtain ⟨last, tokens⟩ := ahead
  constructor
  · intro h
    unfold expect at h
    split at h
    · cases h
    · next token more hTokens =>
      split at h
      · next hAccept =>
        cases h
        exact ⟨token, hTokens, hAccept, rfl, rfl⟩
      · cases h
  · rintro ⟨token, hTokens, hAccept, rfl, hLast⟩
    obtain ⟨restLast, restTokens⟩ := rest
    simp only at hTokens hLast
    subst hTokens hLast
    simp only [expect, hAccept]

theorem number?_eq_some {lexeme : Lexeme} {value : Int} :
    number? lexeme = some value ↔ lexeme = .number value := by
  cases lexeme <;> simp [number?]

theorem string?_eq_some {lexeme : Lexeme} {literal : StringLiteral} :
    string? lexeme = some literal ↔ lexeme = literal.lexeme := by
  cases literal <;> cases lexeme <;> simp [string?, StringLiteral.lexeme]

theorem identifier?_eq_some {lexeme : Lexeme} {name : String} :
    identifier? lexeme = some name ↔ lexeme = .identifier name := by
  cases lexeme <;> simp [identifier?]

/-- The identifiers among some tokens. -/
def identifiersOf (tokens : List Token) : List String :=
  tokens.filterMap fun token => identifier? token.lexeme

theorem mem_identifiersOf {tokens : List Token} {name : String} :
    name ∈ identifiersOf tokens ↔ ∃ token ∈ tokens, token.lexeme = .identifier name := by
  simp only [identifiersOf, List.mem_filterMap, identifier?_eq_some]

theorem mark?_eq_some {mark : Delimiter} {lexeme : Lexeme} :
    mark? mark lexeme = some () ↔ ∃ spelling, lexeme = .delimiter mark spelling := by
  cases lexeme <;> simp [mark?]

theorem afterComma?_eq_some {ahead after : Ahead} :
    afterComma? ahead = some after ↔
      ∃ comma spelling, comma.lexeme = .delimiter .comma spelling ∧
        ahead.tokens = comma :: after.tokens ∧ after.last = comma.location := by
  obtain ⟨last, tokens⟩ := ahead
  constructor
  · intro h
    unfold afterComma? at h
    split at h
    · next spelling location rest hTokens =>
      cases h
      exact ⟨⟨.delimiter .comma spelling, location⟩, spelling, rfl, hTokens, rfl⟩
    · cases h
  · rintro ⟨⟨lexeme, location⟩, spelling, hComma, hTokens, hLast⟩
    obtain ⟨afterLast, afterTokens⟩ := after
    simp only at hComma hTokens hLast
    subst hComma hTokens hLast
    rfl

/-! ## Operands, bytes, and lists of them -/

/-- The tokens of one operand: a word or a number, bare or in parentheses. -/
inductive OperandSpelled : List Token → WrittenOperand → Prop
  | bare {token : Token} {written : Written} :
    bare? token.lexeme = some written → OperandSpelled [token] ⟨written, token.location⟩
  | inner {opening inner closing : Token} {left right : Option String} {written : Written} :
    opening.lexeme = .delimiter .leftParen left → inner? inner.lexeme = some written →
    closing.lexeme = .delimiter .rightParen right →
    OperandSpelled [opening, inner, closing] ⟨written, inner.location⟩

/-- The token of a byte. Whether it is negative is judged afterwards. -/
inductive ByteSpelled : List Token → Int → Prop
  | number {token : Token} {value : Int} :
    token.lexeme = .number value → value ≤ 0xFF → ByteSpelled [token] value

/-- Things with commas between them, at least one. -/
inductive Separated {α : Type} (Spelled : List Token → α → Prop) : List Token → List α → Prop
  | last {tokens : List Token} {a : α} : Spelled tokens a → Separated Spelled tokens [a]
  | more {tokens rest : List Token} {comma : Token} {spelling : Option String} {a : α}
    {values : List α} :
    Spelled tokens a → comma.lexeme = .delimiter .comma spelling → Separated Spelled rest values →
    Separated Spelled (tokens ++ comma :: rest) (a :: values)

/-- Things with commas between them, or nothing. -/
inductive Arguments {α : Type} (Spelled : List Token → α → Prop) : List Token → List α → Prop
  | none : Arguments Spelled [] []
  | some {tokens : List Token} {values : List α} :
    Separated Spelled tokens values → Arguments Spelled tokens values

/-- A reader takes exactly the tokens that spell what it gives, whatever follows them. -/
structure Reader.Takes {α : Type} (reader : Reader α) (Spelled : List Token → α → Prop) : Prop where
  sound : ∀ {ahead a rest}, reader.read ahead = .ok (a, rest) →
    ∃ tokens, ahead.tokens = tokens ++ rest.tokens ∧ Spelled tokens a
  complete : ∀ {tokens a}, Spelled tokens a → ∀ last more,
    ∃ restLast, reader.read ⟨last, tokens ++ more⟩ = .ok (a, ⟨restLast, more⟩)
  opens : ∀ {tokens a}, Spelled tokens a →
    ∃ token more, tokens = token :: more ∧ token.lexeme.endsStatement = false

section Lists
variable {α : Type} {reader : Reader α} {Spelled : List Token → α → Prop}

/-- What has been read before goes in front: the loop only adds to it. -/
theorem readMore_sound (hReader : reader.Takes Spelled) {ahead rest : Ahead} {values : List α}
    (h : readMore reader ahead = .ok (values, rest)) {tokens : List Token} {a : α}
    (hFirst : Spelled tokens a) :
    ∃ body, tokens ++ ahead.tokens = body ++ rest.tokens ∧
      Separated Spelled body (a :: values) := by
  fun_induction readMore reader ahead generalizing values rest tokens a with
  | case1 ahead hNone =>
    cases h
    exact ⟨tokens, rfl, .last hFirst⟩
  | case2 => cases h
  | case3 => cases h
  | case4 ahead after hAfter b middle hRead more final hMore ih =>
    cases h
    obtain ⟨comma, spelling, hComma, hAhead, -⟩ := afterComma?_eq_some.1 hAfter
    obtain ⟨next, hNext, hSpelled⟩ := hReader.sound hRead
    obtain ⟨body, hBody, hSeparated⟩ := ih hMore hSpelled
    refine ⟨tokens ++ comma :: body, ?_, .more hFirst hComma hSeparated⟩
    rw [hAhead, hNext, hBody]
    simp

/-- The first thing and the loop after it read whatever is written with commas, up to tokens that
do not start with one. -/
theorem readMore_complete (hReader : reader.Takes Spelled) {body : List Token} {values : List α}
    (h : Separated Spelled body values) {tail : List Token}
    (hTail : ∀ last, afterComma? ⟨last, tail⟩ = none) (last : Location) :
    ∃ a more middle final, values = a :: more ∧
      reader.read ⟨last, body ++ tail⟩ = .ok (a, middle) ∧
      readMore reader middle = .ok (more, ⟨final, tail⟩) := by
  induction h generalizing last with
  | @last tokens a hSpelled =>
    obtain ⟨final, hRead⟩ := hReader.complete hSpelled last tail
    refine ⟨a, [], ⟨final, tail⟩, final, rfl, hRead, ?_⟩
    rw [readMore]
    split
    · rfl
    · next hAfter => rw [hTail] at hAfter; cases hAfter
  | @more tokens rest comma spelling a values hSpelled hComma _ ih =>
    obtain ⟨middleLast, hRead⟩ := hReader.complete hSpelled last (comma :: (rest ++ tail))
    obtain ⟨b, more, middle, final, rfl, hNext, hMore⟩ := ih comma.location
    have hAfter : afterComma? ⟨middleLast, comma :: (rest ++ tail)⟩ =
        some ⟨comma.location, rest ++ tail⟩ :=
      afterComma?_eq_some.2 ⟨comma, spelling, hComma, rfl, rfl⟩
    refine ⟨a, b :: more, ⟨middleLast, comma :: (rest ++ tail)⟩, final, rfl, ?_, ?_⟩
    · rw [List.append_assoc]
      exact hRead
    · rw [readMore]
      split
      · next hNone => rw [hAfter] at hNone; cases hNone
      · next after hSome =>
        rw [hAfter] at hSome
        cases hSome
        split
        · next hError => rw [hNext] at hError; cases hError
        · next hOk =>
          rw [hNext] at hOk
          cases hOk
          simp only [hMore]

theorem Separated.opens (hReader : reader.Takes Spelled) {body : List Token} {values : List α}
    (h : Separated Spelled body values) :
    ∃ token more, body = token :: more ∧ token.lexeme.endsStatement = false := by
  cases h with
  | last hSpelled => exact hReader.opens hSpelled
  | more hSpelled _ _ =>
    obtain ⟨token, following, rfl, hOpens⟩ := hReader.opens hSpelled
    exact ⟨token, _, rfl, hOpens⟩

/-- A list up to the end of its statement. -/
theorem readList_ok_iff (hReader : reader.Takes Spelled) {ahead : Ahead} {values : List α}
    {rest : List Token} :
    (∃ middle, readList reader ahead = .ok (values, middle) ∧ finish middle = .ok rest) ↔
      ∃ body tail, ahead.tokens = body ++ tail ∧ Arguments Spelled body values ∧
        Ends tail rest := by
  obtain ⟨last, tokens⟩ := ahead
  constructor
  · rintro ⟨middle, hList, hFinish⟩
    have hEnds := finish_ok_iff.1 hFinish
    unfold readList at hList
    split at hList
    · cases hList
      exact ⟨[], tokens, rfl, .none, hEnds⟩
    · split at hList
      · cases hList
      · next a first hRead =>
        split at hList
        · cases hList
        · next more final hMore =>
          cases hList
          obtain ⟨start, hStart, hSpelled⟩ := hReader.sound hRead
          obtain ⟨body, hBody, hSeparated⟩ := readMore_sound hReader hMore hSpelled
          exact ⟨body, middle.tokens, hStart.trans hBody, .some hSeparated, hEnds⟩
  · rintro ⟨body, tail, hTokens, hArguments, hEnds⟩
    simp only at hTokens
    subst hTokens
    cases hArguments with
    | none =>
      refine ⟨⟨last, tail⟩, ?_, finish_ok_iff.2 hEnds⟩
      rw [readList, List.nil_append, if_pos (hEnds.atEnd last)]
    | some hSeparated =>
      obtain ⟨a, more, middle, final, rfl, hRead, hMore⟩ :=
        readMore_complete hReader hSeparated hEnds.afterComma? last
      refine ⟨⟨final, tail⟩, ?_, finish_ok_iff.2 hEnds⟩
      have hStart : atEnd ⟨last, body ++ tail⟩ = false := by
        obtain ⟨token, following, rfl, hOpens⟩ := hSeparated.opens hReader
        exact hOpens
      rw [readList, hStart]
      simp only [Bool.false_eq_true, if_false, hRead, hMore]

end Lists

theorem readInner_sound {opening : Location} {tokens : List Token} {operand : WrittenOperand}
    {rest : Ahead} (h : readInner opening tokens = .ok (operand, rest)) :
    ∃ inner closing written right, tokens = inner :: closing :: rest.tokens ∧
      inner? inner.lexeme = some written ∧ closing.lexeme = .delimiter .rightParen right ∧
      operand = ⟨written, inner.location⟩ := by
  unfold readInner at h
  split at h
  · cases h
  · next inner more =>
    split at h
    · cases h
    · split at h
      · cases h
      · next written hInner =>
        split at h
        · cases h
        · next closed final hExpect =>
          cases h
          obtain ⟨⟨⟩, location⟩ := closed
          obtain ⟨closing, hMore, hClosing, -, -⟩ := expect_ok_iff.1 hExpect
          obtain ⟨right, hRight⟩ := mark?_eq_some.1 hClosing
          exact ⟨inner, closing, written, right, by rw [← hMore], hInner, hRight, rfl⟩

theorem endsStatement_of_bare? {lexeme : Lexeme} {written : Written}
    (h : bare? lexeme = some written) : lexeme.endsStatement = false := by
  cases lexeme <;> simp_all [bare?, Lexeme.endsStatement]

theorem endsStatement_of_inner? {lexeme : Lexeme} {written : Written}
    (h : inner? lexeme = some written) : lexeme.endsStatement = false := by
  cases lexeme <;> simp_all [inner?, Lexeme.endsStatement]

theorem operandReader_takes : operandReader.Takes OperandSpelled where
  sound := by
    intro ahead operand rest h
    obtain ⟨last, tokens⟩ := ahead
    change readOperand ⟨last, tokens⟩ = .ok (operand, rest) at h
    unfold readOperand at h
    split at h
    · cases h
    · next token more hTokens =>
      simp only at hTokens
      subst hTokens
      split at h
      · cases h
      · split at h
        · next hBare =>
          cases h
          exact ⟨[token], rfl, .bare hBare⟩
        · next left _ hLeft =>
          obtain ⟨inner, closing, written, right, rfl, hInner, hRight, rfl⟩ := readInner_sound h
          exact ⟨[token, inner, closing], rfl, .inner hLeft hInner hRight⟩
        · cases h
  complete := by
    intro tokens operand h last more
    cases h with
    | @bare token written hBare =>
      refine ⟨token.location, ?_⟩
      change readOperand ⟨last, token :: more⟩ = _
      simp only [readOperand, endsStatement_of_bare? hBare, hBare, Bool.false_eq_true, if_false]
    | @inner opening inner closing left right written hLeft hInner hRight =>
      refine ⟨closing.location, ?_⟩
      change readOperand ⟨last, opening :: inner :: closing :: more⟩ = _
      have hExpect : expect .closingParen (mark? .rightParen) ⟨inner.location, closing :: more⟩ =
          .ok (((), closing.location), ⟨closing.location, more⟩) :=
        expect_ok_iff.2 ⟨closing, rfl, mark?_eq_some.2 ⟨right, hRight⟩, rfl, rfl⟩
      have hOpens : opening.lexeme.endsStatement = false := by rw [hLeft]; rfl
      simp only [readOperand, hOpens, Bool.false_eq_true, if_false]
      simp only [hLeft, bare?, readInner, endsStatement_of_inner? hInner, hInner, hExpect,
        Bool.false_eq_true, if_false]
  opens := by
    intro tokens operand h
    cases h with
    | @bare token written hBare => exact ⟨token, [], rfl, endsStatement_of_bare? hBare⟩
    | @inner opening inner closing left right written hLeft _ _ =>
      exact ⟨opening, [inner, closing], rfl, by rw [hLeft]; rfl⟩

theorem readByte_ok_iff {ahead rest : Ahead} {value : Int} :
    readByte ahead = .ok (value, rest) ↔
      ∃ token, ahead.tokens = token :: rest.tokens ∧ token.lexeme = .number value ∧
        value ≤ 0xFF ∧ rest.last = token.location := by
  constructor
  · intro h
    unfold readByte at h
    split at h
    · cases h
    · next found location middle hExpect =>
      split at h
      · cases h
      · next hNarrow =>
        cases h
        obtain ⟨token, hTokens, hNumber, -, hLast⟩ := expect_ok_iff.1 hExpect
        exact ⟨token, hTokens, number?_eq_some.1 hNumber, by omega, hLast⟩
  · rintro ⟨token, hTokens, hNumber, hNarrow, hLast⟩
    have hExpect : expect .byteValue number? ahead = .ok ((value, token.location), rest) :=
      expect_ok_iff.2 ⟨token, hTokens, number?_eq_some.2 hNumber, rfl, hLast⟩
    simp only [readByte, hExpect, if_neg (show ¬0xFF < value by omega)]

theorem byteReader_takes : byteReader.Takes ByteSpelled where
  sound := by
    intro ahead value rest h
    obtain ⟨token, hTokens, hNumber, hNarrow, -⟩ := readByte_ok_iff.1 h
    exact ⟨[token], hTokens, .number hNumber hNarrow⟩
  complete := by
    intro tokens value h last more
    obtain @⟨token, value, hNumber, hNarrow⟩ := h
    exact ⟨token.location, readByte_ok_iff.2 ⟨token, rfl, hNumber, hNarrow, rfl⟩⟩
  opens := by
    intro tokens value h
    obtain @⟨token, value, hNumber, -⟩ := h
    exact ⟨token, [], rfl, by rw [hNumber]; rfl⟩

/-! ## Instructions and directives -/

/-- Tokens that start with a body and then end the statement. -/
def Followed (Body : List Token → Command → Prop) (tokens : List Token) (command : Command)
    (rest : List Token) : Prop :=
  ∃ body tail, tokens = body ++ tail ∧ Body body command ∧ Ends tail rest

/-- The bytes of a list of values; no value stands for one zero byte. -/
def bytesOf (values : List Int) : Bytes :=
  if values.isEmpty then [0] else values.map fun value => value.toNat.toUInt8

/-- What may follow a mnemonic that stands at a place. -/
inductive InstructionBody (mnemonic : String) (location : Location) : List Token → Command → Prop
  | intro {body : List Token} {operands : List WrittenOperand} {form : Form} :
    Arguments OperandSpelled body operands → Form.select mnemonic operands location = .ok form →
    InstructionBody mnemonic location body (.instruction mnemonic form operands)

inductive BytesBody : List Token → Command → Prop
  | intro {body : List Token} {values : List Int} :
    Arguments ByteSpelled body values → (∀ value ∈ values, 0 ≤ value) →
    BytesBody body (.bytes (bytesOf values))

inductive StringBody (encoding : TextEncoding) : List Token → Command → Prop
  | intro {token : Token} {data : StringData} :
    token.lexeme = .string data.text → data.encoding = encoding →
    StringBody encoding [token] (.string data)

inductive FillBody : List Token → Command → Prop
  | intro {counted comma repeated : Token} {count value : Int} {spelling : Option String} :
    counted.lexeme = .number count → comma.lexeme = .delimiter .comma spelling →
    repeated.lexeme = .number value → value ≤ 0xFF →
    FillBody [counted, comma, repeated] (.fill count value)

inductive OriginBody : List Token → Command → Prop
  | zeros {targeted : Token} {target : Int} :
    targeted.lexeme = .number target →
    OriginBody [targeted] (.origin target targeted.location 0)
  | value {targeted comma repeated : Token} {target value : Int} {spelling : Option String} :
    targeted.lexeme = .number target → comma.lexeme = .delimiter .comma spelling →
    repeated.lexeme = .number value → value ≤ 0xFF →
    OriginBody [targeted, comma, repeated] (.origin target targeted.location value)

inductive ConstantBody : List Token → Command → Prop
  | intro {named comma valued : Token} {name : String} {value : Int} {spelling : Option String} :
    named.lexeme = .identifier name → comma.lexeme = .delimiter .comma spelling →
    valued.lexeme = .number value →
    ConstantBody [named, comma, valued] (.constant name named.location value)

inductive UseBody : List Token → Command → Prop
  | intro {token : Token} {literal : StringLiteral} :
    token.lexeme = literal.lexeme → UseBody [token] (.use literal.fileName token.location)

inductive SectionBody (name : String) : List Token → Command → Prop
  | intro : SectionBody name [] (.sectionMark name)

/-- What may follow the name of a directive. -/
def DirectiveBody (name : String) : List Token → Command → Prop :=
  match name with
  | ".byte" => BytesBody
  | ".ascii" => StringBody .ascii
  | ".asciz" => StringBody .asciz
  | ".utf8" => StringBody .utf8
  | ".fill" => FillBody
  | ".org" => OriginBody
  | ".equ" => ConstantBody
  | ".use" => UseBody
  | ".text" | ".data" => SectionBody name
  | _ => fun _ _ => False

theorem readInstruction_ok_iff {mnemonic : String} {ahead : Ahead} {command : Command}
    {rest : List Token} :
    readInstruction mnemonic ahead = .ok (command, rest) ↔
      Followed (InstructionBody mnemonic ahead.last) ahead.tokens command rest := by
  constructor
  · intro h
    unfold readInstruction at h
    split at h
    · cases h
    · next operands middle hList =>
      split at h
      · cases h
      · next form hForm =>
        split at h
        · cases h
        · next hFinish =>
          cases h
          obtain ⟨body, tail, hTokens, hArguments, hEnds⟩ :=
            (readList_ok_iff operandReader_takes).1 ⟨middle, hList, hFinish⟩
          exact ⟨body, tail, hTokens, .intro hArguments hForm, hEnds⟩
  · rintro ⟨body, tail, hTokens, ⟨hArguments, hForm⟩, hEnds⟩
    obtain ⟨middle, hList, hFinish⟩ :=
      (readList_ok_iff operandReader_takes).2 ⟨body, tail, hTokens, hArguments, hEnds⟩
    simp only [readInstruction, hList, hForm, hFinish]

theorem readBytes_ok_iff {ahead : Ahead} {command : Command} {rest : List Token} :
    readBytes ahead = .ok (command, rest) ↔ Followed BytesBody ahead.tokens command rest := by
  have hAny (values : List Int) :
      (values.any (· < 0)) = false ↔ ∀ value ∈ values, 0 ≤ value := by
    simp
  constructor
  · intro h
    unfold readBytes at h
    split at h
    · cases h
    · next values middle hList =>
      split at h
      · cases h
      · next hFinish =>
        obtain ⟨body, tail, hTokens, hArguments, hEnds⟩ :=
          (readList_ok_iff byteReader_takes).1 ⟨middle, hList, hFinish⟩
        split at h
        · cases h
        · next hPositive =>
          have hBody := BytesBody.intro hArguments ((hAny values).1 (by simpa using hPositive))
          unfold bytesOf at hBody
          split at h
          · next hEmpty =>
            cases h
            rw [if_pos hEmpty] at hBody
            exact ⟨body, tail, hTokens, hBody, hEnds⟩
          · next hEmpty =>
            cases h
            rw [if_neg hEmpty] at hBody
            exact ⟨body, tail, hTokens, hBody, hEnds⟩
  · rintro ⟨body, tail, hTokens, ⟨hArguments, hPositive⟩, hEnds⟩
    obtain ⟨middle, hList, hFinish⟩ :=
      (readList_ok_iff byteReader_takes).2 ⟨body, tail, hTokens, hArguments, hEnds⟩
    simp only [readBytes, hList, hFinish, (hAny _).2 hPositive, Bool.false_eq_true, if_false,
      bytesOf]
    split <;> rfl

/-- Of texts without surrogates only those beyond ASCII are refused, and not in UTF-8. -/
theorem accepts_text (encoding : TextEncoding) (text : String) :
    encoding.accepts (.text text) =
      (encoding == .utf8 || text.toList.all fun c => decide (c.toNat < 0x80)) := by
  unfold TextEncoding.accepts StringLiteral.points
  rw [List.all_map]
  cases encoding with
  | utf8 => simp [TextEncoding.takes]
  | ascii => rfl
  | asciz => rfl

theorem apply_eq_ok {literal : StringLiteral} {encoding : TextEncoding} {data : StringData} :
    encoding.apply literal = .ok data ↔ literal = .text data.text ∧ data.encoding = encoding := by
  constructor
  · intro h
    unfold TextEncoding.apply at h
    split at h
    · split at h
      · cases h
        exact ⟨rfl, rfl⟩
      · cases h
    · cases h
  · rintro ⟨rfl, rfl⟩
    exact dif_pos data.accepted

theorem apply_eq_error {literal : StringLiteral} {encoding : TextEncoding}
    {refused : RefusedString} :
    encoding.apply literal = .error refused ↔
      refused.literal = literal ∧ refused.encoding = encoding := by
  constructor
  · intro h
    unfold TextEncoding.apply at h
    split at h
    · split at h
      · cases h
      · cases h
        exact ⟨rfl, rfl⟩
    · cases h
      exact ⟨rfl, rfl⟩
  · obtain ⟨written, chosen, hRefused⟩ := refused
    rintro ⟨rfl, rfl⟩
    cases written with
    | text content => exact dif_neg (Bool.eq_false_iff.1 hRefused)
    | broken content => rfl

theorem readString_ok_iff {directive : String} {encoding : TextEncoding} {ahead : Ahead}
    {command : Command} {rest : List Token} :
    readString directive encoding ahead = .ok (command, rest) ↔
      Followed (StringBody encoding) ahead.tokens command rest := by
  constructor
  · intro h
    unfold readString at h
    split at h
    · cases h
    · next literal location middle hExpect =>
      split at h
      · cases h
      · next hFinish =>
        split at h
        · next data hData =>
          cases h
          obtain ⟨token, hTokens, hString, -, -⟩ := expect_ok_iff.1 hExpect
          obtain ⟨rfl, hEncoding⟩ := apply_eq_ok.1 hData
          exact ⟨[token], middle.tokens, hTokens, .intro (string?_eq_some.1 hString) hEncoding,
            finish_ok_iff.1 hFinish⟩
        · split at h <;> cases h
  · rintro ⟨body, tail, hTokens, @⟨token, data, hString, hEncoding⟩, hEnds⟩
    have hExpect : expect .string string? ahead =
        .ok ((.text data.text, token.location), ⟨token.location, tail⟩) :=
      expect_ok_iff.2 ⟨token, hTokens, string?_eq_some.2 hString, rfl, rfl⟩
    have hFinish : finish ⟨token.location, tail⟩ = .ok rest := finish_ok_iff.2 hEnds
    simp only [readString, hExpect, hFinish, apply_eq_ok.2 ⟨rfl, hEncoding⟩]

theorem readFill_ok_iff {ahead : Ahead} {command : Command} {rest : List Token} :
    readFill ahead = .ok (command, rest) ↔ Followed FillBody ahead.tokens command rest := by
  constructor
  · intro h
    unfold readFill at h
    split at h
    · cases h
    · next count location afterCount hCount =>
      split at h
      · cases h
      · next separator afterComma hComma =>
        split at h
        · cases h
        · next value afterValue hValue =>
          split at h
          · cases h
          · next hFinish =>
            cases h
            obtain ⟨⟨⟩, commaLocation⟩ := separator
            obtain ⟨counted, hTokens, hCounted, -, -⟩ := expect_ok_iff.1 hCount
            obtain ⟨comma, hAfterCount, hMark, -, -⟩ := expect_ok_iff.1 hComma
            obtain ⟨spelling, hSpelling⟩ := mark?_eq_some.1 hMark
            obtain ⟨repeated, hAfterComma, hRepeated, hNarrow, -⟩ := readByte_ok_iff.1 hValue
            refine ⟨[counted, comma, repeated], afterValue.tokens, ?_,
              .intro (number?_eq_some.1 hCounted) hSpelling hRepeated hNarrow,
              finish_ok_iff.1 hFinish⟩
            rw [hTokens, hAfterCount, hAfterComma]
            rfl
  · rintro ⟨body, tail, hTokens, @⟨counted, comma, repeated, count, value, spelling, hCounted,
      hSpelling, hRepeated, hNarrow⟩, hEnds⟩
    have hCount : expect .fillCount number? ahead = .ok ((count, counted.location),
        ⟨counted.location, comma :: repeated :: tail⟩) :=
      expect_ok_iff.2 ⟨counted, hTokens, number?_eq_some.2 hCounted, rfl, rfl⟩
    have hComma : expect .comma (mark? .comma) ⟨counted.location, comma :: repeated :: tail⟩ =
        .ok (((), comma.location), ⟨comma.location, repeated :: tail⟩) :=
      expect_ok_iff.2 ⟨comma, rfl, mark?_eq_some.2 ⟨spelling, hSpelling⟩, rfl, rfl⟩
    have hValue : readByte ⟨comma.location, repeated :: tail⟩ =
        .ok (value, ⟨repeated.location, tail⟩) :=
      readByte_ok_iff.2 ⟨repeated, rfl, hRepeated, hNarrow, rfl⟩
    have hFinish : finish ⟨repeated.location, tail⟩ = .ok rest := finish_ok_iff.2 hEnds
    simp only [readFill, hCount, hComma, hValue, hFinish]

theorem readOrigin_ok_iff {ahead : Ahead} {command : Command} {rest : List Token} :
    readOrigin ahead = .ok (command, rest) ↔ Followed OriginBody ahead.tokens command rest := by
  constructor
  · intro h
    unfold readOrigin at h
    split at h
    · cases h
    · next target location afterTarget hTarget =>
      obtain ⟨targeted, hTokens, hTargeted, rfl, -⟩ := expect_ok_iff.1 hTarget
      have hNumber := number?_eq_some.1 hTargeted
      split at h
      · cases h
      · next value afterValue hPadding =>
        split at h
        · cases h
        · next hFinish =>
          cases h
          have hEnds := finish_ok_iff.1 hFinish
          unfold readPadding at hPadding
          split at hPadding
          · next afterComma hAfter =>
            obtain ⟨comma, spelling, hSpelling, hAfterTarget, -⟩ := afterComma?_eq_some.1 hAfter
            obtain ⟨repeated, hAfterComma, hRepeated, hNarrow, -⟩ := readByte_ok_iff.1 hPadding
            refine ⟨[targeted, comma, repeated], afterValue.tokens, ?_,
              .value hNumber hSpelling hRepeated hNarrow, hEnds⟩
            rw [hTokens, hAfterTarget, hAfterComma]
            rfl
          · cases hPadding
            exact ⟨[targeted], afterTarget.tokens, hTokens, .zeros hNumber, hEnds⟩
  · rintro ⟨body, tail, hTokens, hBody, hEnds⟩
    cases hBody with
    | @zeros targeted target hTargeted =>
      have hTarget : expect .targetAddress number? ahead =
          .ok ((target, targeted.location), ⟨targeted.location, tail⟩) :=
        expect_ok_iff.2 ⟨targeted, hTokens, number?_eq_some.2 hTargeted, rfl, rfl⟩
      have hFinish : finish ⟨targeted.location, tail⟩ = .ok rest := finish_ok_iff.2 hEnds
      simp only [readOrigin, hTarget, readPadding, hEnds.afterComma?, hFinish]
    | @value targeted comma repeated target value spelling hTargeted hSpelling hRepeated hNarrow =>
      have hTarget : expect .targetAddress number? ahead = .ok ((target, targeted.location),
          ⟨targeted.location, comma :: repeated :: tail⟩) :=
        expect_ok_iff.2 ⟨targeted, hTokens, number?_eq_some.2 hTargeted, rfl, rfl⟩
      have hAfter : afterComma? ⟨targeted.location, comma :: repeated :: tail⟩ =
          some ⟨comma.location, repeated :: tail⟩ :=
        afterComma?_eq_some.2 ⟨comma, spelling, hSpelling, rfl, rfl⟩
      have hValue : readByte ⟨comma.location, repeated :: tail⟩ =
          .ok (value, ⟨repeated.location, tail⟩) :=
        readByte_ok_iff.2 ⟨repeated, rfl, hRepeated, hNarrow, rfl⟩
      have hFinish : finish ⟨repeated.location, tail⟩ = .ok rest := finish_ok_iff.2 hEnds
      simp only [readOrigin, hTarget, readPadding, hAfter, hValue, hFinish]

theorem readConstant_ok_iff {ahead : Ahead} {command : Command} {rest : List Token} :
    readConstant ahead = .ok (command, rest) ↔
      Followed ConstantBody ahead.tokens command rest := by
  constructor
  · intro h
    unfold readConstant at h
    split at h
    · cases h
    · next name location afterName hName =>
      split at h
      · cases h
      · next separator afterComma hComma =>
        split at h
        · cases h
        · next value valueLocation afterValue hValue =>
          split at h
          · cases h
          · next hFinish =>
            cases h
            obtain ⟨⟨⟩, commaLocation⟩ := separator
            obtain ⟨named, hTokens, hNamed, rfl, -⟩ := expect_ok_iff.1 hName
            obtain ⟨comma, hAfterName, hMark, -, -⟩ := expect_ok_iff.1 hComma
            obtain ⟨spelling, hSpelling⟩ := mark?_eq_some.1 hMark
            obtain ⟨valued, hAfterComma, hValued, -, -⟩ := expect_ok_iff.1 hValue
            refine ⟨[named, comma, valued], afterValue.tokens, ?_,
              .intro (identifier?_eq_some.1 hNamed) hSpelling (number?_eq_some.1 hValued),
              finish_ok_iff.1 hFinish⟩
            rw [hTokens, hAfterName, hAfterComma]
            rfl
  · rintro ⟨body, tail, hTokens, @⟨named, comma, valued, name, value, spelling, hNamed, hSpelling,
      hValued⟩, hEnds⟩
    have hName : expect .constantName identifier? ahead = .ok ((name, named.location),
        ⟨named.location, comma :: valued :: tail⟩) :=
      expect_ok_iff.2 ⟨named, hTokens, identifier?_eq_some.2 hNamed, rfl, rfl⟩
    have hComma : expect .comma (mark? .comma) ⟨named.location, comma :: valued :: tail⟩ =
        .ok (((), comma.location), ⟨comma.location, valued :: tail⟩) :=
      expect_ok_iff.2 ⟨comma, rfl, mark?_eq_some.2 ⟨spelling, hSpelling⟩, rfl, rfl⟩
    have hValue : expect .constantValue number? ⟨comma.location, valued :: tail⟩ =
        .ok ((value, valued.location), ⟨valued.location, tail⟩) :=
      expect_ok_iff.2 ⟨valued, rfl, number?_eq_some.2 hValued, rfl, rfl⟩
    have hFinish : finish ⟨valued.location, tail⟩ = .ok rest := finish_ok_iff.2 hEnds
    simp only [readConstant, hName, hComma, hValue, hFinish]

theorem readUse_ok_iff {ahead : Ahead} {command : Command} {rest : List Token} :
    readUse ahead = .ok (command, rest) ↔ Followed UseBody ahead.tokens command rest := by
  constructor
  · intro h
    unfold readUse at h
    split at h
    · cases h
    · next literal location middle hExpect =>
      split at h
      · cases h
      · next hFinish =>
        cases h
        obtain ⟨token, hTokens, hString, rfl, -⟩ := expect_ok_iff.1 hExpect
        exact ⟨[token], middle.tokens, hTokens, .intro (string?_eq_some.1 hString),
          finish_ok_iff.1 hFinish⟩
  · rintro ⟨body, tail, hTokens, @⟨token, literal, hString⟩, hEnds⟩
    have hExpect : expect .fileName string? ahead =
        .ok ((literal, token.location), ⟨token.location, tail⟩) :=
      expect_ok_iff.2 ⟨token, hTokens, string?_eq_some.2 hString, rfl, rfl⟩
    have hFinish : finish ⟨token.location, tail⟩ = .ok rest := finish_ok_iff.2 hEnds
    simp only [readUse, hExpect, hFinish]

theorem readSection_ok_iff {name : String} {ahead : Ahead} {command : Command}
    {rest : List Token} :
    readSection name ahead = .ok (command, rest) ↔
      Followed (SectionBody name) ahead.tokens command rest := by
  constructor
  · intro h
    unfold readSection at h
    split at h
    · cases h
    · next hFinish =>
      cases h
      exact ⟨[], ahead.tokens, rfl, .intro, finish_ok_iff.1 hFinish⟩
  · rintro ⟨body, tail, hTokens, ⟨⟩, hEnds⟩
    have hFinish : finish ahead = .ok rest := finish_ok_iff.2 (by rw [hTokens]; exact hEnds)
    simp only [readSection, hFinish]

theorem readDirective_ok_iff {name : String} {ahead : Ahead} {command : Command}
    {rest : List Token} :
    readDirective name ahead = .ok (command, rest) ↔
      Followed (DirectiveBody name) ahead.tokens command rest := by
  unfold readDirective
  split
  · exact readBytes_ok_iff
  · exact readString_ok_iff
  · exact readString_ok_iff
  · exact readString_ok_iff
  · exact readFill_ok_iff
  · exact readOrigin_ok_iff
  · exact readConstant_ok_iff
  · exact readUse_ok_iff
  · exact readSection_ok_iff
  · exact readSection_ok_iff
  · constructor
    · intro h
      cases h
    · rintro ⟨_, _, _, hBody, _⟩
      unfold DirectiveBody at hBody
      split at hBody
      case h_11 => exact hBody.elim
      all_goals contradiction

/-! ## Statements -/

/-- What may stand between the first token of an instruction or a directive and the end. -/
def Body (head : Token) (body : List Token) (command : Command) : Prop :=
  match head.lexeme with
  | .mnemonic name => InstructionBody name head.location body command
  | .directive name => DirectiveBody name body command
  | _ => False

/-- The command at the front of the tokens, and the tokens after its statement. -/
inductive Reads : List Token → Command → List Token → Prop
  | blank {token : Token} {rest : List Token} :
    token.lexeme = .newline → Reads (token :: rest) .blank rest
  | endInclude {token : Token} {rest : List Token} {file : FileMark} :
    token.lexeme = .endInclude file → Reads (token :: rest) (.endInclude file) rest
  | label {token colon : Token} {rest : List Token} {name : String} {spelling : Option String} :
    token.lexeme = .identifier name → colon.lexeme = .delimiter .colon spelling →
    Reads (token :: colon :: rest) (.label name) rest
  | statement {head : Token} {body tail rest : List Token} {command : Command} :
    Body head body command → Ends tail rest → Reads (head :: body ++ tail) command rest

theorem readCommand_ok_iff {token : Token} {tokens rest : List Token} {command : Command} :
    readCommand token tokens = .ok (command, rest) ↔ Reads (token :: tokens) command rest := by
  constructor
  · intro h
    unfold readCommand at h
    split at h
    · next hLine =>
      cases h
      exact .blank hLine
    · next hFile =>
      cases h
      exact .endInclude hFile
    · next hName =>
      cases h
      exact .label hName rfl
    · next name hMnemonic =>
      obtain ⟨body, tail, rfl, hBody, hEnds⟩ := readInstruction_ok_iff.1 h
      exact .statement (by rw [Body, hMnemonic]; exact hBody) hEnds
    · next name hDirective =>
      obtain ⟨body, tail, rfl, hBody, hEnds⟩ := readDirective_ok_iff.1 h
      exact .statement (by rw [Body, hDirective]; exact hBody) hEnds
    · cases h
  · intro h
    generalize hAll : token :: tokens = all at h
    cases h with
    | blank hLine =>
      cases hAll
      simp only [readCommand, hLine]
    | endInclude hFile =>
      cases hAll
      simp only [readCommand, hFile]
    | @label _ colon _ name spelling hName hColon =>
      obtain ⟨colonLexeme, colonLocation⟩ := colon
      cases hAll
      cases hColon
      simp only [readCommand, hName]
    | @statement _ body tail _ _ hBody hEnds =>
      cases hAll
      unfold Body at hBody
      split at hBody
      · next name hMnemonic =>
        simp only [readCommand, hMnemonic]
        exact readInstruction_ok_iff.2 ⟨body, tail, rfl, hBody, hEnds⟩
      · next name hDirective =>
        simp only [readCommand, hDirective]
        exact readDirective_ok_iff.2 ⟨body, tail, rfl, hBody, hEnds⟩
      · exact hBody.elim

/-- Reading succeeds exactly where the grammar has a command. -/
theorem read_ok_iff {token : Token} {tokens rest : List Token} {statement : Statement} :
    read token tokens = .ok (statement, rest) ↔
      statement.location = token.location ∧ Reads (token :: tokens) statement.command rest := by
  obtain ⟨location, command⟩ := statement
  rw [← readCommand_ok_iff]
  unfold read
  split
  · next fault hRead => simp [hRead]
  · next found after hRead =>
    rw [hRead]
    simp only [Except.ok.injEq, Prod.mk.injEq, Statement.mk.injEq]
    rw [and_assoc, eq_comm (a := token.location)]

/-! ## The tokens of a statement -/

/-- Whether a lexeme can stand inside a statement, after its first word. -/
def isArgument : Lexeme → Bool
  | .mnemonic _ | .directive _ | .newline | .endInclude _ => false
  | _ => true

theorem Arguments.forall_mem {α : Type} {Spelled : List Token → α → Prop} {P : Token → Prop}
    (hSpelled : ∀ {tokens a}, Spelled tokens a → ∀ token ∈ tokens, P token)
    (hComma : ∀ {token spelling}, token.lexeme = .delimiter .comma spelling → P token)
    {body : List Token} {values : List α} (h : Arguments Spelled body values) :
    ∀ token ∈ body, P token := by
  cases h with
  | none => exact List.forall_mem_nil _
  | some hSeparated =>
    induction hSeparated with
    | last hLast => exact hSpelled hLast
    | more hFirst hMark _ ih =>
      refine List.forall_mem_append.2 ⟨hSpelled hFirst, ?_⟩
      exact List.forall_mem_cons.2 ⟨hComma hMark, ih⟩

theorem isArgument_of_eq {token : Token} {lexeme : Lexeme} (h : token.lexeme = lexeme)
    (hLexeme : isArgument lexeme = true) : isArgument token.lexeme = true := by
  rw [h]
  exact hLexeme

theorem OperandSpelled.isArgument {tokens : List Token} {operand : WrittenOperand}
    (h : OperandSpelled tokens operand) :
    ∀ token ∈ tokens, Statement.isArgument token.lexeme = true := by
  cases h with
  | @bare token written hBare =>
    rw [List.forall_mem_singleton]
    cases hLexeme : token.lexeme <;> rw [hLexeme] at hBare <;> cases hBare <;> rfl
  | @inner opening inner closing left right written hLeft hInner hRight =>
    simp only [List.forall_mem_cons, hLeft, hRight]
    refine ⟨rfl, ?_, rfl, List.forall_mem_nil _⟩
    cases hLexeme : inner.lexeme <;> rw [hLexeme] at hInner <;> cases hInner <;> rfl

theorem ByteSpelled.isArgument {tokens : List Token} {value : Int} (h : ByteSpelled tokens value) :
    ∀ token ∈ tokens, Statement.isArgument token.lexeme = true := by
  obtain ⟨hNumber, -⟩ := h
  exact List.forall_mem_singleton.2 (isArgument_of_eq hNumber rfl)

theorem DirectiveBody.isArgument {name : String} {body : List Token} {command : Command}
    (h : DirectiveBody name body command) :
    ∀ token ∈ body, Statement.isArgument token.lexeme = true := by
  have hOne {token : Token} {lexeme : Lexeme} (hToken : token.lexeme = lexeme)
      (hLexeme : Statement.isArgument lexeme = true) :
      ∀ other ∈ [token], Statement.isArgument other.lexeme = true :=
    List.forall_mem_singleton.2 (isArgument_of_eq hToken hLexeme)
  have hThree {x y z : Token} {comma : Option String} {value : Int}
      (hx : Statement.isArgument x.lexeme = true) (hy : y.lexeme = .delimiter .comma comma)
      (hz : z.lexeme = .number value) :
      ∀ other ∈ [x, y, z], Statement.isArgument other.lexeme = true :=
    List.forall_mem_cons.2 ⟨hx, List.forall_mem_cons.2 ⟨isArgument_of_eq hy rfl, hOne hz rfl⟩⟩
  unfold DirectiveBody at h
  split at h
  · obtain ⟨hArguments, -⟩ := h
    exact hArguments.forall_mem ByteSpelled.isArgument fun hMark => isArgument_of_eq hMark rfl
  · obtain ⟨hText, -⟩ := h
    exact hOne hText rfl
  · obtain ⟨hText, -⟩ := h
    exact hOne hText rfl
  · obtain ⟨hText, -⟩ := h
    exact hOne hText rfl
  · obtain ⟨hCount, hComma, hValue, -⟩ := h
    exact hThree (isArgument_of_eq hCount rfl) hComma hValue
  · cases h with
    | zeros hTarget => exact hOne hTarget rfl
    | value hTarget hComma hValue _ => exact hThree (isArgument_of_eq hTarget rfl) hComma hValue
  · obtain ⟨hName, hComma, hValue⟩ := h
    exact hThree (isArgument_of_eq hName rfl) hComma hValue
  · obtain @⟨_, literal, hFile⟩ := h
    refine hOne hFile ?_
    cases literal <;> rfl
  · obtain ⟨⟩ := h
    exact List.forall_mem_nil _
  · obtain ⟨⟩ := h
    exact List.forall_mem_nil _
  · exact h.elim

/-- Neither a line end, nor the mark of a file, nor the start of another statement stands in a
body. -/
theorem Body.isArgument {head : Token} {body : List Token} {command : Command}
    (h : Body head body command) : ∀ token ∈ body, Statement.isArgument token.lexeme = true := by
  unfold Body at h
  split at h
  · obtain ⟨hArguments, -⟩ := h
    exact hArguments.forall_mem OperandSpelled.isArgument fun hMark => isArgument_of_eq hMark rfl
  · exact h.isArgument
  · exact h.elim

/-- The mark of a file's end that a token is. -/
def fileMark? (token : Token) : Option FileMark :=
  match token.lexeme with
  | .endInclude file => some file
  | _ => none

/-- The marks among some tokens, in their order. -/
def marks (tokens : List Token) : List FileMark := tokens.filterMap fileMark?

/-- The mark that a command is. -/
def closing : Command → List FileMark
  | .endInclude file => [file]
  | _ => []

theorem closing_eq_nil {command : Command} (h : ∀ file, command ≠ .endInclude file) :
    closing command = [] := by
  cases command with
  | endInclude file => exact absurd rfl (h file)
  | _ => rfl

theorem marks_append (tokens others : List Token) :
    marks (tokens ++ others) = marks tokens ++ marks others :=
  List.filterMap_append

theorem fileMark?_of_isArgument {token : Token} (h : isArgument token.lexeme = true) :
    fileMark? token = none := by
  obtain ⟨lexeme, location⟩ := token
  cases lexeme with
  | endInclude => cases h
  | _ => rfl

theorem Body.marks_eq_nil {head : Token} {body : List Token} {command : Command}
    (h : Body head body command) : marks (head :: body) = [] := by
  refine List.filterMap_eq_nil_iff.2 (List.forall_mem_cons.2 ⟨?_, ?_⟩)
  · obtain ⟨lexeme, location⟩ := head
    cases lexeme with
    | endInclude => exact h.elim
    | _ => rfl
  · exact fun token hMem => fileMark?_of_isArgument (h.isArgument token hMem)

theorem Body.closing_eq_nil {head : Token} {body : List Token} {command : Command}
    (h : Body head body command) : closing command = [] := by
  unfold Body at h
  split at h
  · obtain ⟨-, -⟩ := h
    rfl
  · unfold DirectiveBody at h
    split at h
    case h_6 => cases h <;> rfl
    case h_11 => exact h.elim
    all_goals
      obtain ⟨⟩ := h
      rfl
  · exact h.elim

/-- A statement takes at least one token from the front, and no mark but the one that it is. -/
theorem Reads.front {tokens rest : List Token} {command : Command} (h : Reads tokens command rest) :
    ∃ front, tokens = front ++ rest ∧ front ≠ [] ∧ marks front = closing command := by
  cases h with
  | @blank token _ hLine =>
    exact ⟨[token], rfl, List.cons_ne_nil _ _, by simp [marks, fileMark?, hLine, closing]⟩
  | @endInclude token _ file hFile =>
    exact ⟨[token], rfl, List.cons_ne_nil _ _, by simp [marks, fileMark?, hFile, closing]⟩
  | @label token colon _ name spelling hName hColon =>
    exact ⟨[token, colon], rfl, List.cons_ne_nil _ _,
      by simp [marks, fileMark?, hName, hColon, closing]⟩
  | @statement head body tail _ _ hBody hEnds =>
    rw [hBody.closing_eq_nil]
    cases hEnds with
    | input => exact ⟨head :: body, rfl, List.cons_ne_nil _ _, hBody.marks_eq_nil⟩
    | file => exact ⟨head :: body, rfl, List.cons_ne_nil _ _, hBody.marks_eq_nil⟩
    | @line token _ hLine =>
      refine ⟨head :: body ++ [token], by simp, by simp, ?_⟩
      rw [marks_append, hBody.marks_eq_nil]
      simp [marks, fileMark?, hLine]

end Lr35902.Statement
