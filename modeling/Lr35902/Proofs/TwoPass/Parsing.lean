import Lr35902.Proofs.Measured
import Lr35902.Proofs.TwoPass.Reference

/-!
Reading statements one by one and cutting the source into lines come to the same clauses. The
arguments between commas are the pieces of the body (`arguments_iff`), a body suits the head of a
statement exactly when the reference makes a clause of the two (`statement?_iff`), the statements
that are read from the tokens of a text are the clauses of its lines (`ReadAll.clauses`), and
whatever has clauses can be read (`readAll_of_clauses`).
-/
namespace Lr35902.TwoPass

open Statement (OperandSpelled ByteSpelled Separated Arguments Body Reads)

/-! ## Lists of options, and cuts -/

theorem mapM_eq_some_iff {α β : Type} {f : α → Option β} {as : List α} {bs : List β} :
    as.mapM f = some bs ↔ List.Forall₂ (fun a b => f a = some b) as bs := by
  induction as generalizing bs with
  | nil => simp [eq_comm]
  | cons a rest ih =>
    rw [List.mapM_cons, List.forall₂_cons_left_iff]
    simp only [Option.bind_eq_bind, Option.bind_eq_some_iff, Option.pure_def, Option.some.injEq, ih]
    constructor
    · rintro ⟨b, hFirst, more, hRest, rfl⟩
      exact ⟨b, more, hFirst, hRest, rfl⟩
    · rintro ⟨b, more, hFirst, hRest, rfl⟩
      exact ⟨b, hFirst, more, hRest, rfl⟩

/-- Tokens without a certain mark, or the tokens before the first such mark and those after it. -/
theorem cut_cases (isMark : Lexeme → Bool) (tokens : List Token) :
    (∀ token ∈ tokens, isMark token.lexeme = false) ∨
      ∃ first mark rest, tokens = first ++ mark :: rest ∧ isMark mark.lexeme = true ∧
        ∀ token ∈ first, isMark token.lexeme = false := by
  induction tokens with
  | nil => exact .inl (by simp)
  | cons token rest ih =>
    cases hMark : isMark token.lexeme with
    | true => exact .inr ⟨[], token, rest, rfl, hMark, by simp⟩
    | false =>
      rcases ih with hNone | ⟨first, mark, after, rfl, hFound, hFirst⟩
      · exact .inl (List.forall_mem_cons.2 ⟨hMark, hNone⟩)
      · exact .inr ⟨token :: first, mark, after, rfl, hFound,
          List.forall_mem_cons.2 ⟨hMark, hFirst⟩⟩

/-- The lexemes of some tokens. -/
abbrev lexemes (tokens : List Token) : List Lexeme := tokens.map Token.lexeme

theorem splitOnP_none {isMark : Lexeme → Bool} {tokens : List Token}
    (h : ∀ token ∈ tokens, isMark token.lexeme = false) :
    (lexemes tokens).splitOnP isMark = [lexemes tokens] :=
  List.splitOnP_eq_singleton (by simpa using h)

theorem splitOnP_first {isMark : Lexeme → Bool} {first rest : List Token} {mark : Token}
    (hFirst : ∀ token ∈ first, isMark token.lexeme = false) (hMark : isMark mark.lexeme = true) :
    (lexemes (first ++ mark :: rest)).splitOnP isMark =
      lexemes first :: (lexemes rest).splitOnP isMark := by
  rw [lexemes, List.map_append, List.map_cons]
  exact List.splitOnP_append_cons_of_forall_mem (by simpa using hFirst) _ hMark _

/-! ## Arguments between commas -/

section
variable {α β : Type} {Spelled : List Token → α → Prop} {piece? : List Lexeme → Option β}
  {view : α → β}

/-- A function recognises the pieces that spell something, and none of them holds a comma. -/
structure Recognises (piece? : List Lexeme → Option β) (Spelled : List Token → α → Prop)
    (view : α → β) : Prop where
  piece_iff : ∀ {tokens b}, piece? (lexemes tokens) = some b ↔ ∃ a, Spelled tokens a ∧ view a = b
  plain : ∀ {tokens a}, Spelled tokens a → ∀ token ∈ tokens, isComma token.lexeme = false
  nonempty : ∀ {tokens a}, Spelled tokens a → tokens ≠ []

theorem Recognises.separated_iff (h : Recognises piece? Spelled view) {body : List Token}
    {out : List β} :
    ((lexemes body).splitOnP isComma).mapM piece? = some out ↔
      ∃ values, Separated Spelled body values ∧ values.map view = out := by
  constructor
  · -- the body up to its first comma is one piece, and the rest is shorter
    induction hLength : body.length using Nat.strongRecOn generalizing body out with
    | ind n ih =>
      intro hOut
      rcases cut_cases isComma body with hNone | ⟨first, comma, rest, rfl, hComma, hFirst⟩
      · rw [splitOnP_none hNone, mapM_eq_some_iff, List.forall₂_cons_left_iff] at hOut
        obtain ⟨b, _, hPiece, hNil, rfl⟩ := hOut
        obtain rfl := List.forall₂_nil_left_iff.1 hNil
        obtain ⟨a, hSpelled, rfl⟩ := h.piece_iff.1 hPiece
        exact ⟨[a], .last hSpelled, rfl⟩
      · rw [splitOnP_first hFirst hComma, mapM_eq_some_iff, List.forall₂_cons_left_iff] at hOut
        obtain ⟨b, more, hPiece, hMore, rfl⟩ := hOut
        obtain ⟨a, hSpelled, rfl⟩ := h.piece_iff.1 hPiece
        have hShorter : rest.length < n := by
          rw [← hLength, List.length_append, List.length_cons]
          omega
        obtain ⟨values, hRest, rfl⟩ := ih rest.length hShorter rfl (mapM_eq_some_iff.2 hMore)
        obtain ⟨lexeme, location⟩ := comma
        cases lexeme with
        | delimiter mark spelling =>
          cases mark with
          | comma => exact ⟨a :: values, .more hSpelled rfl hRest, rfl⟩
          | colon | leftParen | rightParen => cases hComma
        | _ => cases hComma
  · rintro ⟨values, hSeparated, rfl⟩
    rw [mapM_eq_some_iff]
    induction hSeparated with
    | last hSpelled =>
      rw [splitOnP_none (h.plain hSpelled)]
      exact .cons (h.piece_iff.2 ⟨_, hSpelled, rfl⟩) .nil
    | more hSpelled hComma _ ih =>
      rw [splitOnP_first (h.plain hSpelled) (by rw [hComma]; rfl)]
      exact .cons (h.piece_iff.2 ⟨_, hSpelled, rfl⟩) ih

theorem Recognises.not_separated_nil (h : Recognises piece? Spelled view) {values : List α} :
    ¬Separated Spelled [] values := by
  intro hSeparated
  generalize hBody : ([] : List Token) = body at hSeparated
  cases hSeparated with
  | last hSpelled => exact h.nonempty hSpelled hBody.symm
  | more => exact absurd hBody (by simp)

theorem Recognises.arguments_iff (h : Recognises piece? Spelled view) {body : List Token}
    {out : List β} :
    (arguments (lexemes body)).mapM piece? = some out ↔
      ∃ values, Arguments Spelled body values ∧ values.map view = out := by
  cases body with
  | nil =>
    constructor
    · intro hOut
      cases hOut
      exact ⟨[], .none, rfl⟩
    · rintro ⟨values, hArguments, rfl⟩
      cases hArguments with
      | none => rfl
      | some hSeparated => exact absurd hSeparated h.not_separated_nil
  | cons token rest =>
    have hSplit : arguments (lexemes (token :: rest)) =
        (lexemes (token :: rest)).splitOnP isComma := rfl
    rw [hSplit, h.separated_iff]
    constructor
    · rintro ⟨values, hSeparated, rfl⟩
      exact ⟨values, .some hSeparated, rfl⟩
    · rintro ⟨values, hArguments, rfl⟩
      cases hArguments with
      | some hSeparated => exact ⟨values, hSeparated, rfl⟩

end

theorem lexemes_eq_one {tokens : List Token} {lexeme : Lexeme} :
    lexemes tokens = [lexeme] ↔ ∃ token, tokens = [token] ∧ token.lexeme = lexeme := by
  rw [lexemes, List.map_eq_singleton_iff]

theorem lexemes_eq_three {tokens : List Token} {a b c : Lexeme} :
    lexemes tokens = [a, b, c] ↔
      ∃ x y z, tokens = [x, y, z] ∧ x.lexeme = a ∧ y.lexeme = b ∧ z.lexeme = c := by
  constructor
  · intro h
    obtain ⟨x, rest, rfl, hx, hRest⟩ := List.map_eq_cons_iff.1 h
    obtain ⟨y, last, rfl, hy, hLast⟩ := List.map_eq_cons_iff.1 hRest
    obtain ⟨z, rfl, hz⟩ := lexemes_eq_one.1 hLast
    exact ⟨x, y, z, rfl, hx, hy, hz⟩
  · rintro ⟨x, y, z, rfl, rfl, rfl, rfl⟩
    rfl

theorem operand?_recognises : Recognises operand? OperandSpelled WrittenOperand.written where
  piece_iff := by
    intro tokens written
    constructor
    · intro h
      have hBare {lexeme : Lexeme} (hTokens : lexemes tokens = [lexeme])
          (hWritten : Statement.bare? lexeme = some written) :
          ∃ a, OperandSpelled tokens a ∧ a.written = written := by
        obtain ⟨token, rfl, rfl⟩ := lexemes_eq_one.1 hTokens
        exact ⟨_, .bare hWritten, rfl⟩
      have hInner {left right : Option String} {lexeme : Lexeme}
          (hTokens : lexemes tokens =
            [.delimiter .leftParen left, lexeme, .delimiter .rightParen right])
          (hWritten : Statement.inner? lexeme = some written) :
          ∃ a, OperandSpelled tokens a ∧ a.written = written := by
        obtain ⟨opening, inner, closing, rfl, hOpening, rfl, hClosing⟩ := lexemes_eq_three.1 hTokens
        exact ⟨_, .inner hOpening hWritten hClosing, rfl⟩
      unfold operand? at h
      split at h
      · next hTokens => exact hBare hTokens h
      · next hTokens => exact hBare hTokens h
      · next hTokens => exact hBare hTokens h
      · next hTokens => exact hBare hTokens h
      · next hTokens => exact hBare hTokens h
      · next hTokens => exact hInner hTokens h
      · next hTokens => exact hInner hTokens h
      · next hTokens => exact hInner hTokens h
      · next hTokens => exact hInner hTokens h
      · cases h
    · rintro ⟨operand, hSpelled, rfl⟩
      cases hSpelled with
      | @bare token written hWritten =>
        obtain ⟨lexeme, location⟩ := token
        cases lexeme <;> cases hWritten <;> rfl
      | @inner opening inner closing left right written hOpening hWritten hClosing =>
        obtain ⟨lexeme, location⟩ := inner
        rw [lexemes, List.map_cons, List.map_cons, List.map_cons, hOpening, hClosing]
        cases lexeme <;> cases hWritten <;> rfl
  plain := by
    intro tokens operand hSpelled
    cases hSpelled with
    | @bare token written hWritten =>
      rw [List.forall_mem_singleton]
      obtain ⟨lexeme, location⟩ := token
      cases lexeme <;> cases hWritten <;> rfl
    | @inner opening inner closing left right written hOpening hWritten hClosing =>
      simp only [List.forall_mem_cons, hOpening, hClosing]
      refine ⟨rfl, ?_, rfl, List.forall_mem_nil _⟩
      obtain ⟨lexeme, location⟩ := inner
      cases lexeme <;> cases hWritten <;> rfl
  nonempty := by
    intro tokens operand hSpelled
    cases hSpelled <;> simp

theorem byteValue?_recognises : Recognises byteValue? ByteSpelled id where
  piece_iff := by
    intro tokens value
    constructor
    · intro h
      unfold byteValue? at h
      split at h
      · next found hTokens =>
        split at h
        · next hNarrow =>
          cases h
          obtain ⟨token, rfl, hNumber⟩ := lexemes_eq_one.1 hTokens
          exact ⟨value, .number hNumber hNarrow, rfl⟩
        · cases h
      · cases h
    · rintro ⟨value, ⟨hNumber, hNarrow⟩, rfl⟩
      rw [lexemes, List.map_singleton, hNumber]
      exact if_pos hNarrow
  plain := by
    rintro tokens value ⟨hNumber, -⟩
    rw [List.forall_mem_singleton, hNumber]
    rfl
  nonempty := by
    rintro tokens value ⟨-, -⟩
    simp

/-! ## Forms -/

theorem highOffset?_isNone {value : Int} :
    (highOffset? value).isNone = true ↔ ¬(value ≤ 0xFF ∨ 0xFF00 ≤ value) := by
  unfold highOffset?
  split
  · next hLow => exact iff_of_false nofun (not_not_intro (.inl hLow))
  · next hBeyond =>
    split
    · next hHigh => exact iff_of_false nofun (not_not_intro (.inr hHigh))
    · next hBelow => exact iff_of_true rfl (not_or.2 ⟨hBeyond, hBelow⟩)

theorem suits_iff {cls : OperandClass} {written : Written} :
    suits cls written = true ↔ written.fit cls = .fits := by
  have hWhen {condition : Bool} : condition = true ↔ Fit.when condition = .fits := by
    cases condition <;> decide
  cases cls with
  | register | pair | highC | through | word | memory | relative => cases written <;> exact hWhen
  | condition k =>
    cases written with
    | register name =>
      cases k with
      | cr => exact hWhen
      | nz | z | nc => exact iff_of_false nofun nofun
    | _ => exact hWhen
  | byte =>
    cases written with
    | number value =>
      simp only [suits, Written.fit, decide_eq_true_eq]
      split
      · next hWide => exact iff_of_false (Int.not_le.2 hWide) nofun
      · next hNarrow => exact iff_of_true (Int.not_lt.1 hNarrow) rfl
    | _ => exact hWhen
  | high =>
    cases written with
    | address value =>
      simp only [suits, Written.fit, decide_eq_true_eq]
      split
      · next hNone => exact iff_of_false (highOffset?_isNone.1 hNone) nofun
      · next hSome =>
        refine iff_of_true (not_not.1 ?_) rfl
        exact fun hOutside => hSome (highOffset?_isNone.2 hOutside)
    | _ => exact hWhen
  | bit i =>
    cases written with
    | number value =>
      simp only [suits, Written.fit]
      split
      · next hFar =>
        refine iff_of_false ?_ nofun
        rw [beq_iff_eq]
        omega
      · exact hWhen
    | _ => exact hWhen
  | vector i =>
    cases written with
    | number value =>
      simp only [suits, Written.fit]
      split
      · exact hWhen
      · next hNone =>
        refine iff_of_false ?_ nofun
        rw [beq_iff_eq]
        rintro rfl
        exact hNone (List.any_eq_true.2 ⟨i, by revert i; decide, by simp⟩)
    | _ => exact hWhen

theorem suit_all_iff {classes : List OperandClass} {operands : List Written} :
    (classes.length == operands.length &&
        (classes.zip operands).all fun pair => suits pair.1 pair.2) = true ↔
      List.Forall₂ (fun written cls => written.fit cls = .fits) operands classes := by
  induction classes generalizing operands with
  | nil => cases operands <;> simp
  | cons cls classes ih =>
    cases operands with
    | nil => simp
    | cons written operands =>
      rw [List.forall₂_cons, ← ih, ← suits_iff]
      simp only [List.length_cons, List.zip_cons_cons, List.all_cons, Bool.and_eq_true,
        beq_iff_eq, Nat.add_right_cancel_iff]
      exact and_left_comm

theorem form?_eq (mnemonic : String) (operands : List WrittenOperand) :
    form? mnemonic (operands.map WrittenOperand.written) =
      (Form.ofName mnemonic).find? fun form => form.accepts operands := by
  have hAccepts (form : Form) : form.accepts operands =
      (form.operands.length == (operands.map WrittenOperand.written).length &&
        (form.operands.zip (operands.map WrittenOperand.written)).all fun pair =>
          suits pair.1 pair.2) := by
    rw [Bool.eq_iff_iff, Form.accepts_iff, suit_all_iff, List.forall₂_map_left_iff]
    rfl
  simp only [form?, hAccepts, Bool.and_assoc]
  unfold Form.ofName
  split
  · next m hName =>
    rw [List.find?_filter]
    congr 1
    funext form
    have hSame : (form.mnemonic.name == mnemonic) = (form.mnemonic == m) := by
      rw [Bool.eq_iff_iff, beq_iff_eq, beq_iff_eq, ← Mnemonic.ofName?_eq_some, hName]
      exact ⟨fun h => (Option.some.inj h).symm, fun h => by rw [h]⟩
    rw [hSame, Bool.eq_iff_iff, Bool.and_eq_true, decide_eq_true_eq]
  · next hNone =>
    rw [List.find?_nil, List.find?_eq_none]
    intro form _ hForm
    simp only [Bool.and_eq_true, beq_iff_eq] at hForm
    rw [Mnemonic.ofName?_eq_some.2 hForm.1] at hNone
    cases hNone

/-! ## Bodies of statements -/

/-- The clauses that a command comes to; blank lines and files have none. -/
def ofCommand : Command → List Clause
  | .blank | .endInclude _ | .use _ _ => []
  | .label name => [.label name]
  | .instruction _ form operands => [.instruction form (operands.map WrittenOperand.written)]
  | .bytes data => [.data data]
  | .string data => [.data data.payload]
  | .fill count value => [.fill count value]
  | .origin target _ value => [.origin target value]
  | .constant name _ value => [.constant name value]
  | .sectionMark _ => [.sectionMark]

/-- A body of some shape has a command that comes to a clause. -/
def Gives (Body : List Token → Command → Prop) (body : List Token) (clause : Clause) : Prop :=
  ∃ command, Body body command ∧ ofCommand command = [clause]

section
variable {body : List Token} {clause : Clause}

theorem instruction?_iff {mnemonic : String} {location : Location} :
    instruction? mnemonic (lexemes body) = some clause ↔
      Gives (Statement.InstructionBody mnemonic location) body clause := by
  simp only [instruction?, Option.bind_eq_bind, Option.bind_eq_some_iff, Option.pure_def,
    Option.some.injEq, operand?_recognises.arguments_iff]
  constructor
  · rintro ⟨_, ⟨operands, hArguments, rfl⟩, form, hForm, rfl⟩
    rw [form?_eq] at hForm
    exact ⟨_, .intro hArguments (Form.select_ok_iff.2 hForm), rfl⟩
  · rintro ⟨_, ⟨hArguments, hForm⟩, hClause⟩
    cases hClause
    refine ⟨_, ⟨_, hArguments, rfl⟩, _, ?_, rfl⟩
    rw [form?_eq]
    exact Form.select_ok_iff.1 hForm

theorem bytes?_iff (hLive : ∀ token ∈ body, token.Live) :
    bytes? (lexemes body) = some clause ↔ Gives Statement.BytesBody body clause := by
  simp only [bytes?, Option.bind_eq_bind, Option.bind_eq_some_iff, Option.pure_def,
    Option.some.injEq, byteValue?_recognises.arguments_iff, List.map_id_fun, id_eq]
  constructor
  · rintro ⟨_, ⟨values, hArguments, rfl⟩, rfl⟩
    refine ⟨.bytes (Statement.bytesOf values), .intro hArguments ?_, rfl⟩
    intro value hMem
    obtain ⟨tokens, ⟨hNumber, -⟩, hSubset⟩ := hArguments.part value hMem
    exact ((hLive _ (hSubset List.mem_cons_self)).number hNumber).1
  · rintro ⟨_, ⟨hArguments, -⟩, hClause⟩
    cases hClause
    exact ⟨_, ⟨_, hArguments, rfl⟩, rfl⟩

theorem encode_ascii {cs : List Char} (h : (cs.all fun c => decide (c.toNat < 0x80)) = true) :
    Utf8.encode cs = cs.map fun c => c.toNat.toUInt8 := by
  induction cs with
  | nil => rfl
  | cons c rest ih =>
    rw [List.all_cons, Bool.and_eq_true, decide_eq_true_eq] at h
    rw [Utf8.encode, List.flatMap_cons, Utf8.encodeChar, if_pos h.1, List.map_cons]
    exact congrArg _ (ih h.2)

theorem encodeChar_eq (c : Char) : Utf8.encodeChar c = String.utf8EncodeChar c := by
  have hRange : c.toNat < 0x110000 := by
    rcases c.valid with hLow | ⟨-, hHigh⟩
    · exact Nat.lt_trans hLow (by decide)
    · exact hHigh
  have hTail (n : Nat) : n % 64 + 128 = 0x80 + n % 64 := Nat.add_comm _ _
  have hVal : c.val.toNat = c.toNat := rfl
  simp only [Utf8.encodeChar, String.utf8EncodeChar, hVal, hTail]
  -- a lead byte has room for the top bits, so that the remainders there change nothing
  by_cases hOne : c.toNat < 0x80
  · rw [if_pos hOne, if_pos (Nat.le_of_lt_succ hOne)]
  · rw [if_neg hOne, if_neg (mt Nat.lt_succ_of_le hOne)]
    by_cases hTwo : c.toNat < 0x800
    · rw [if_pos hTwo, if_pos (Nat.le_of_lt_succ hTwo),
        show c.toNat / 64 % 32 + 192 = 0xC0 + c.toNat / 64 by omega]
    · rw [if_neg hTwo, if_neg (mt Nat.lt_succ_of_le hTwo)]
      by_cases hThree : c.toNat < 0x10000
      · rw [if_pos hThree, if_pos (Nat.le_of_lt_succ hThree),
          show c.toNat / 4096 % 16 + 224 = 0xE0 + c.toNat / 4096 by omega]
      · rw [if_neg hThree, if_neg (mt Nat.lt_succ_of_le hThree),
          show c.toNat / 262144 % 8 + 240 = 0xF0 + c.toNat / 262144 by omega]

theorem encode_eq (cs : List Char) : Utf8.encode cs = cs.flatMap String.utf8EncodeChar := by
  rw [Utf8.encode, show Utf8.encodeChar = String.utf8EncodeChar from funext encodeChar_eq]

/-- A string without a restriction to seven bits gives its UTF-8 bytes. -/
theorem utf8?_iff :
    utf8? (lexemes body) = some clause ↔ Gives (Statement.StringBody .utf8) body clause := by
  unfold utf8?
  split
  · next text hTokens =>
    obtain ⟨token, rfl, hText⟩ := lexemes_eq_one.1 hTokens
    rw [Option.some.injEq, ← encode_eq]
    constructor
    · rintro rfl
      exact ⟨.string ⟨text, .utf8, Statement.accepts_text .utf8 text⟩, .intro hText rfl, rfl⟩
    · rintro ⟨_, @⟨_, data, hSame, hEncoding⟩, hClause⟩
      cases hClause
      rw [hText] at hSame
      cases hSame
      simp [StringData.payload, hEncoding]
  · next hNone =>
    refine iff_of_false nofun ?_
    rintro ⟨_, @⟨token, data, hText, -⟩, -⟩
    exact hNone data.text (lexemes_eq_one.2 ⟨token, rfl, hText⟩)

theorem ascii?_iff {suffix : Bytes} {encoding : TextEncoding}
    (hEncoding : encoding = .ascii ∧ suffix = [] ∨ encoding = .asciz ∧ suffix = [0]) :
    ascii? suffix (lexemes body) = some clause ↔
      Gives (Statement.StringBody encoding) body clause := by
  have hAccepts (text : String) : encoding.accepts (.text text) =
      text.toList.all fun c => decide (c.toNat < 0x80) := by
    rw [Statement.accepts_text]
    rcases hEncoding with ⟨rfl, -⟩ | ⟨rfl, -⟩ <;> rfl
  have hPayload (data : StringData) (hData : data.encoding = encoding) :
      data.payload = data.text.toList.map (fun c => c.toNat.toUInt8) ++ suffix := by
    have hBits := data.accepted
    rw [hData, hAccepts] at hBits
    rw [StringData.payload, encode_ascii hBits]
    rcases hEncoding with ⟨rfl, rfl⟩ | ⟨rfl, rfl⟩ <;> simp [hData]
  unfold ascii?
  split
  · next text hTokens =>
    obtain ⟨token, rfl, hText⟩ := lexemes_eq_one.1 hTokens
    rw [← hAccepts]
    split
    · next hBits =>
      rw [Option.some.injEq]
      constructor
      · rintro rfl
        refine ⟨.string ⟨text, encoding, hBits⟩, .intro hText rfl, ?_⟩
        rw [ofCommand, hPayload _ rfl]
      · rintro ⟨_, @⟨_, data, hSame, hData⟩, hClause⟩
        cases hClause
        rw [hText] at hSame
        cases hSame
        rw [hPayload data hData]
    · next hBits =>
      refine iff_of_false nofun ?_
      rintro ⟨_, @⟨_, data, hSame, hData⟩, -⟩
      rw [hText] at hSame
      cases hSame
      have hAccepted := data.accepted
      rw [hData] at hAccepted
      exact hBits hAccepted
  · next hNone =>
    refine iff_of_false nofun ?_
    rintro ⟨_, @⟨token, data, hText, -⟩, -⟩
    exact hNone data.text (lexemes_eq_one.2 ⟨token, rfl, hText⟩)

theorem fill?_iff : fill? (lexemes body) = some clause ↔ Gives Statement.FillBody body clause := by
  constructor
  · intro h
    unfold fill? at h
    split at h
    · next count spelling value hTokens =>
      obtain ⟨counted, comma, repeated, rfl, hCount, hComma, hValue⟩ := lexemes_eq_three.1 hTokens
      split at h
      · next hNarrow =>
        cases h
        exact ⟨_, .intro hCount hComma hValue hNarrow, rfl⟩
      · cases h
    · cases h
  · rintro ⟨_, ⟨hCount, hComma, hValue, hNarrow⟩, hClause⟩
    cases hClause
    rw [lexemes_eq_three.2 ⟨_, _, _, rfl, hCount, hComma, hValue⟩]
    exact if_pos hNarrow

theorem origin?_iff :
    origin? (lexemes body) = some clause ↔ Gives Statement.OriginBody body clause := by
  constructor
  · intro h
    unfold origin? at h
    split at h
    · next target hTokens =>
      obtain ⟨targeted, rfl, hTarget⟩ := lexemes_eq_one.1 hTokens
      cases h
      exact ⟨_, .zeros hTarget, rfl⟩
    · next target spelling value hTokens =>
      obtain ⟨targeted, comma, repeated, rfl, hTarget, hComma, hValue⟩ :=
        lexemes_eq_three.1 hTokens
      split at h
      · next hNarrow =>
        cases h
        exact ⟨_, .value hTarget hComma hValue hNarrow, rfl⟩
      · cases h
    · cases h
  · rintro ⟨_, hBody, hClause⟩
    cases hBody with
    | zeros hTarget =>
      cases hClause
      rw [lexemes_eq_one.2 ⟨_, rfl, hTarget⟩]
      rfl
    | value hTarget hComma hValue hNarrow =>
      cases hClause
      rw [lexemes_eq_three.2 ⟨_, _, _, rfl, hTarget, hComma, hValue⟩]
      exact if_pos hNarrow

theorem constant?_iff :
    constant? (lexemes body) = some clause ↔ Gives Statement.ConstantBody body clause := by
  constructor
  · intro h
    unfold constant? at h
    split at h
    · next name spelling value hTokens =>
      obtain ⟨named, comma, valued, rfl, hName, hComma, hValue⟩ := lexemes_eq_three.1 hTokens
      cases h
      exact ⟨_, .intro hName hComma hValue, rfl⟩
    · cases h
  · rintro ⟨_, ⟨hName, hComma, hValue⟩, hClause⟩
    cases hClause
    rw [lexemes_eq_three.2 ⟨_, _, _, rfl, hName, hComma, hValue⟩]
    rfl

theorem sectionMark?_iff {name : String} :
    sectionMark? (lexemes body) = some clause ↔ Gives (Statement.SectionBody name) body clause := by
  cases body with
  | nil =>
    rw [show sectionMark? (lexemes []) = some .sectionMark from rfl, Option.some.injEq]
    constructor
    · rintro rfl
      exact ⟨_, .intro, rfl⟩
    · rintro ⟨_, ⟨⟩, hClause⟩
      cases hClause
      rfl
  | cons token rest =>
    refine iff_of_false nofun ?_
    rintro ⟨_, hBody, -⟩
    cases hBody

theorem directive?_iff {name : String} (hLive : ∀ token ∈ body, token.Live) :
    directive? name (lexemes body) = some clause ↔
      Gives (Statement.DirectiveBody name) body clause := by
  unfold directive? Statement.DirectiveBody
  split
  · exact bytes?_iff hLive
  · exact ascii?_iff (.inl ⟨rfl, rfl⟩)
  · exact ascii?_iff (.inr ⟨rfl, rfl⟩)
  · exact utf8?_iff
  · exact fill?_iff
  · exact origin?_iff
  · exact constant?_iff
  · exact sectionMark?_iff
  · exact sectionMark?_iff
  · refine iff_of_false nofun ?_
    rintro ⟨command, hBody, hClause⟩
    split at hBody
    case h_8 =>
      obtain ⟨-⟩ := hBody
      cases hClause
    case h_11 => exact hBody
    all_goals contradiction

theorem statement?_iff {head : Token} (hLive : ∀ token ∈ body, token.Live) :
    statement? head.lexeme (lexemes body) = some clause ↔ Gives (Body head) body clause := by
  obtain ⟨lexeme, location⟩ := head
  cases lexeme with
  | mnemonic name => exact instruction?_iff
  | directive name => exact directive?_iff hLive
  | _ => exact iff_of_false nofun fun ⟨_, hBody, _⟩ => hBody

end

/-! ## Lines -/

section
variable {tokens first rest : List Token}

theorem clauses?_single (h : ∀ token ∈ tokens, isNewline token.lexeme = false) :
    clauses? (lexemes tokens) = line? (lexemes tokens) := by
  rw [clauses?, splitOnP_none h]
  cases hLine : line? (lexemes tokens) with
  | none => simp [hLine]
  | some clauses => simp [hLine]

theorem clauses?_first {mark : Token} (hFirst : ∀ token ∈ first, isNewline token.lexeme = false)
    (hMark : isNewline mark.lexeme = true) :
    clauses? (lexemes (first ++ mark :: rest)) =
      (line? (lexemes first)).bind fun clauses =>
        (clauses? (lexemes rest)).map (clauses ++ ·) := by
  rw [clauses?, splitOnP_first hFirst hMark, clauses?]
  cases hLine : line? (lexemes first) with
  | none => simp [hLine]
  | some clauses =>
    cases hRest : ((lexemes rest).splitOnP isNewline).mapM line? with
    | none => simp [hLine, hRest]
    | some more => simp [hLine, hRest]

theorem clauses?_newline {token : Token} (h : token.lexeme = .newline) :
    clauses? (lexemes (token :: rest)) = clauses? (lexemes rest) := by
  have hCut : clauses? (lexemes ([] ++ token :: rest)) = _ :=
    clauses?_first (by simp) (by rw [h]; rfl)
  rw [List.nil_append] at hCut
  rw [hCut]
  simp [line?]

theorem clauses?_label {token colon : Token} {name : String} {spelling : Option String}
    (hName : token.lexeme = .identifier name) (hColon : colon.lexeme = .delimiter .colon spelling) :
    clauses? (lexemes (token :: colon :: rest)) =
      (clauses? (lexemes rest)).map (.label name :: ·) := by
  have hLine (line : List Token) : line? (lexemes (token :: colon :: line)) =
      (line? (lexemes line)).map (.label name :: ·) := by
    rw [lexemes, List.map_cons, List.map_cons, hName, hColon, line?]
  have hPlain {line : List Token} (h : ∀ token ∈ line, isNewline token.lexeme = false) :
      ∀ other ∈ token :: colon :: line, isNewline other.lexeme = false :=
    List.forall_mem_cons.2 ⟨by rw [hName]; rfl, List.forall_mem_cons.2 ⟨by rw [hColon]; rfl, h⟩⟩
  rcases cut_cases isNewline rest with hNone | ⟨line, mark, after, rfl, hMark, hLineEnd⟩
  · rw [clauses?_single (hPlain hNone), clauses?_single hNone, hLine]
  · have hCut : clauses? (lexemes (token :: colon :: line ++ mark :: after)) = _ :=
      clauses?_first (hPlain hLineEnd) hMark
    rw [List.cons_append, List.cons_append] at hCut
    rw [hCut, clauses?_first hLineEnd hMark, hLine]
    cases line? (lexemes line) with
    | none => rfl
    | some clauses => cases clauses? (lexemes after) <;> rfl

/-- A line that starts with no label is one statement. -/
theorem line?_statement {head : Lexeme} {body : List Lexeme}
    (h : ∀ name spelling more, head = .identifier name →
      body ≠ .delimiter .colon spelling :: more) :
    line? (head :: body) = (statement? head body).map ([·]) := by
  unfold line?
  split
  · next hNil => cases hNil
  · next name spelling more hCons =>
    cases hCons
    exact absurd rfl (h name spelling more rfl)
  · next hCons =>
    cases hCons
    rfl

end

/-- A statement without a line end is a line of its own. -/
theorem line?_of_statement {head : Token} {body : List Token} {clause : Clause}
    (h : statement? head.lexeme (lexemes body) = some clause)
    (hBody : ∀ token ∈ body, isNewline token.lexeme = false) :
    line? (lexemes (head :: body)) = some [clause] ∧
      ∀ token ∈ head :: body, isNewline token.lexeme = false := by
  obtain ⟨lexeme, location⟩ := head
  refine ⟨?_, List.forall_mem_cons.2 ⟨?_, hBody⟩⟩
  · rw [lexemes, List.map_cons, line?_statement, h]
    · rfl
    · rintro name spelling more rfl
      cases h
  · cases lexeme with
    | newline => cases h
    | _ => rfl

/-- Each directive but an inclusion is one clause. -/
theorem directiveBody_clause {name : String} {body : List Token} {command : Command}
    (h : Statement.DirectiveBody name body command) (hUse : name ≠ ".use") :
    ∃ clause, ofCommand command = [clause] := by
  unfold Statement.DirectiveBody at h
  split at h
  case h_6 => cases h <;> exact ⟨_, rfl⟩
  case h_8 => exact absurd rfl hUse
  case h_11 => exact h.elim
  all_goals
    obtain ⟨⟩ := h
    exact ⟨_, rfl⟩

theorem isNewline_of_isArgument {lexeme : Lexeme} (h : Statement.isArgument lexeme = true) :
    isNewline lexeme = false := by
  cases lexeme with
  | newline => cases h
  | _ => rfl

/-- No line ends inside a body, and each statement but an inclusion is one clause. -/
theorem body_plain {head : Token} {body : List Token} {command : Command}
    (h : Body head body command) :
    (∀ token ∈ body, isNewline token.lexeme = false) ∧
      (head.lexeme ≠ .directive ".use" → ∃ clause, ofCommand command = [clause]) := by
  refine ⟨fun token hMem => isNewline_of_isArgument (h.isArgument token hMem), ?_⟩
  intro hUse
  obtain ⟨lexeme, location⟩ := head
  cases lexeme with
  | mnemonic name =>
    obtain ⟨-, -⟩ := h
    exact ⟨_, rfl⟩
  | directive name => exact directiveBody_clause h fun hSame => hUse (by rw [hSame])
  | _ => exact h.elim

/-! ## Sources -/

/-- The statements that are read from tokens one after the other. -/
inductive ReadAll : List Token → List Statement → Prop
  | nil : ReadAll [] []
  | cons {token : Token} {tokens rest : List Token} {statement : Statement}
    {statements : List Statement} :
    Statement.read token tokens = .ok (statement, rest) → ReadAll rest statements →
    ReadAll (token :: tokens) (statement :: statements)

/-- A token of a text that includes no file. -/
def Plain (token : Token) : Prop := token.lexeme.Scanned ∧ token.lexeme ≠ .directive ".use"

theorem Plain.live {token : Token} (h : Plain token) : token.Live := .inl h.1

def clausesOf (statements : List Statement) : List Clause :=
  statements.flatMap fun statement => ofCommand statement.command

theorem clausesOf_cons (statement : Statement) (statements : List Statement) :
    clausesOf (statement :: statements) = ofCommand statement.command ++ clausesOf statements :=
  List.flatMap_cons

/-- Statements that are read one by one are the clauses of the source. -/
theorem ReadAll.clauses {tokens : List Token} {statements : List Statement}
    (h : ReadAll tokens statements) (hPlain : ∀ token ∈ tokens, Plain token) :
    clauses? (lexemes tokens) = some (clausesOf statements) := by
  induction h with
  | nil => rfl
  | @cons token tokens rest statement statements hRead _ ih =>
    obtain ⟨-, hReads⟩ := Statement.read_ok_iff.1 hRead
    have hRest := ih fun other hMem => hPlain other (hReads.rest_subset hMem)
    rw [clausesOf_cons]
    obtain ⟨location, command⟩ := statement
    generalize token :: tokens = all at hReads hPlain
    cases hReads with
    | blank hLine =>
      rw [clauses?_newline hLine]
      exact hRest
    | @endInclude token _ _ hFile =>
      -- no text has the mark of a file's end
      have hScanned := (hPlain token List.mem_cons_self).1
      rw [hFile] at hScanned
      exact hScanned.elim
    | label hName hColon =>
      rw [clauses?_label hName hColon, hRest]
      rfl
    | @statement head body tail _ _ hBody hEnds =>
      have hHead := hPlain head (by simp)
      obtain ⟨hNewline, hSingle⟩ := body_plain hBody
      obtain ⟨clause, hClause⟩ := hSingle hHead.2
      have hLive : ∀ token ∈ body, token.Live := by
        intro token hMem
        exact (hPlain token (by simp [hMem])).live
      have hStatement := (statement?_iff hLive).2 ⟨command, hBody, hClause⟩
      obtain ⟨hLine, hLineEnd⟩ := line?_of_statement hStatement hNewline
      rw [hClause]
      cases hEnds with
      | input =>
        have hNothing : some [] = some _ := hRest
        rw [List.append_nil, clauses?_single hLineEnd, hLine, ← Option.some.inj hNothing]
        rfl
      | line hMark =>
        rw [clauses?_first hLineEnd (by rw [hMark]; rfl), hLine, hRest]
        rfl
      | @file token _ _ hFile =>
        have hScanned := (hPlain token (by simp)).1
        rw [hFile] at hScanned
        exact hScanned.elim

theorem length_of_reads {tokens rest : List Token} {command : Command}
    (h : Statement.Reads tokens command rest) : rest.length < tokens.length := by
  obtain ⟨front, rfl, hFront, -⟩ := h.front
  have hLength := List.length_pos_iff.2 hFront
  rw [List.length_append]
  omega

theorem read_statement {token : Token} {body tail rest : List Token} {clause : Clause}
    (hLive : ∀ other ∈ body, other.Live) (hEnds : Statement.Ends tail rest)
    (h : statement? token.lexeme (lexemes body) = some clause) :
    ∃ statement, Statement.read token (body ++ tail) = .ok (statement, rest) ∧
      ofCommand statement.command = [clause] := by
  obtain ⟨command, hBody, hClause⟩ := (statement?_iff hLive).1 h
  exact ⟨⟨token.location, command⟩, Statement.read_ok_iff.2 ⟨rfl, .statement hBody hEnds⟩, hClause⟩

/-- A line that is neither blank nor labelled is one statement, up to a newline or the end. -/
theorem read_line {token : Token} {tokens : List Token} {clauses : List Clause}
    (hLive : ∀ other ∈ tokens, other.Live) (hNewline : token.lexeme ≠ .newline)
    (hLabel : ¬∃ name spelling colon after, token.lexeme = .identifier name ∧
      tokens = colon :: after ∧ colon.lexeme = .delimiter .colon spelling)
    (h : clauses? (lexemes (token :: tokens)) = some clauses) :
    ∃ statement rest more, Statement.read token tokens = .ok (statement, rest) ∧
      clauses? (lexemes rest) = some more ∧ ofCommand statement.command ++ more = clauses := by
  have hLine : ∀ body tail, tokens = body ++ tail → line? (lexemes (token :: body)) =
      (statement? token.lexeme (lexemes body)).map ([·]) := by
    intro body tail hTokens
    refine line?_statement ?_
    intro name spelling more hName hBody
    obtain ⟨colon, after, rfl, hColon, -⟩ := List.map_eq_cons_iff.1 hBody
    exact hLabel ⟨name, spelling, colon, after ++ tail, hName, hTokens, hColon⟩
  have hHead : isNewline token.lexeme = false := beq_eq_false_iff_ne.2 hNewline
  rcases cut_cases isNewline tokens with hNone | ⟨body, mark, after, rfl, hMark, hBody⟩
  · rw [clauses?_single (List.forall_mem_cons.2 ⟨hHead, hNone⟩),
      hLine tokens [] (List.append_nil tokens).symm, Option.map_eq_some_iff] at h
    obtain ⟨clause, hStatement, rfl⟩ := h
    obtain ⟨statement, hRead, hClause⟩ := read_statement hLive .input hStatement
    rw [List.append_nil] at hRead
    exact ⟨statement, [], [], hRead, rfl, by rw [hClause, List.append_nil]⟩
  · have hCut : clauses? (lexemes (token :: body ++ mark :: after)) = _ :=
      clauses?_first (List.forall_mem_cons.2 ⟨hHead, hBody⟩) hMark
    rw [List.cons_append] at hCut
    rw [hCut, hLine body _ rfl, Option.bind_eq_some_iff] at h
    obtain ⟨line, hOne, hMore⟩ := h
    obtain ⟨clause, hStatement, rfl⟩ := Option.map_eq_some_iff.1 hOne
    obtain ⟨more, hAfter, rfl⟩ := Option.map_eq_some_iff.1 hMore
    obtain ⟨statement, hRead, hClause⟩ := read_statement
      (fun other hMem => hLive other (List.mem_append_left _ hMem))
      (.line (beq_iff_eq.1 hMark)) hStatement
    exact ⟨statement, after, more, hRead, hAfter, by rw [hClause]⟩

/-- Whatever has clauses starts with a statement that can be read. -/
theorem read_of_clauses {token : Token} {tokens : List Token} {clauses : List Clause}
    (hLive : ∀ other ∈ tokens, other.Live)
    (h : clauses? (lexemes (token :: tokens)) = some clauses) :
    ∃ statement rest more, Statement.read token tokens = .ok (statement, rest) ∧
      clauses? (lexemes rest) = some more ∧ ofCommand statement.command ++ more = clauses := by
  by_cases hNewline : token.lexeme = .newline
  · rw [clauses?_newline hNewline] at h
    exact ⟨⟨token.location, .blank⟩, tokens, clauses,
      Statement.read_ok_iff.2 ⟨rfl, .blank hNewline⟩, h, rfl⟩
  · by_cases hLabel : ∃ name spelling colon after, token.lexeme = .identifier name ∧
        tokens = colon :: after ∧ colon.lexeme = .delimiter .colon spelling
    · obtain ⟨name, spelling, colon, after, hName, rfl, hColon⟩ := hLabel
      rw [clauses?_label hName hColon, Option.map_eq_some_iff] at h
      obtain ⟨more, hMore, rfl⟩ := h
      exact ⟨⟨token.location, .label name⟩, after, more,
        Statement.read_ok_iff.2 ⟨rfl, .label hName hColon⟩, hMore, rfl⟩
    · exact read_line hLive hNewline hLabel h

/-- The clauses of a source can be read one by one. -/
theorem readAll_of_clauses {tokens : List Token} {clauses : List Clause}
    (hPlain : ∀ token ∈ tokens, Plain token) (h : clauses? (lexemes tokens) = some clauses) :
    ∃ statements, ReadAll tokens statements ∧ clausesOf statements = clauses := by
  -- each statement takes tokens away, so the induction is on how many there are
  induction hLength : tokens.length using Nat.strongRecOn generalizing tokens clauses with
  | ind n ih =>
    cases tokens with
    | nil =>
      cases h
      exact ⟨[], .nil, rfl⟩
    | cons token tokens =>
      have hLive : ∀ other ∈ tokens, other.Live :=
        fun other hMem => (hPlain other (List.mem_cons_of_mem token hMem)).live
      obtain ⟨statement, rest, more, hRead, hMore, rfl⟩ := read_of_clauses hLive h
      have hReads := (Statement.read_ok_iff.1 hRead).2
      have hShorter : rest.length < n := by
        rw [← hLength]
        exact length_of_reads hReads
      obtain ⟨statements, hReadAll, rfl⟩ := ih rest.length hShorter
        (fun other hMem => hPlain other (hReads.rest_subset hMem)) hMore rfl
      exact ⟨statement :: statements, .cons hRead hReadAll, clausesOf_cons statement statements⟩

end Lr35902.TwoPass
