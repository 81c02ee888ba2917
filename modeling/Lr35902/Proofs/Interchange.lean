import Lr35902.Proofs.TwoPass.Correspondence
import Lr35902.Proofs.TwoPass.FormChoice
import Lr35902.Proofs.TwoPass.Tables

/-!
A symbol and its value are interchangeable in the operands of instructions. Operands that differ in
this way have the same value (`operandValue?_exchange`), and both suit the class of a form if the
value can be encoded there (`suits_exchange`). Since operands choose only one form, an instruction
keeps its form and its bytes (`instruction?_exchange`), statement by statement, and so do whole
programs (`symbol_literal_interchange`). A number that selects a bit or a restart vector cannot be
given by a name, so there the value may stand for the symbol but not the other way round.
-/
namespace Lr35902.TwoPass

open Assembly (Source Trace FileEffect)
open Relation (ReflGen)

/-! ## Places in a statement -/

/-- Where a token stands: outside the operands of instructions, in an operand that numbers a bit or
a restart vector, or in any other operand. -/
inductive Place where
  | outside
  | index
  | operand
  deriving DecidableEq

/-- The mnemonics whose first operand numbers a bit or a restart vector. -/
def indexed : List String := ["bit", "res", "set", "rst"]

/-- The place after a lexeme. -/
def Place.after (place : Place) : Lexeme → Place
  | .newline | .endInclude _ => .outside
  | .mnemonic name => if indexed.contains name then .index else .operand
  | .delimiter .comma _ => if place = .index then .operand else place
  | _ => place

/-- Tokens of which some are replaced, each by one that may stand in its place. -/
inductive Rewritten (Change : Place → Lexeme → Lexeme → Prop) :
    Place → List Token → List Token → Prop
  | nil {place : Place} : Rewritten Change place [] []
  | keep {place : Place} {token : Token} {tokens others : List Token} :
    Rewritten Change (place.after token.lexeme) tokens others →
    Rewritten Change place (token :: tokens) (token :: others)
  | change {place : Place} {token other : Token} {tokens others : List Token} :
    Change place token.lexeme other.lexeme →
    Rewritten Change (place.after token.lexeme) tokens others →
    Rewritten Change place (token :: tokens) (other :: others)

theorem rewritten_cons_iff {Change : Place → Lexeme → Lexeme → Prop} {place : Place}
    {token other : Token} {tokens others : List Token} :
    Rewritten Change place (token :: tokens) (other :: others) ↔
      (other = token ∨ Change place token.lexeme other.lexeme) ∧
        Rewritten Change (place.after token.lexeme) tokens others := by
  constructor
  · intro h
    cases h with
    | keep hRest => exact ⟨.inl rfl, hRest⟩
    | change hHere hRest => exact ⟨.inr hHere, hRest⟩
  · rintro ⟨rfl | hHere, hRest⟩
    · exact .keep hRest
    · exact .change hHere hRest

instance (Change : Place → Lexeme → Lexeme → Prop)
    [∀ place lexeme other, Decidable (Change place lexeme other)] :
    ∀ place tokens others, Decidable (Rewritten Change place tokens others)
  | _, [], [] => isTrue .nil
  | _, [], _ :: _ => isFalse nofun
  | _, _ :: _, [] => isFalse nofun
  | place, token :: tokens, _ :: others =>
    have := instDecidableRewritten Change (place.after token.lexeme) tokens others
    decidable_of_iff _ rewritten_cons_iff.symm

/-- A number for a name, in some places. -/
def Literal (places : List Place) (name : String) (value : Int) (place : Place)
    (lexeme other : Lexeme) : Prop :=
  place ∈ places ∧ lexeme = .identifier name ∧ other = .number value

instance (places : List Place) (name : String) (value : Int) (place : Place)
    (lexeme other : Lexeme) : Decidable (Literal places name value place lexeme other) :=
  inferInstanceAs (Decidable (_ ∧ _ ∧ _))

/-- A number for a name in any operand, or the name for the number where names are accepted. -/
inductive Exchange (name : String) (value : Int) : Place → Lexeme → Lexeme → Prop
  | literal {place : Place} : place ≠ .outside →
    Exchange name value place (.identifier name) (.number value)
  | symbol : Exchange name value .operand (.number value) (.identifier name)

def isWord : Lexeme → Bool
  | .identifier _ | .number _ => true
  | _ => false

theorem Place.after_of_isWord (place : Place) {lexeme : Lexeme} (h : isWord lexeme = true) :
    place.after lexeme = place := by
  cases lexeme with
  | identifier | number => rfl
  | _ => cases h

theorem Place.after_of_isArgument (place : Place) {lexeme : Lexeme}
    (h : Statement.isArgument lexeme = true) (hComma : isComma lexeme = false) :
    place.after lexeme = place := by
  cases lexeme with
  | mnemonic | newline | endInclude => cases h
  | delimiter mark spelling =>
    cases mark with
    | comma => cases hComma
    | _ => rfl
  | _ => rfl

theorem Place.after_of_isComma {place : Place} (hPlace : place ≠ .outside) {lexeme : Lexeme}
    (h : isComma lexeme = true) : place.after lexeme = .operand := by
  cases lexeme with
  | delimiter mark spelling =>
    cases mark with
    | comma =>
      cases place with
      | outside => exact absurd rfl hPlace
      | index | operand => rfl
    | _ => cases h
  | _ => cases h

theorem Place.after_outside {lexeme : Lexeme} (h : Statement.isArgument lexeme = true) :
    Place.outside.after lexeme = .outside := by
  cases lexeme with
  | mnemonic => cases h
  | delimiter mark spelling => cases mark <;> rfl
  | _ => rfl

theorem Exchange.isWord {name : String} {value : Int} {place : Place} {lexeme other : Lexeme}
    (h : Exchange name value place lexeme other) :
    isWord lexeme = true ∧ TwoPass.isWord other = true := by
  cases h <;> exact ⟨rfl, rfl⟩

theorem Exchange.inside {name : String} {value : Int} {place : Place} {lexeme other : Lexeme}
    (h : Exchange name value place lexeme other) : place ≠ .outside := by
  cases h with
  | literal hPlace => exact hPlace
  | symbol => decide

/-! ## Statements -/

section
variable {Change Other : Place → Lexeme → Lexeme → Prop} {place : Place}
  {tokens others rest : List Token}

theorem Rewritten.mono (h : Rewritten Change place tokens others)
    (hChange : ∀ {place lexeme other}, Change place lexeme other → Other place lexeme other) :
    Rewritten Other place tokens others := by
  induction h with
  | nil => exact .nil
  | keep _ ih => exact .keep ih
  | change hHere _ ih => exact .change (hChange hHere) ih

theorem Rewritten.flip (h : Rewritten Change place tokens others)
    (hChange : ∀ {place lexeme other}, Change place lexeme other →
      Other place other lexeme ∧ place.after lexeme = place.after other) :
    Rewritten Other place others tokens := by
  induction h with
  | nil => exact .nil
  | keep _ ih => exact .keep ih
  | change hHere _ ih =>
    obtain ⟨hOther, hAfter⟩ := hChange hHere
    rw [hAfter] at ih
    exact .change hOther ih

theorem Rewritten.append_inv {front : List Token}
    (h : Rewritten Change place (front ++ rest) others) :
    ∃ first left last, others = first ++ left ∧ Rewritten Change place front first ∧
      Rewritten Change last rest left := by
  induction front generalizing place others with
  | nil => exact ⟨[], others, place, rfl, .nil, h⟩
  | cons token front ih =>
    cases h with
    | keep hMore =>
      obtain ⟨first, left, last, rfl, hFirst, hLeft⟩ := ih hMore
      exact ⟨token :: first, left, last, rfl, .keep hFirst, hLeft⟩
    | @change _ _ other _ _ hHere hMore =>
      obtain ⟨first, left, last, rfl, hFirst, hLeft⟩ := ih hMore
      exact ⟨other :: first, left, last, rfl, .change hHere hFirst, hLeft⟩

/-- A file that is brought in stays as it is. -/
theorem Rewritten.included (h : Rewritten Change .outside tokens others) {mark : Token}
    {file : FileMark} (hMark : mark.lexeme = .endInclude file) (included : List Token)
    (place : Place) :
    Rewritten Change place (included ++ [mark] ++ tokens) (included ++ [mark] ++ others) := by
  induction included generalizing place with
  | nil =>
    refine .keep ?_
    rw [hMark]
    exact h
  | cons token included ih => exact .keep (ih _)

end

section
variable {name : String} {value : Int} {place : Place} {tokens others rest : List Token}

theorem Rewritten.kept {token : Token}
    (h : Rewritten (Exchange name value) place (token :: rest) others)
    (hKept : place = .outside ∨ isWord token.lexeme = false) :
    ∃ left, others = token :: left ∧
      Rewritten (Exchange name value) (place.after token.lexeme) rest left := by
  cases h with
  | keep hRest => exact ⟨_, rfl, hRest⟩
  | change hHere _ =>
    rcases hKept with hPlace | hWord
    · exact absurd hPlace hHere.inside
    · rw [hHere.isWord.1] at hWord
      cases hWord

theorem Rewritten.ends {tail : List Token}
    (h : Rewritten (Exchange name value) place tail others) (hEnds : Statement.Ends tail rest) :
    ∃ left, Statement.Ends others left ∧ Rewritten (Exchange name value) .outside rest left := by
  cases hEnds with
  | input =>
    cases h
    exact ⟨[], .input, .nil⟩
  | line hLine =>
    obtain ⟨left, rfl, hLeft⟩ := h.kept (.inr (by rw [hLine]; rfl))
    rw [hLine] at hLeft
    exact ⟨left, .line hLine, hLeft⟩
  | @file token _ _ hFile =>
    obtain ⟨left, rfl, hLeft⟩ := h.kept (.inr (by rw [hFile]; rfl))
    have hAfter : place.after token.lexeme = Place.outside.after token.lexeme := by rw [hFile]; rfl
    rw [hAfter] at hLeft
    exact ⟨token :: left, .file hFile, .keep hLeft⟩

theorem Rewritten.eq_of_outside {body first : List Token}
    (h : Rewritten (Exchange name value) .outside body first)
    (hBody : ∀ token ∈ body, Statement.isArgument token.lexeme = true) : first = body := by
  induction body generalizing first with
  | nil =>
    cases h
    rfl
  | cons token body ih =>
    obtain ⟨hHead, hBody⟩ := List.forall_mem_cons.1 hBody
    obtain ⟨left, rfl, hLeft⟩ := h.kept (.inl rfl)
    rw [Place.after_outside hHead] at hLeft
    rw [ih hLeft hBody]

end

/-! ## Operands -/

/-- Operands of which one has a symbol for the value of the other. -/
inductive OperandExchange (name : String) (value : Int) : Place → Written → Written → Prop
  | literal {place : Place} : OperandExchange name value place (.name name) (.number value)
  | addressLiteral {place : Place} :
    OperandExchange name value place (.addressName name) (.address value)
  | symbol : OperandExchange name value .operand (.number value) (.name name)
  | addressSymbol : OperandExchange name value .operand (.address value) (.addressName name)

/-- The operands of an instruction, the first of which has a place of its own. -/
inductive OperandsExchange (name : String) (value : Int) (place : Place) :
    List Written → List Written → Prop
  | nil : OperandsExchange name value place [] []
  | cons {written other : Written} {operands others : List Written} :
    ReflGen (OperandExchange name value place) written other →
    List.Forall₂ (ReflGen (OperandExchange name value .operand)) operands others →
    OperandsExchange name value place (written :: operands) (other :: others)

section
variable {name : String} {value : Int} {place : Place}

theorem operand?_cases {piece : List Lexeme} {written : Written}
    (h : operand? piece = some written) :
    (∃ lexeme, piece = [lexeme]) ∨ ∃ left lexeme right,
      piece = [.delimiter .leftParen left, lexeme, .delimiter .rightParen right] := by
  unfold operand? at h
  split at h
  case h_10 => cases h
  case h_1 | h_2 | h_3 | h_4 | h_5 => exact .inl ⟨_, rfl⟩
  all_goals exact .inr ⟨_, _, _, rfl⟩

theorem eq_of_exchange {lexeme other : Lexeme}
    (h : ReflGen (Exchange name value place) lexeme other) (hWord : isWord lexeme = false) :
    other = lexeme := by
  cases h with
  | refl => rfl
  | single hExchange =>
    rw [hExchange.isWord.1] at hWord
    cases hWord

theorem operand?_exchange {piece other : List Lexeme} {written : Written}
    (h : List.Forall₂ (ReflGen (Exchange name value place)) piece other)
    (hWritten : operand? piece = some written) :
    ∃ same, operand? other = some same ∧
      ReflGen (OperandExchange name value place) written same := by
  rcases operand?_cases hWritten with ⟨lexeme, rfl⟩ | ⟨left, lexeme, right, rfl⟩
  · obtain ⟨first, _, hFirst, hNil, rfl⟩ := List.forall₂_cons_left_iff.1 h
    obtain rfl := List.forall₂_nil_left_iff.1 hNil
    cases hFirst with
    | refl => exact ⟨written, hWritten, .refl⟩
    | single hExchange =>
      cases hExchange with
      | literal =>
        cases hWritten
        exact ⟨_, rfl, .single .literal⟩
      | symbol =>
        cases hWritten
        exact ⟨_, rfl, .single .symbol⟩
  · obtain ⟨first, _, hFirst, hMore, rfl⟩ := List.forall₂_cons_left_iff.1 h
    obtain ⟨second, _, hSecond, hLast, rfl⟩ := List.forall₂_cons_left_iff.1 hMore
    obtain ⟨third, _, hThird, hNil, rfl⟩ := List.forall₂_cons_left_iff.1 hLast
    obtain rfl := List.forall₂_nil_left_iff.1 hNil
    obtain rfl := eq_of_exchange hFirst rfl
    obtain rfl := eq_of_exchange hThird rfl
    cases hSecond with
    | refl => exact ⟨written, hWritten, .refl⟩
    | single hExchange =>
      cases hExchange with
      | literal =>
        cases hWritten
        exact ⟨_, rfl, .single .addressLiteral⟩
      | symbol =>
        cases hWritten
        exact ⟨_, rfl, .single .addressSymbol⟩

/-- Commas stay where they are, and what stands between them is exchanged piece by piece. -/
theorem Rewritten.pieces {body first : List Token}
    (h : Rewritten (Exchange name value) place body first) (hPlace : place ≠ .outside)
    (hBody : ∀ token ∈ body, Statement.isArgument token.lexeme = true) :
    ∃ piece pieces other others, (lexemes body).splitOnP isComma = piece :: pieces ∧
      (lexemes first).splitOnP isComma = other :: others ∧
      List.Forall₂ (ReflGen (Exchange name value place)) piece other ∧
      List.Forall₂ (List.Forall₂ (ReflGen (Exchange name value .operand))) pieces others := by
  induction h with
  | nil => exact ⟨[], [], [], [], rfl, rfl, .nil, .nil⟩
  | @keep place token tokens others _ ih =>
    obtain ⟨hToken, hBody⟩ := List.forall_mem_cons.1 hBody
    by_cases hComma : isComma token.lexeme = true
    · rw [Place.after_of_isComma hPlace hComma] at ih
      obtain ⟨piece, pieces, other, more, hPieces, hMore, hPiece, hRest⟩ := ih (by decide) hBody
      refine ⟨[], piece :: pieces, [], other :: more, ?_, ?_, .nil, .cons hPiece hRest⟩
      · simp [List.splitOnP_cons_eq_if_modifyHead, hComma, hPieces]
      · simp [List.splitOnP_cons_eq_if_modifyHead, hComma, hMore]
    · rw [Place.after_of_isArgument place hToken (Bool.eq_false_iff.2 hComma)] at ih
      obtain ⟨piece, pieces, other, more, hPieces, hMore, hPiece, hRest⟩ := ih hPlace hBody
      refine ⟨token.lexeme :: piece, pieces, token.lexeme :: other, more, ?_, ?_,
        .cons .refl hPiece, hRest⟩
      · simp [List.splitOnP_cons_eq_if_modifyHead, hComma, hPieces]
      · simp [List.splitOnP_cons_eq_if_modifyHead, hComma, hMore]
  | @change place token changed tokens others hHere _ ih =>
    obtain ⟨-, hBody⟩ := List.forall_mem_cons.1 hBody
    have hComma {lexeme : Lexeme} (hWord : isWord lexeme = true) : isComma lexeme = false := by
      cases lexeme with
      | delimiter => cases hWord
      | _ => rfl
    rw [Place.after_of_isWord place hHere.isWord.1] at ih
    obtain ⟨piece, pieces, other, more, hPieces, hMore, hPiece, hRest⟩ := ih hPlace hBody
    refine ⟨token.lexeme :: piece, pieces, changed.lexeme :: other, more, ?_, ?_,
      .cons (.single hHere) hPiece, hRest⟩
    · simp [List.splitOnP_cons_eq_if_modifyHead, hComma hHere.isWord.1, hPieces]
    · simp [List.splitOnP_cons_eq_if_modifyHead, hComma hHere.isWord.2, hMore]

theorem operands_exchange {pieces others : List (List Lexeme)} {operands : List Written}
    (h : List.Forall₂ (List.Forall₂ (ReflGen (Exchange name value place))) pieces others)
    (hOperands :
      List.Forall₂ (fun piece written => operand? piece = some written) pieces operands) :
    ∃ same, List.Forall₂ (fun piece written => operand? piece = some written) others same ∧
      List.Forall₂ (ReflGen (OperandExchange name value place)) operands same := by
  induction h generalizing operands with
  | nil =>
    obtain rfl := List.forall₂_nil_left_iff.1 hOperands
    exact ⟨[], .nil, .nil⟩
  | cons hPiece _ ih =>
    obtain ⟨written, rest, hWritten, hRest, rfl⟩ := List.forall₂_cons_left_iff.1 hOperands
    obtain ⟨other, hOther, hSame⟩ := operand?_exchange hPiece hWritten
    obtain ⟨more, hMore, hAll⟩ := ih hRest
    exact ⟨other :: more, .cons hOther hMore, .cons hSame hAll⟩

theorem arguments_exchange {body first : List Token} {operands : List Written}
    (h : Rewritten (Exchange name value) place body first) (hPlace : place ≠ .outside)
    (hBody : ∀ token ∈ body, Statement.isArgument token.lexeme = true)
    (hOperands : (arguments (lexemes body)).mapM operand? = some operands) :
    ∃ same, (arguments (lexemes first)).mapM operand? = some same ∧
      OperandsExchange name value place operands same := by
  obtain ⟨piece, pieces, other, others, hPieces, hOthers, hPiece, hRest⟩ := h.pieces hPlace hBody
  have hArguments {token : Token} {tokens : List Token} : arguments (lexemes (token :: tokens)) =
      (lexemes (token :: tokens)).splitOnP isComma := rfl
  have hSplit : ∀ {pieces : List (List Lexeme)}, pieces.mapM operand? = some operands →
      List.Forall₂ (fun piece written => operand? piece = some written) pieces operands :=
    mapM_eq_some_iff.1
  -- an empty body has no operands, although it would be one empty piece
  cases h with
  | nil =>
    cases hOperands
    exact ⟨[], rfl, .nil⟩
  | keep | change =>
    rw [hArguments, hPieces] at hOperands
    obtain ⟨written, operands, hWritten, hMore, rfl⟩ :=
      List.forall₂_cons_left_iff.1 (hSplit hOperands)
    obtain ⟨same, hSame, hExchange⟩ := operand?_exchange hPiece hWritten
    obtain ⟨more, hLater, hAll⟩ := operands_exchange hRest hMore
    refine ⟨same :: more, ?_, .cons hExchange hAll⟩
    rw [hArguments, hOthers]
    exact mapM_eq_some_iff.2 (.cons hSame hLater)

end

/-! ## Instructions -/

section
variable {name : String} {value next : Int} {place : Place} {table : List Definition}

theorem operandValue?_exchange (hValue : valueOf? table name = some value) {written other : Written}
    (h : ReflGen (OperandExchange name value place) written other) :
    operandValue? table other = operandValue? table written := by
  cases h with
  | refl => rfl
  | single hExchange => cases hExchange <;> simp [operandValue?, hValue]

theorem part?_of_value {cls : OperandClass} {written : Written} (hSlot : cls.size ≠ 0)
    (h : operandValue? table written = some value) :
    part? table next cls written = slot? cls next value := by
  rw [part?, if_neg hSlot, h]
  rfl

/-- What can be encoded suits a class with its symbol as well as with its value. -/
theorem suits_exchange (hValue : valueOf? table name = some value) {cls : OperandClass}
    {written other : Written} (h : ReflGen (OperandExchange name value place) written other)
    (hRole : place = .operand → cls.numberRole = .value) (hSuits : suits cls written = true)
    (hPart : (part? table next cls written).isSome = true) : suits cls other = true := by
  cases h with
  | refl => exact hSuits
  | single hExchange =>
    cases hExchange with
    | literal =>
      cases cls with
      | byte =>
        have hSlot : part? table next .byte (.name name) = slot? .byte next value :=
          part?_of_value (by decide) hValue
        rw [hSlot, slot?] at hPart
        split at hPart
        · next hFits => exact decide_eq_true hFits
        · cases hPart
      | word | relative => rfl
      | _ => cases hSuits
    | addressLiteral =>
      cases cls with
      | high =>
        have hSlot : part? table next .high (.addressName name) = slot? .high next value :=
          part?_of_value (by decide) hValue
        rw [hSlot, slot?] at hPart
        apply decide_eq_true
        split at hPart
        · next hLow => exact .inl hLow
        · split at hPart
          · next hHigh => exact .inr hHigh
          · cases hPart
      | memory => rfl
      | _ => cases hSuits
    | symbol =>
      cases cls with
      | byte | word | relative => rfl
      | bit | vector => cases hRole rfl
      | _ => cases hSuits
    | addressSymbol =>
      cases cls with
      | high | memory => rfl
      | _ => cases hSuits

theorem suits_all_exchange (hValue : valueOf? table name = some value)
    {classes : List OperandClass} {operands others : List Written}
    (hSuits : List.Forall₂ (fun cls written => suits cls written = true) classes operands)
    (h : List.Forall₂ (ReflGen (OperandExchange name value .operand)) operands others)
    (hRoles : ∀ cls ∈ classes, cls.numberRole = .value)
    (hParts : ∀ pair ∈ classes.zip operands, (part? table next pair.1 pair.2).isSome = true) :
    List.Forall₂ (fun cls written => suits cls written = true) classes others := by
  induction hSuits generalizing others with
  | nil =>
    obtain rfl := List.forall₂_nil_left_iff.1 h
    exact .nil
  | cons hHead _ ih =>
    obtain ⟨other, rest, hOther, hRest, rfl⟩ := List.forall₂_cons_left_iff.1 h
    obtain ⟨hRole, hRoles⟩ := List.forall_mem_cons.1 hRoles
    obtain ⟨hPart, hParts⟩ := List.forall_mem_cons.1 hParts
    exact .cons (suits_exchange hValue hOther (fun _ => hRole) hHead hPart) (ih hRest hRoles hParts)

theorem numberRole_of_after (m : Mnemonic) :
    Place.outside.after (.mnemonic m.name) = .operand → m.numberRole = .value := by
  cases m <;> decide

theorem Chosen.exchange (hValue : valueOf? table name = some value) {mnemonic : String}
    {operands others : List Written} {form : Form} (hForm : Chosen mnemonic operands form)
    (h : OperandsExchange name value (Place.outside.after (.mnemonic mnemonic)) operands others)
    (hParts : ∀ pair ∈ form.operands.zip operands, (part? table next pair.1 pair.2).isSome = true) :
    Chosen mnemonic others form := by
  obtain ⟨hMem, rfl, hSuits⟩ := hForm
  refine ⟨hMem, rfl, ?_⟩
  have hRoles := Form.numberRoles_eq hMem
  cases h with
  | nil => exact hSuits
  | cons hFirst hRest =>
    obtain ⟨cls, classes, hHead, hTail, hClasses⟩ := List.forall₂_cons_right_iff.1 hSuits
    rw [hClasses] at hRoles hParts ⊢
    obtain ⟨hRole, hRoles⟩ := List.cons.inj hRoles
    obtain ⟨hPart, hParts⟩ := List.forall_mem_cons.1 hParts
    have hFirstRole : Place.outside.after (.mnemonic form.mnemonic.name) = .operand →
        cls.numberRole = .value := by
      intro hPlace
      rw [hRole, numberRole_of_after _ hPlace]
    have hRestRoles : ∀ cls ∈ classes, cls.numberRole = .value := by
      intro cls hCls
      apply List.eq_of_mem_replicate
      rw [← hRoles]
      exact List.mem_map_of_mem hCls
    exact .cons (suits_exchange hValue hFirst hFirstRole hHead hPart)
      (suits_all_exchange hValue hTail hRest hRestRoles hParts)

theorem parts_of_encode? {form : Form} {operands : List Written} {address : Int} {bytes : Bytes}
    (h : (Clause.instruction form operands).encode? table address = some bytes) :
    ∀ pair ∈ form.operands.zip operands,
      (part? table (address + form.size) pair.1 pair.2).isSome = true := by
  simp only [Clause.encode?, Option.bind_eq_bind, Option.bind_eq_some_iff] at h
  obtain ⟨parts, hParts, -⟩ := h
  intro pair hMem
  obtain ⟨part, hPart⟩ := exists_of_forall₂ (mapM_eq_some_iff.1 hParts) hMem
  exact Option.isSome_iff_exists.2 ⟨part, hPart⟩

theorem OperandsExchange.values_eq (hValue : valueOf? table name = some value)
    {operands others : List Written} (h : OperandsExchange name value place operands others) :
    operands.map (operandValue? table) = others.map (operandValue? table) := by
  cases h with
  | nil => rfl
  | cons hFirst hRest =>
    rw [List.map_cons, List.map_cons, operandValue?_exchange hValue hFirst]
    congr 1
    induction hRest with
    | nil => rfl
    | cons hHead _ ih => rw [List.map_cons, List.map_cons, operandValue?_exchange hValue hHead, ih]

end

/-- A clause that has bytes somewhere. -/
def Encodable (table : List Definition) (clause : Clause) : Prop :=
  ∃ address bytes, clause.encode? table address = some bytes

section
variable {name : String} {value : Int} {table : List Definition}

/-- An instruction keeps its form and its bytes. -/
theorem instruction?_exchange (hValue : valueOf? table name = some value) {mnemonic : String}
    {body first : List Token} {clause : Clause}
    (h : Rewritten (Exchange name value) (Place.outside.after (.mnemonic mnemonic)) body first)
    (hBody : ∀ token ∈ body, Statement.isArgument token.lexeme = true)
    (hClause : instruction? mnemonic (lexemes body) = some clause)
    (hEncodable : Encodable table clause) :
    ∃ same, instruction? mnemonic (lexemes first) = some same ∧ Alike table clause same := by
  have hInside : Place.outside.after (.mnemonic mnemonic) ≠ .outside := by
    show (if indexed.contains mnemonic then Place.index else Place.operand) ≠ .outside
    split <;> decide
  simp only [instruction?, Option.bind_eq_bind, Option.bind_eq_some_iff, Option.pure_def,
    Option.some.injEq] at hClause ⊢
  obtain ⟨operands, hOperands, form, hForm, rfl⟩ := hClause
  obtain ⟨address, bytes, hBytes⟩ := hEncodable
  obtain ⟨others, hOthers, hExchange⟩ := arguments_exchange h hInside hBody hOperands
  have hChosen := (form?_eq_some_iff.1 hForm).exchange hValue hExchange (parts_of_encode? hBytes)
  exact ⟨_, ⟨others, hOthers, form, form?_eq_some_iff.2 hChosen, rfl⟩, fun _ => rfl, fun _ => rfl,
    fun _ => rfl, encode?_congr form (hExchange.values_eq hValue)⟩

/-! ## Programs -/

/-- Tokens with numbers for names, or names for numbers, in operands. -/
structure Exchanged (name : String) (value : Int) (tokens others : List Token) : Prop where
  rewritten : Rewritten (Exchange name value) .outside tokens others
  live : ∀ token ∈ tokens, token.Live
  live_others : ∀ token ∈ others, token.Live

theorem Exchanged.body (hValue : valueOf? table name = some value) {head : Token}
    {body first : List Token} {command : Command} (hBody : Statement.Body head body command)
    (h : Rewritten (Exchange name value) (Place.outside.after head.lexeme) body first)
    (hLive : ∀ token ∈ body, token.Live) (hFirst : ∀ token ∈ first, token.Live)
    (hEncodable : ∀ clause ∈ ofCommand command, Encodable table clause) :
    ∃ same, Statement.Body head first same ∧ Corresponding (Alike table) command same := by
  have hArguments := hBody.isArgument
  obtain ⟨lexeme, location⟩ := head
  cases lexeme with
  | mnemonic mnemonic =>
    obtain ⟨clause, hClause⟩ := (body_plain hBody).2 nofun
    have hStatement := (statement?_iff hLive).2 ⟨command, hBody, hClause⟩
    obtain ⟨same, hSame, hAlike⟩ := instruction?_exchange hValue h hArguments hStatement
      (hEncodable clause (by rw [hClause]; exact List.mem_singleton_self clause))
    have hOtherStatement : statement? (Token.mk (.mnemonic mnemonic) location).lexeme
        (lexemes first) = some same := hSame
    obtain ⟨other, hOther, hOtherClause⟩ := (statement?_iff hFirst).1 hOtherStatement
    exact ⟨other, hOther, .clause hClause hOtherClause hAlike⟩
  | directive directive =>
    rw [h.eq_of_outside hArguments]
    exact ⟨command, hBody, .refl (Alike.refl table) command⟩
  | _ => exact hBody.elim

theorem Exchanged.reads (hValue : valueOf? table name = some value)
    {tokens others rest : List Token} {command : Command} (h : Exchanged name value tokens others)
    (hReads : Statement.Reads tokens command rest)
    (hEncodable : ∀ clause ∈ ofCommand command, Encodable table clause) :
    ∃ other left, Statement.Reads others other left ∧ Corresponding (Alike table) command other ∧
      Exchanged name value rest left := by
  obtain ⟨hRewritten, hLive, hLiveOthers⟩ := h
  suffices hOther : ∃ other left, Statement.Reads others other left ∧
      Corresponding (Alike table) command other ∧
      Rewritten (Exchange name value) .outside rest left by
    obtain ⟨other, left, hOther, hCorresponding, hLeft⟩ := hOther
    exact ⟨other, left, hOther, hCorresponding, hLeft,
      fun token hMem => hLive token (hReads.rest_subset hMem),
      fun token hMem => hLiveOthers token (hOther.rest_subset hMem)⟩
  cases hReads with
  | blank hLine =>
    obtain ⟨left, rfl, hLeft⟩ := hRewritten.kept (.inl rfl)
    rw [hLine] at hLeft
    exact ⟨_, left, .blank hLine, .blank, hLeft⟩
  | endInclude hFile =>
    obtain ⟨left, rfl, hLeft⟩ := hRewritten.kept (.inl rfl)
    rw [hFile] at hLeft
    exact ⟨_, left, .endInclude hFile, .endInclude, hLeft⟩
  | label hName hColon =>
    obtain ⟨after, rfl, hAfter⟩ := hRewritten.kept (.inl rfl)
    rw [hName] at hAfter
    obtain ⟨left, rfl, hLeft⟩ := hAfter.kept (.inl rfl)
    rw [hColon] at hLeft
    exact ⟨_, left, .label hName hColon, .refl (Alike.refl table) _, hLeft⟩
  | statement hBody hEnds =>
    obtain ⟨more, rfl, hMore⟩ := hRewritten.kept (.inl rfl)
    obtain ⟨first, last, place, rfl, hFirst, hLast⟩ := hMore.append_inv
    obtain ⟨left, hLeftEnds, hLeft⟩ := hLast.ends hEnds
    obtain ⟨-, hLive⟩ := List.forall_mem_cons.1 hLive
    obtain ⟨-, hLiveOthers⟩ := List.forall_mem_cons.1 hLiveOthers
    obtain ⟨other, hOther, hCorresponding⟩ := Exchanged.body hValue hBody hFirst
      (List.forall_mem_append.1 hLive).1 (List.forall_mem_append.1 hLiveOthers).1 hEncodable
    exact ⟨other, left, .statement hOther hLeftEnds, hCorresponding, hLeft⟩

theorem exchanged_simulation (hValue : valueOf? table name = some value) :
    Simulation (Exchanged name value) (Encodable table) (Alike table) where
  done h := by
    cases h.rewritten
    rfl
  read h hReads hEncodable := h.reads hValue hReads hEncodable
  brought hFiles h := by
    have hLive := hFiles.live
    refine ⟨?_, List.forall_mem_append.2 ⟨hLive, h.live⟩,
      List.forall_mem_append.2 ⟨hLive, h.live_others⟩⟩
    cases hFiles with
    | none | endInclude => exact h.rewritten
    | use => exact h.rewritten.included rfl _ _

theorem mem_addressed {clause : Clause} {clauses : List Clause} (h : clause ∈ clauses)
    (address : Int) : ∃ place ∈ addressed address clauses, place.2 = clause := by
  induction clauses generalizing address with
  | nil => cases h
  | cons first clauses ih =>
    rcases List.mem_cons.1 h with rfl | h
    · exact ⟨_, List.mem_cons_self, rfl⟩
    · obtain ⟨place, hPlace, hClause⟩ := ih h (address + first.size address)
      exact ⟨place, List.mem_cons_of_mem _ hPlace, hClause⟩

theorem Output.encodable {defines : List (String × Int)} {clauses : List Clause} {code : Bytes}
    (h : Output defines clauses code table) : ∀ clause ∈ clauses, Encodable table clause := by
  intro clause hMem
  obtain ⟨parts, hParts, -⟩ := h.encoded
  obtain ⟨place, hPlace, rfl⟩ := mem_addressed hMem 0
  obtain ⟨part, hPart⟩ := exists_of_forall₂ hParts hPlace
  exact ⟨place.1, part, hPart⟩

variable {surroundings : Surroundings} {source other : Source} {tokens : List Token}
  {isConstant : Bool} {chunk : ChunkSize} {code : Bytes}

theorem yields_exchanged (hYields : Yields (Assembly.assemble surroundings source) chunk code table)
    (hDefined : ⟨name, value, isConstant⟩ ∈ table)
    (h : Exchanged name value source.tokens other.tokens) (hFile : source.file = other.file)
    (hDefines : source.defines = other.defines) :
    Yields (Assembly.assemble surroundings other) chunk code table := by
  obtain ⟨first, statements, last, hStart, hTrace, hOutput⟩ := (yields_iff h.live).1 hYields
  have hValue := valueOf?_of_mem hOutput.distinct hDefined
  obtain ⟨more, hMore, hAlike⟩ := (exchanged_simulation hValue).trace hTrace h hOutput.encodable
  have hOpen := start_ok_iff.1 ⟨first, hStart, rfl⟩
  rw [hFile, hDefines] at hOpen
  obtain ⟨start, hOther, hSame⟩ := start_ok_iff.2 hOpen
  rw [hDefines] at hOutput
  rw [← hSame] at hMore
  exact (yields_iff h.live_others).2 ⟨start, more, last, hOther, hMore, hOutput.congr hAlike⟩

theorem Rewritten.live {places : List Place} {place : Place} {others : List Token}
    (h : Rewritten (Literal places name value) place tokens others)
    (hLow : 0 ≤ value) (hHigh : value ≤ 0xFFFF) (hLive : ∀ token ∈ tokens, token.Live) :
    ∀ token ∈ others, token.Live := by
  induction h with
  | nil => exact hLive
  | keep _ ih =>
    obtain ⟨hToken, hLive⟩ := List.forall_mem_cons.1 hLive
    exact List.forall_mem_cons.2 ⟨hToken, ih hLive⟩
  | change hHere _ ih =>
    obtain ⟨-, hLive⟩ := List.forall_mem_cons.1 hLive
    refine List.forall_mem_cons.2 ⟨.inl ?_, ih hLive⟩
    rw [hHere.2.2]
    exact ⟨hLow, hHigh⟩

/-- If a program assembles, then so does the program with the value of a symbol for the symbol in
any operands of instructions, and the other way round if no number that selects a bit or a restart
vector is among them; both have the same bytes and the same symbols. -/
theorem symbol_literal_interchange {text file : String} (hScan : scan text file = .ok source.tokens)
    (hDefined : ⟨name, value, isConstant⟩ ∈ table) :
    (Rewritten (Literal [.index, .operand] name value) .outside source.tokens tokens →
      Yields (Assembly.assemble surroundings source) chunk code table →
      Yields (Assembly.assemble surroundings { source with tokens := tokens }) chunk code table) ∧
    (Rewritten (Literal [.operand] name value) .outside source.tokens tokens →
      Yields (Assembly.assemble surroundings { source with tokens := tokens }) chunk code table →
      Yields (Assembly.assemble surroundings source) chunk code table) := by
  have hLive : ∀ token ∈ source.tokens, token.Live :=
    fun token hMem => .inl (scan_scanned hScan token hMem)
  constructor
  · intro hRewritten hYields
    obtain ⟨hLow, hHigh⟩ := yields_range hYields _ hDefined
    have hExchanged : Exchanged name value source.tokens tokens := by
      refine ⟨hRewritten.mono ?_, hLive, hRewritten.live hLow hHigh hLive⟩
      rintro place _ _ ⟨hPlace, rfl, rfl⟩
      apply Exchange.literal
      rintro rfl
      exact absurd hPlace (by decide)
    exact yields_exchanged hYields hDefined hExchanged rfl rfl
  · intro hRewritten hYields
    obtain ⟨hLow, hHigh⟩ := yields_range hYields _ hDefined
    have hExchanged : Exchanged name value tokens source.tokens := by
      refine ⟨hRewritten.flip ?_, hRewritten.live hLow hHigh hLive, hLive⟩
      rintro place _ _ ⟨hPlace, rfl, rfl⟩
      obtain rfl := List.mem_singleton.1 hPlace
      exact ⟨.symbol, rfl⟩
    exact yields_exchanged hYields hDefined hExchanged rfl rfl

/-- Tokens with a number at some positions. -/
def withNumber (value : Int) (positions : List Nat) (tokens : List Token) : List Token :=
  tokens.mapIdx fun i token => if i ∈ positions then ⟨.number value, token.location⟩ else token

/-- The first and the last use of a label are replaced, and the one between them is not. -/
theorem symbol_literal_interchange_label :
    ∃ tokens, scan "ld (x), a\nx: ld a, x\njr nz, x\nset 3, b" "<input>" = .ok tokens ∧
      Rewritten (Literal [.operand] "x" 3) .outside tokens (withNumber 3 [2, 17] tokens) ∧
      Yields (Assembly.assemble ⟨.empty, [], none⟩ ⟨tokens, "<input>", none, .empty⟩) .standard
        [0xEA, 3, 0, 0x3E, 3, 0x20, 0xFC, 0xCB, 0xD8] [⟨"x", 3, false⟩] ∧
      Yields (Assembly.assemble ⟨.empty, [], none⟩
          ⟨withNumber 3 [2, 17] tokens, "<input>", none, .empty⟩) .standard
        [0xEA, 3, 0, 0x3E, 3, 0x20, 0xFC, 0xCB, 0xD8] [⟨"x", 3, false⟩] := by
  have hRun : ((scan "ld (x), a\nx: ld a, x\njr nz, x\nset 3, b" "<input>").toOption.map
      fun tokens => decide
        (Rewritten (Literal [.index, .operand] "x" 3) .outside tokens
            (withNumber 3 [2, 17] tokens) ∧
          Rewritten (Literal [.operand] "x" 3) .outside tokens (withNumber 3 [2, 17] tokens) ∧
          Yields (Assembly.assemble ⟨.empty, [], none⟩ ⟨tokens, "<input>", none, .empty⟩) .standard
            [0xEA, 3, 0, 0x3E, 3, 0x20, 0xFC, 0xCB, 0xD8] [⟨"x", 3, false⟩])) = some true := by
    decide +kernel
  obtain ⟨tokens, hScan, hAll⟩ := Option.map_eq_some_iff.1 hRun
  obtain ⟨hIndex, hOperand, hYields⟩ := of_decide_eq_true hAll
  let source : Source := ⟨tokens, "<input>", none, .empty⟩
  have hSource : scan "ld (x), a\nx: ld a, x\njr nz, x\nset 3, b" "<input>" = .ok source.tokens :=
    eq_ok_of_toOption hScan
  have hDefined : (⟨"x", 3, false⟩ : Definition) ∈ [(⟨"x", 3, false⟩ : Definition)] :=
    List.mem_singleton_self _
  have hOther := (symbol_literal_interchange hSource hDefined).1 hIndex hYields
  exact ⟨tokens, hSource, hOperand, (symbol_literal_interchange hSource hDefined).2 hOperand hOther,
    hOther⟩

end

end Lr35902.TwoPass
