import Lr35902.Proofs.TwoPass.Passes

/-!
Renaming identifiers in a source. The grammar looks at what kind of word an identifier is and not at
which one, so renamed tokens are read as the renamed commands (`Statement.Reads.rename`), and the
statements of a source without inclusions are renamed one by one (`TwoPass.trace_rename`).
-/
namespace Lr35902

/-! ## Renamed words and statements -/

variable (ρ : String → String)

/-- The lexeme with another name if it is an identifier. -/
def Lexeme.rename : Lexeme → Lexeme
  | .identifier name => .identifier (ρ name)
  | other => other

def Token.rename (token : Token) : Token := ⟨token.lexeme.rename ρ, token.location⟩

def Written.rename : Written → Written
  | .name word => .name (ρ word)
  | .addressName word => .addressName (ρ word)
  | other => other

def WrittenOperand.rename (operand : WrittenOperand) : WrittenOperand :=
  ⟨operand.written.rename ρ, operand.location⟩

/-- The command about other names. -/
def Command.rename : Command → Command
  | .label name => .label (ρ name)
  | .instruction mnemonic form operands =>
    .instruction mnemonic form (operands.map (WrittenOperand.rename ρ))
  | .constant name nameLocation value => .constant (ρ name) nameLocation value
  | other => other

def Statement.rename (statement : Statement) : Statement :=
  ⟨statement.location, statement.command.rename ρ⟩

variable {ρ}

theorem Token.lexeme_rename {token : Token} {lexeme : Lexeme} (h : token.lexeme = lexeme) :
    (token.rename ρ).lexeme = lexeme.rename ρ := by rw [Token.rename, h]

theorem StringLiteral.rename_lexeme (literal : StringLiteral) :
    literal.lexeme.rename ρ = literal.lexeme := by
  cases literal <;> rfl

/-! ## Forms -/

/-- Whether an operand fits does not depend on the name in it. -/
theorem Written.fit_rename (written : Written) (cls : OperandClass) :
    (written.rename ρ).fit cls = written.fit cls := by
  cases written with
  | name name => cases cls <;> rfl
  | addressName name => cases cls <;> rfl
  | _ => rfl

theorem Form.select_rename {mnemonic : String} {operands : List WrittenOperand}
    {location : Location} {form : Form} (h : select mnemonic operands location = .ok form) :
    select mnemonic (operands.map (WrittenOperand.rename ρ)) location = .ok form := by
  have hAccepts (form : Form) :
      form.accepts (operands.map (WrittenOperand.rename ρ)) = form.accepts operands := by
    simp only [accepts, fits?, List.length_map, List.zipWith_map_left, WrittenOperand.rename,
      Written.fit_rename]
  rw [select_ok_iff] at h ⊢
  simp only [hAccepts]
  exact h

/-! ## The grammar -/

namespace Statement

section
variable {body tail rest tokens : List Token} {command : Command}

theorem Ends.rename (h : Ends tail rest) :
    Ends (tail.map (Token.rename ρ)) (rest.map (Token.rename ρ)) := by
  cases h with
  | input => exact .input
  | line hLine => exact .line (Token.lexeme_rename hLine)
  | file hFile => exact .file (Token.lexeme_rename hFile)

theorem OperandSpelled.rename {operand : WrittenOperand} (h : OperandSpelled tokens operand) :
    OperandSpelled (tokens.map (Token.rename ρ)) (operand.rename ρ) := by
  have hBare (lexeme : Lexeme) :
      bare? (lexeme.rename ρ) = (bare? lexeme).map (Written.rename ρ) := by
    cases lexeme <;> rfl
  have hInner (lexeme : Lexeme) :
      inner? (lexeme.rename ρ) = (inner? lexeme).map (Written.rename ρ) := by
    cases lexeme <;> rfl
  cases h with
  | bare h =>
    refine .bare ?_
    rw [Token.rename, hBare, h]
    rfl
  | inner hLeft h hRight =>
    refine .inner (Token.lexeme_rename hLeft) ?_ (Token.lexeme_rename hRight)
    rw [Token.rename, hInner, h]
    rfl

theorem ByteSpelled.rename {value : Int} (h : ByteSpelled tokens value) :
    ByteSpelled (tokens.map (Token.rename ρ)) value := by
  cases h with
  | number hNumber hNarrow => exact .number (Token.lexeme_rename hNumber) hNarrow

theorem Arguments.rename {α : Type} {Spelled : List Token → α → Prop} {values : List α}
    {change : α → α} (h : Arguments Spelled tokens values)
    (hSpelled : ∀ {tokens a}, Spelled tokens a →
      Spelled (tokens.map (Token.rename ρ)) (change a)) :
    Arguments Spelled (tokens.map (Token.rename ρ)) (values.map change) := by
  cases h with
  | none => exact .none
  | some hSeparated =>
    refine .some ?_
    induction hSeparated with
    | last hLast => exact .last (hSpelled hLast)
    | more hFirst hComma _ ih =>
      rw [List.map_append, List.map_cons, List.map_cons]
      exact .more (hSpelled hFirst) (Token.lexeme_rename hComma) ih

theorem InstructionBody.rename {mnemonic : String} {location : Location}
    (h : InstructionBody mnemonic location body command) :
    InstructionBody mnemonic location (body.map (Token.rename ρ)) (command.rename ρ) := by
  cases h with
  | intro hArguments hForm =>
    exact .intro (hArguments.rename OperandSpelled.rename) (Form.select_rename hForm)

theorem BytesBody.rename (h : BytesBody body command) :
    BytesBody (body.map (Token.rename ρ)) (command.rename ρ) := by
  cases h with
  | @intro values hArguments hPositive =>
    have hSame : Arguments ByteSpelled (body.map (Token.rename ρ)) (values.map id) :=
      hArguments.rename ByteSpelled.rename
    rw [List.map_id] at hSame
    exact .intro hSame hPositive

theorem DirectiveBody.rename {name : String} (h : DirectiveBody name body command) :
    DirectiveBody name (body.map (Token.rename ρ)) (command.rename ρ) := by
  unfold DirectiveBody at h ⊢
  split at h
  · exact h.rename
  · cases h with
    | intro hString hEncoding => exact .intro (Token.lexeme_rename hString) hEncoding
  · cases h with
    | intro hString hEncoding => exact .intro (Token.lexeme_rename hString) hEncoding
  · cases h with
    | intro hString hEncoding => exact .intro (Token.lexeme_rename hString) hEncoding
  · cases h with
    | intro hCounted hComma hRepeated hNarrow =>
      exact .intro (Token.lexeme_rename hCounted) (Token.lexeme_rename hComma)
        (Token.lexeme_rename hRepeated) hNarrow
  · cases h with
    | zeros hTargeted => exact .zeros (Token.lexeme_rename hTargeted)
    | value hTargeted hComma hRepeated hNarrow =>
      exact .value (Token.lexeme_rename hTargeted) (Token.lexeme_rename hComma)
        (Token.lexeme_rename hRepeated) hNarrow
  · cases h with
    | intro hNamed hComma hValued =>
      exact .intro (Token.lexeme_rename hNamed) (Token.lexeme_rename hComma)
        (Token.lexeme_rename hValued)
  · cases h with
    | intro hFile =>
      exact .intro ((Token.lexeme_rename hFile).trans (StringLiteral.rename_lexeme _))
  · cases h
    exact .intro
  · cases h
    exact .intro
  · exact h.elim

theorem Body.rename {head : Token} (h : Body head body command) :
    Body (head.rename ρ) (body.map (Token.rename ρ)) (command.rename ρ) := by
  unfold Body at h
  split at h
  · next name hName =>
    rw [Body, Token.lexeme_rename hName]
    exact InstructionBody.rename h
  · next name hName =>
    rw [Body, Token.lexeme_rename hName]
    exact DirectiveBody.rename h
  · exact h.elim

/-- Renamed tokens are read as the renamed command. -/
theorem Reads.rename (h : Reads tokens command rest) :
    Reads (tokens.map (Token.rename ρ)) (command.rename ρ) (rest.map (Token.rename ρ)) := by
  cases h with
  | blank hLine => exact .blank (Token.lexeme_rename hLine)
  | endInclude hFile => exact .endInclude (Token.lexeme_rename hFile)
  | label hName hColon => exact .label (Token.lexeme_rename hName) (Token.lexeme_rename hColon)
  | @statement head body tail _ _ hBody hEnds =>
    rw [List.map_append]
    exact .statement hBody.rename hEnds.rename

end

theorem read_rename {token : Token} {tokens rest : List Token} {statement : Statement}
    (h : read token tokens = .ok (statement, rest)) :
    read (token.rename ρ) (tokens.map (Token.rename ρ)) =
      .ok (statement.rename ρ, rest.map (Token.rename ρ)) := by
  obtain ⟨hLocation, hReads⟩ := read_ok_iff.1 h
  exact read_ok_iff.2 ⟨hLocation, hReads.rename⟩

end Statement

/-! ## Traces -/

namespace TwoPass

/-- A command that brings in no tokens still brings in none when it is renamed. -/
theorem fileEffect_rename {surroundings : Surroundings} {openFiles others : List Spot}
    {command : Command}
    (h : Assembly.FileEffect surroundings openFiles command [] others) :
    Assembly.FileEffect surroundings openFiles (command.rename ρ) [] others := by
  generalize hNone : ([] : List Token) = brought at h
  cases h with
  | none hUse hEnd =>
    refine .none ?_ ?_
    · intro file fileLocation hSame
      cases command with
      | use => exact hUse _ _ rfl
      | _ => cases hSame
    · intro file hSame
      cases command with
      | endInclude => exact hEnd _ rfl
      | _ => cases hSame
  | use => cases (List.append_eq_nil_iff.1 hNone.symm).2
  | endInclude hFind => exact .endInclude hFind

/-- Without inclusions, the statements of renamed tokens are the renamed statements. -/
theorem trace_rename {surroundings : Surroundings} {openFiles others : List Spot}
    {tokens : List Token} {statements : List Statement}
    (h : Assembly.Trace surroundings tokens openFiles statements others)
    (hPlain : ∀ token ∈ tokens, Plain token) :
    Assembly.Trace surroundings (tokens.map (Token.rename ρ)) openFiles
      (statements.map (Statement.rename ρ)) others := by
  induction h with
  | done => exact .done
  | step hRead hFiles _ ih =>
    have hReads := (Statement.read_ok_iff.1 hRead).2
    obtain ⟨rfl, rfl⟩ := (fileEffect_plain_iff hReads hPlain).1 hFiles
    exact .step (Statement.read_rename hRead) (fileEffect_rename hFiles)
      (ih fun token hMem => hPlain token (hReads.rest_subset hMem))

end TwoPass
end Lr35902
