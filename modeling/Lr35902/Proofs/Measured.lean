import Lr35902.Proofs.Grammar
import Lr35902.Proofs.ScannedTokens
import Mathlib.Data.List.Forall2

/-!
Commands whose numbers fit where they are meant to go. The tokens that a run meets come from texts,
apart from the marks that close included files (`Token.Live`); a command that is read from them
has an instruction form of the table that its operands fit, literals of 16 bits, counts that are not
negative and fill values of one byte (`Reads.measured`), and what remains are tokens that were there
before (`Reads.rest_subset`).
-/
namespace Lr35902

/-! ## Forms that operands fit -/

/-- Each operand fits the class in its place. -/
def Form.Fits (form : Form) (operands : List WrittenOperand) : Prop :=
  List.Forall₂ (fun operand cls => operand.written.fit cls = .fits) operands form.operands

theorem Form.accepts_iff {form : Form} {operands : List WrittenOperand} :
    form.accepts operands = true ↔ form.Fits operands := by
  have hLists (operands : List WrittenOperand) (classes : List OperandClass) :
      (classes.length = operands.length ∧
        (List.zipWith (fun operand cls => operand.written.fit cls) operands classes).all
          (· == .fits) = true) ↔
        List.Forall₂ (fun operand cls => operand.written.fit cls = .fits) operands classes := by
    induction operands generalizing classes with
    | nil => cases classes <;> simp
    | cons operand operands ih =>
      cases classes with
      | nil => simp
      | cons cls classes =>
        rw [List.forall₂_cons, ← ih]
        simp only [List.length_cons, Nat.add_right_cancel_iff, List.zipWith_cons_cons,
          List.all_cons, Bool.and_eq_true, beq_iff_eq]
        exact and_left_comm
  unfold Fits
  rw [← hLists]
  unfold accepts fits?
  split
  · next fits hFits =>
    split at hFits
    · next hLength =>
      cases hFits
      simp only [hLength, true_and]
    · cases hFits
  · next hFits =>
    split at hFits
    · cases hFits
    · next hLength => simp [hLength]

theorem Form.select_ok_iff {mnemonic : String} {operands : List WrittenOperand}
    {location : Location} {form : Form} :
    select mnemonic operands location = .ok form ↔
      (ofName mnemonic).find? (fun form => form.accepts operands) = some form := by
  unfold select
  simp only
  split
  · next found hFound => simp [hFound]
  · next hNone =>
    rw [hNone]
    split <;> simp

theorem Form.select_ok {mnemonic : String} {operands : List WrittenOperand} {location : Location}
    {form : Form} (h : select mnemonic operands location = .ok form) :
    form ∈ table ∧ form.mnemonic.name = mnemonic ∧ form.Fits operands := by
  have hFind := select_ok_iff.1 h
  obtain ⟨hTable, hName⟩ := mem_ofName.1 (List.mem_of_find?_eq_some hFind)
  have hAccepts := List.find?_some hFind
  exact ⟨hTable, hName, accepts_iff.1 (by simpa using hAccepts)⟩

/-! ## Tokens and commands of a run -/

/-- A token that a run can meet: one of a text, or the mark that closes a file. -/
def Token.Live (token : Token) : Prop :=
  token.lexeme.Scanned ∨ ∃ spot, token.lexeme = .endInclude (.spot spot)

theorem Token.Live.number {token : Token} (h : token.Live) {value : Int}
    (hNumber : token.lexeme = .number value) : 0 ≤ value ∧ value ≤ 0xFFFF := by
  rcases h with hScanned | ⟨spot, hMark⟩
  · rw [hNumber] at hScanned
    exact hScanned
  · rw [hNumber] at hMark
    cases hMark

/-- A command whose numbers fit where they are meant to go. -/
def Command.Measured : Command → Prop
  | .instruction mnemonic form operands =>
    form ∈ Form.table ∧ form.mnemonic.name = mnemonic ∧ form.Fits operands ∧
      ∀ operand ∈ operands, ∀ value, operand.written.value? = some value →
        0 ≤ value ∧ value ≤ 0xFFFF
  | .fill count value => 0 ≤ count ∧ 0 ≤ value ∧ value ≤ 0xFF
  | .origin _ _ value => 0 ≤ value ∧ value ≤ 0xFF
  | .constant _ _ value => 0 ≤ value ∧ value ≤ 0xFFFF
  | _ => True

namespace Statement

theorem Separated.part {α : Type} {Spelled : List Token → α → Prop} {body : List Token}
    {values : List α} (h : Separated Spelled body values) :
    ∀ a ∈ values, ∃ tokens, Spelled tokens a ∧ tokens ⊆ body := by
  induction h with
  | last hSpelled =>
    intro a hMem
    rw [List.mem_singleton.1 hMem]
    exact ⟨_, hSpelled, List.Subset.refl _⟩
  | more hSpelled _ _ ih =>
    intro a hMem
    rcases List.mem_cons.1 hMem with rfl | hMem
    · exact ⟨_, hSpelled, List.subset_append_left _ _⟩
    · obtain ⟨tokens, hTokens, hSubset⟩ := ih a hMem
      refine ⟨tokens, hTokens, fun token hToken => List.mem_append_right _ ?_⟩
      exact List.mem_cons_of_mem _ (hSubset hToken)

theorem Arguments.part {α : Type} {Spelled : List Token → α → Prop} {body : List Token}
    {values : List α} (h : Arguments Spelled body values) :
    ∀ a ∈ values, ∃ tokens, Spelled tokens a ∧ tokens ⊆ body := by
  cases h with
  | none =>
    intro a hMem
    exact absurd hMem List.not_mem_nil
  | some hSeparated => exact hSeparated.part

theorem OperandSpelled.value?_range {tokens : List Token} {operand : WrittenOperand}
    (h : OperandSpelled tokens operand) (hLive : ∀ token ∈ tokens, token.Live) {value : Int}
    (hValue : operand.written.value? = some value) : 0 ≤ value ∧ value ≤ 0xFFFF := by
  cases h with
  | @bare token written hBare =>
    have hToken := hLive token List.mem_cons_self
    cases hLexeme : token.lexeme <;> rw [hLexeme] at hBare <;> cases hBare <;> cases hValue
    exact hToken.number hLexeme
  | @inner opening inner closing left right written _ hInner _ =>
    have hToken := hLive inner (by simp)
    cases hLexeme : inner.lexeme <;> rw [hLexeme] at hInner <;> cases hInner <;> cases hValue
    exact hToken.number hLexeme

theorem InstructionBody.measured {mnemonic : String} {location : Location} {body : List Token}
    {command : Command} (h : InstructionBody mnemonic location body command)
    (hLive : ∀ token ∈ body, token.Live) : command.Measured := by
  obtain ⟨hArguments, hForm⟩ := h
  obtain ⟨hTable, hName, hFits⟩ := Form.select_ok hForm
  refine ⟨hTable, hName, hFits, ?_⟩
  intro operand hMem value hValue
  obtain ⟨tokens, hSpelled, hSubset⟩ := hArguments.part operand hMem
  exact hSpelled.value?_range (fun token hToken => hLive token (hSubset hToken)) hValue

theorem FillBody.measured {body : List Token} {command : Command} (h : FillBody body command)
    (hLive : ∀ token ∈ body, token.Live) : command.Measured := by
  obtain @⟨counted, comma, repeated, count, value, spelling, hCounted, -, hRepeated, hNarrow⟩ := h
  have hCount := (hLive counted (by simp)).number hCounted
  have hValue := (hLive repeated (by simp)).number hRepeated
  exact ⟨hCount.1, hValue.1, hNarrow⟩

theorem OriginBody.measured {body : List Token} {command : Command} (h : OriginBody body command)
    (hLive : ∀ token ∈ body, token.Live) : command.Measured := by
  cases h with
  | zeros _ => exact ⟨by decide, by decide⟩
  | @value targeted comma repeated target value spelling _ _ hRepeated hNarrow =>
    exact ⟨((hLive repeated (by simp)).number hRepeated).1, hNarrow⟩

theorem ConstantBody.measured {body : List Token} {command : Command}
    (h : ConstantBody body command) (hLive : ∀ token ∈ body, token.Live) : command.Measured := by
  obtain @⟨named, comma, valued, name, value, spelling, -, -, hValued⟩ := h
  exact (hLive valued (by simp)).number hValued

theorem DirectiveBody.measured {name : String} {body : List Token} {command : Command}
    (h : DirectiveBody name body command) (hLive : ∀ token ∈ body, token.Live) :
    command.Measured := by
  unfold DirectiveBody at h
  split at h
  · obtain ⟨_, _⟩ := h
    trivial
  · obtain ⟨_, _⟩ := h
    trivial
  · obtain ⟨_, _⟩ := h
    trivial
  · obtain ⟨_, _⟩ := h
    trivial
  · exact FillBody.measured h hLive
  · exact OriginBody.measured h hLive
  · exact ConstantBody.measured h hLive
  · obtain ⟨_⟩ := h
    trivial
  · obtain ⟨⟩ := h
    trivial
  · obtain ⟨⟩ := h
    trivial
  · exact h.elim

/-- Commands that are read from tokens of a run are measured. -/
theorem Reads.measured {tokens rest : List Token} {command : Command}
    (h : Reads tokens command rest) (hLive : ∀ token ∈ tokens, token.Live) :
    command.Measured := by
  cases h with
  | blank _ => trivial
  | endInclude _ => trivial
  | label _ _ => trivial
  | @statement head body tail _ _ hBody _ =>
    have hInner : ∀ token ∈ body, token.Live := by
      intro token hMem
      exact hLive token (List.mem_append_left _ (List.mem_cons_of_mem _ hMem))
    unfold Body at hBody
    split at hBody
    · exact hBody.measured hInner
    · exact hBody.measured hInner
    · exact hBody.elim

theorem Reads.rest_subset {tokens rest : List Token} {command : Command}
    (h : Reads tokens command rest) : rest ⊆ tokens := by
  obtain ⟨front, rfl, -, -⟩ := h.front
  exact List.subset_append_right front rest

end Statement
end Lr35902
