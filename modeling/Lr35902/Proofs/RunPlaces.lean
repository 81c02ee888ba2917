import Lr35902.Proofs.Measured
import Lr35902.Proofs.Places
import Lr35902.Proofs.Termination

/-!
Places along a run. The tokens that a run meets, the commands that it reads from them and the items
that it places are about places in the texts it was given, and a run of tokens without a mark came
from one of these texts. So their lines, columns and lengths are bounded by the length of the texts
in every state that is reached (`State.Within`, `Reaches.within`).
-/
namespace Lr35902

/-! ## Places of commands and items -/

namespace Statement

/-- Between two marks there are at most so many tokens. -/
def Spans (limit : Nat) (tokens : List Token) : Prop :=
  ∀ run, run <:+: tokens → marks run = [] → run.length ≤ limit

theorem Spans.suffix {limit : Nat} {front rest : List Token} (h : Spans limit (front ++ rest)) :
    Spans limit rest := by
  intro run hRun hMarks
  exact h run (hRun.trans (List.suffix_append front rest).isInfix) hMarks

theorem spans_of_length_le {limit : Nat} {tokens : List Token} (h : tokens.length ≤ limit) :
    Spans limit tokens := by
  intro run hRun _
  exact Nat.le_trans hRun.length_le h

/-- A run without marks lies on one side of a mark. -/
theorem Spans.append_mark {limit : Nat} {tokens rest : List Token} {mark : Token} {file : FileMark}
    (hMark : mark.lexeme = .endInclude file) (hTokens : Spans limit tokens)
    (hRest : Spans limit rest) : Spans limit (tokens ++ mark :: rest) := by
  intro run hRun hMarks
  have hOutside : mark ∉ run := by
    intro hMem
    have hFound : file ∈ marks run :=
      List.mem_filterMap.2 ⟨mark, hMem, by simp [fileMark?, hMark]⟩
    rw [hMarks] at hFound
    cases hFound
  obtain ⟨before, after, hAll⟩ := hRun
  rcases List.append_eq_append_iff.1 hAll with ⟨left, hLeft, -⟩ | ⟨right, hRight, hAfter⟩
  · exact hTokens run ⟨before, left, hLeft.symm⟩ hMarks
  · rcases List.append_eq_append_iff.1 hRight with ⟨inner, hLeft, rfl⟩ | ⟨inner, -, rfl⟩
    · cases right with
      | nil => exact hTokens _ ⟨before, [], by simpa using hLeft.symm⟩ hMarks
      | cons first more =>
        obtain ⟨rfl, -⟩ := List.cons.inj hAfter
        exact absurd (List.mem_append_right _ List.mem_cons_self) hOutside
    · cases inner with
      | nil =>
        cases run with
        | nil => exact Nat.zero_le _
        | cons first more =>
          obtain ⟨rfl, -⟩ := List.cons.inj hAfter
          exact absurd List.mem_cons_self hOutside
      | cons first more =>
        obtain ⟨-, hMore⟩ := List.cons.inj hAfter
        exact hRest run ⟨more, after, hMore.symm⟩ hMarks

end Statement

/-- A command whose places are in texts of some length, and whose data came from one of them. -/
def Command.Within (limit : Nat) : Command → Prop
  | .instruction _ _ operands => ∀ operand ∈ operands, operand.location.Within limit
  | .bytes data => data.length ≤ limit + 1
  | .string data => data.text.length ≤ limit
  | .fill count _ => count ≤ 0xFFFF
  | .origin target targetLocation _ => target ≤ 0xFFFF ∧ targetLocation.Within limit
  | .constant _ nameLocation _ => nameLocation.Within limit
  | .use _ fileLocation => fileLocation.Within limit
  | _ => True

namespace Statement

section
variable {limit : Nat} {body : List Token} {command : Command}

theorem OperandSpelled.location_within {tokens : List Token} {operand : WrittenOperand}
    (h : OperandSpelled tokens operand) (hWithin : ∀ token ∈ tokens, token.Within limit) :
    operand.location.Within limit := by
  cases h with
  | @bare token => exact (hWithin token List.mem_cons_self).location
  | @inner opening inner => exact (hWithin inner (by simp)).location

theorem Separated.length_le {α : Type} {Spelled : List Token → α → Prop} {values : List α}
    (hSpelled : ∀ {tokens a}, Spelled tokens a → tokens ≠ [])
    (h : Separated Spelled body values) : values.length ≤ body.length := by
  induction h with
  | last hFirst => exact List.length_pos_iff.2 (hSpelled hFirst)
  | more hFirst _ _ ih =>
    simp only [List.length_cons, List.length_append]
    omega

theorem BytesBody.within (h : BytesBody body command) (hLength : body.length ≤ limit) :
    command.Within limit := by
  obtain @⟨values, hArguments, -⟩ := h
  have hValues : values.length ≤ body.length := by
    cases hArguments with
    | none => exact Nat.le_refl 0
    | some hSeparated =>
      apply hSeparated.length_le
      intro tokens value hSpelled
      obtain ⟨-, -⟩ := hSpelled
      exact List.cons_ne_nil _ _
  show (bytesOf values).length ≤ limit + 1
  unfold bytesOf
  split
  · exact Nat.le_add_left 1 limit
  · rw [List.length_map]
    omega

theorem DirectiveBody.within {name : String} (h : DirectiveBody name body command)
    (hLength : body.length ≤ limit) (hLive : ∀ token ∈ body, token.Live)
    (hWithin : ∀ token ∈ body, token.Within limit) : command.Within limit := by
  unfold DirectiveBody at h
  split at h
  · exact BytesBody.within h hLength
  · obtain ⟨hText, -⟩ := h
    exact (hWithin _ List.mem_cons_self).text_le _ hText
  · obtain ⟨hText, -⟩ := h
    exact (hWithin _ List.mem_cons_self).text_le _ hText
  · obtain ⟨hText, -⟩ := h
    exact (hWithin _ List.mem_cons_self).text_le _ hText
  · obtain ⟨hCount, -, -, -⟩ := h
    exact ((hLive _ List.mem_cons_self).number hCount).2
  · cases h with
    | zeros hTarget =>
      exact ⟨((hLive _ List.mem_cons_self).number hTarget).2,
        (hWithin _ List.mem_cons_self).location⟩
    | value hTarget =>
      exact ⟨((hLive _ List.mem_cons_self).number hTarget).2,
        (hWithin _ List.mem_cons_self).location⟩
  · obtain ⟨hName, -, -⟩ := h
    exact (hWithin _ List.mem_cons_self).location
  · obtain ⟨hFile⟩ := h
    exact (hWithin _ List.mem_cons_self).location
  · obtain ⟨⟩ := h
    trivial
  · obtain ⟨⟩ := h
    trivial
  · exact h.elim

/-- Commands that are read keep to the places of their tokens. -/
theorem Reads.within {tokens rest : List Token} (h : Reads tokens command rest)
    (hSpans : Spans limit tokens) (hLive : ∀ token ∈ tokens, token.Live)
    (hWithin : ∀ token ∈ tokens, token.Within limit) : command.Within limit := by
  cases h with
  | blank _ => trivial
  | endInclude _ => trivial
  | label _ _ => trivial
  | @statement head body tail _ _ hBody _ =>
    have hInner : ∀ token ∈ body, token ∈ head :: body ++ tail := by
      intro token hMem
      exact List.mem_append_left _ (List.mem_cons_of_mem _ hMem)
    have hLength : (head :: body).length ≤ limit :=
      hSpans _ (List.prefix_append _ _).isInfix hBody.marks_eq_nil
    rw [List.length_cons] at hLength
    unfold Body at hBody
    split at hBody
    · obtain ⟨hArguments, -⟩ := hBody
      intro operand hMem
      obtain ⟨tokens, hSpelled, hSubset⟩ := hArguments.part operand hMem
      apply hSpelled.location_within
      intro token hToken
      exact hWithin token (hInner token (hSubset hToken))
    · exact hBody.within (by omega) (fun token hMem => hLive token (hInner token hMem))
        fun token hMem => hWithin token (hInner token hMem)
    · exact hBody.elim

end
end Statement

/-- The symbols that an item waits for were written at places in texts of some length. -/
def Item.Within (limit : Nat) (item : Item) : Prop :=
  ∀ mnemonic operands size, item.content = .instruction mnemonic operands size →
    ∀ value target location, .symbol value target (some location) ∈ operands →
      location.Within limit

theorem WrittenOperand.symbol_of_build {operand : WrittenOperand} {cls : OperandClass} {next : Int}
    {value : OperandValue} {target : Option OperandKind} {location : Location}
    (h : operand.build cls next = .ok (.symbol value target (some location))) :
    operand.location = location := by
  have hFill (kind : NumberKind)
      (hFilled : operand.fill kind next = .ok (.symbol value target (some location))) :
      operand.location = location := by
    unfold fill at hFilled
    split at hFilled
    any_goals
      split at hFilled <;> cases hFilled
    all_goals
      cases hFilled
      rfl
  cases cls with
  | byte => exact hFill .immediate8 h
  | word => exact hFill .immediate16 h
  | high => exact hFill .address8 h
  | memory => exact hFill .address16 h
  | relative => exact hFill .relative h
  | _ => cases h

/-- A symbol in an instruction stands where it was written. -/
theorem symbol_of_buildOperands {next : Int} {operands : List WrittenOperand}
    {classes : List OperandClass} {built : List Operand}
    (h : buildOperands next operands classes = .ok built) {value : OperandValue}
    {target : Option OperandKind} {location : Location}
    (hMem : .symbol value target (some location) ∈ built) :
    ∃ operand ∈ operands, operand.location = location := by
  fun_induction buildOperands next operands classes generalizing built with
  | case1 => cases h
  | case2 => cases h
  | case3 operand operands cls classes first hFirst more hMore ih =>
    cases h
    rcases List.mem_cons.1 hMem with rfl | hMem
    · exact ⟨operand, List.mem_cons_self, WrittenOperand.symbol_of_build hFirst⟩
    · obtain ⟨other, hOther, hPlace⟩ := ih hMore hMem
      exact ⟨other, List.mem_cons_of_mem _ hOther, hPlace⟩
  | case4 =>
    cases h
    cases hMem

theorem Effect.within {limit : Nat} {location : Location} {program after : Program}
    {command : Command} (h : Effect location program command after)
    (hCommand : command.Within limit) (hItems : ∀ item ∈ program.items, item.Within limit) :
    ∀ item ∈ after.items, item.Within limit := by
  cases h with
  | blank | endInclude | sectionMark | label => exact hItems
  | place hContent _ =>
    intro item hMem
    rw [Program.items_append] at hMem
    rcases List.mem_append.1 hMem with hOld | hNew
    · exact hItems item hOld
    · rw [List.mem_singleton.1 hNew]
      intro mnemonic operands size hInstruction value target place hSymbol
      cases hContent with
      | instruction hBuilt =>
        cases hInstruction
        obtain ⟨operand, hOperand, rfl⟩ := symbol_of_buildOperands hBuilt hSymbol
        exact hCommand operand hOperand
      | _ => cases hInstruction
  | constant _ _ _ _ =>
    intro item hMem
    rw [Program.items_append] at hMem
    rcases List.mem_append.1 hMem with hOld | hNew
    · exact hItems item hOld
    · rw [List.mem_singleton.1 hNew]
      intro mnemonic operands size hInstruction
      cases hInstruction

namespace Assembly

/-! ## Places of states -/

/-- The tokens ahead and the items keep to texts of some length. -/
structure State.Within (limit : Nat) (state : State) : Prop where
  tokens : ∀ token ∈ state.tokens, token.Within limit
  spans : Statement.Spans limit state.tokens
  items : ∀ item ∈ state.program.items, item.Within limit

section
variable {surroundings : Surroundings} {state : State} {limit : Nat}

theorem closingMark_within {spot : Spot} {file : String} {tokens : List Token}
    (h : ∀ token ∈ tokens, token.Within limit) :
    (State.closingMark spot file tokens).Within limit := by
  refine ⟨?_, by intro text hText; cases hText⟩
  unfold State.closingMark
  cases hLast : tokens.getLast? with
  | none =>
    refine ⟨Int.le_refl 1, Int.le_refl 1, ?_⟩
    simp only [Option.map_none, Option.getD_none]
    omega
  | some last =>
    -- the mark starts the line of the last token, so it stands no further than that token
    obtain ⟨hLine, hColumn, hSum⟩ := (h last (List.mem_of_getLast? hLast)).location
    exact ⟨hLine, Int.le_refl 1, by simp only [Option.map_some, Option.getD_some]; omega⟩

theorem scan_within_limit {text file : String} {tokens : List Token}
    (h : scan text file = .ok tokens) (hLength : text.length ≤ limit) :
    ∀ token ∈ tokens, token.Within limit := by
  intro token hMem
  obtain ⟨hLocation, hText⟩ := scan_within.1 tokens h token hMem
  exact ⟨hLocation.mono hLength, fun text hLexeme => Nat.le_trans (hText text hLexeme) hLength⟩

/-- The tokens of a text that may hold surrogates stand where those of its characters do. -/
theorem scanText_within_limit {text : List CodePoint} {file : String} {tokens : List Token}
    (h : scanText text file = .ok tokens) (hLength : text.length ≤ limit) :
    ∀ token ∈ tokens, token.Within limit := by
  obtain ⟨shadows, hScan, rfl⟩ := scanText_ok_iff.1 h
  have hShadows : ∀ token ∈ shadows, token.Within limit :=
    scan_within_limit hScan (by simpa using hLength)
  intro token hMem
  obtain ⟨shadow, hShadow, rfl⟩ := List.mem_map.1 hMem
  obtain hSame | ⟨_, _, -, hRestored, -⟩ := Scan.restore_cases text shadow
  · rw [hSame]
    exact hShadows shadow hShadow
  · refine ⟨Scan.restore_location text shadow ▸ (hShadows shadow hShadow).location, ?_⟩
    intro content hContent
    rw [hRestored] at hContent
    cases hContent

/-- What a command brings in are the tokens of one text and a mark behind them. -/
theorem FileEffect.within {openFiles others : List Spot} {command : Command}
    {brought rest : List Token} (h : FileEffect surroundings openFiles command brought others)
    (hTexts : ∀ path text, surroundings.readText path = .ok text → text.length ≤ limit)
    (hRest : Statement.Spans limit rest) :
    (∀ token ∈ brought, token.Within limit) ∧ Statement.Spans limit (brought ++ rest) := by
  cases h with
  | none _ _ => exact ⟨List.forall_mem_nil _, hRest⟩
  | endInclude _ => exact ⟨List.forall_mem_nil _, hRest⟩
  | @use _ _ path _ text included _ _ hText hScan =>
    have hLength := hTexts path text hText
    have hIncluded : ∀ token ∈ included, token.Within limit :=
      scanText_within_limit hScan hLength
    constructor
    · refine List.forall_mem_append.2 ⟨hIncluded, List.forall_mem_singleton.2 ?_⟩
      exact closingMark_within hIncluded
    · rw [List.append_assoc]
      apply Statement.Spans.append_mark rfl _ hRest
      exact Statement.spans_of_length_le (Nat.le_trans (length_scanText hScan) hLength)

theorem Step.within {after : State} (h : Step surroundings state after) (hLive : state.Live)
    (hTexts : ∀ path text, surroundings.readText path = .ok text → text.length ≤ limit)
    (hWithin : state.Within limit) : after.Within limit := by
  obtain ⟨statement, rest, hReads, hPerform⟩ := h.inv
  obtain ⟨brought, hFiles, hTokens⟩ := State.perform_fileEffect hPerform
  obtain ⟨front, hAll, -, -⟩ := hReads.front
  have hSpans := hWithin.spans
  rw [hAll] at hSpans
  obtain ⟨hBrought, hAfter⟩ := hFiles.within hTexts hSpans.suffix
  have hCommand := hReads.within hWithin.spans hLive hWithin.tokens
  refine ⟨?_, ?_, (State.perform_effect hPerform).within hCommand hWithin.items⟩
  · rw [hTokens]
    refine List.forall_mem_append.2 ⟨hBrought, ?_⟩
    intro token hMem
    exact hWithin.tokens token (hReads.rest_subset hMem)
  · rw [hTokens]
    exact hAfter

theorem Reaches.within {first : State} (h : Reaches surroundings first state) (hLive : first.Live)
    (hTexts : ∀ path text, surroundings.readText path = .ok text → text.length ≤ limit)
    (hWithin : first.Within limit) : state.Within limit := by
  induction h with
  | refl => exact hWithin
  | tail hReaches hStep ih => exact hStep.within (Reaches.live hReaches hLive) hTexts ih

theorem start_within {text : List CodePoint} {file : String} {source : Source} {first : State}
    (hScan : scanText text file = .ok source.tokens) (hLength : text.length ≤ limit)
    (h : start surroundings source = .ok first) : first.Within limit := by
  obtain ⟨hTokens, hPlaced, -, -⟩ := start_ok h
  refine ⟨?_, ?_, ?_⟩
  · rw [hTokens]
    exact scanText_within_limit hScan hLength
  · rw [hTokens]
    exact Statement.spans_of_length_le (Nat.le_trans (length_scanText hScan) hLength)
  · rw [Program.items, hPlaced]
    exact List.forall_mem_nil _

end
end Assembly
end Lr35902
