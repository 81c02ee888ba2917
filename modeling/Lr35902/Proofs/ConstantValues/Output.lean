import Lr35902.Proofs.ConstantValues.Layout

/-!
The bytes that depend on the values of constants. Clauses that differ in such values have bytes that
are equal but for the payloads of instructions with an operand whose value has changed
(`instruction_differs`, `encoded_differs`). Such an instruction is one that the run reads where the
program has come to its address (`run_meets`). So programs that differ in the values of their
constants are laid out alike, and their outputs differ only where an instruction refers to a name
whose value differs (`layout_of_revalued`).
-/
namespace Lr35902

/-- The name that an operand refers to. -/
def Written.referent? : Written → Option String
  | .name word | .addressName word => some word
  | _ => none

namespace TwoPass

open Assembly (Source State Trace run)

/-! ## Clauses -/

section
variable {table other : List Definition}

/-- An operand that has another value in another table refers to a name that has. -/
theorem referent?_of_differs {written : Written}
    (h : operandValue? table written ≠ operandValue? other written) :
    ∃ name, written.referent? = some name ∧ valueOf? table name ≠ valueOf? other name := by
  cases written with
  | name word | addressName word => exact ⟨word, rfl, h⟩
  | _ => exact absurd rfl h

/-- The bytes of an instruction differ after its opcode only, and only if an operand refers to a
name whose value differs. -/
theorem instruction_differs {form : Form} {operands : List Written} {address : Int}
    {bytes more : Bytes} (h : (Clause.instruction form operands).encode? table address = some bytes)
    (hOther : (Clause.instruction form operands).encode? other address = some more) {i : Nat}
    (hDiffers : bytes[i]? ≠ more[i]?) :
    form.opcode.length ≤ i ∧ ∃ written ∈ operands, ∃ name, written.referent? = some name ∧
      valueOf? table name ≠ valueOf? other name := by
  constructor
  · by_contra hOpcode
    simp only [Clause.encode?, Option.bind_eq_bind, Option.bind_eq_some_iff] at h hOther
    obtain ⟨parts, -, hBytes⟩ := h
    obtain ⟨others, -, hMore⟩ := hOther
    cases hBytes
    cases hMore
    apply hDiffers
    rw [List.getElem?_append_left (by omega), List.getElem?_append_left (by omega)]
  · by_contra hNone
    have hValues : operands.map (operandValue? table) = operands.map (operandValue? other) := by
      refine List.map_congr_left ?_
      intro written hMem
      by_contra hValue
      exact hNone ⟨written, hMem, referent?_of_differs hValue⟩
    rw [encode?_congr form hValues, hOther] at h
    cases h
    exact hDiffers rfl

/-- A position of the output lies in the payload of an instruction among some clauses that refers to
a name whose value differs between two tables. -/
def Affected (table other : List Definition) (placed : List (Int × Clause)) (position : Int) :
    Prop :=
  ∃ start form operands, (start, Clause.instruction form operands) ∈ placed ∧
    start + form.opcode.length ≤ position ∧ position < start + form.size ∧
    ∃ written ∈ operands, ∃ name, written.referent? = some name ∧
      valueOf? table name ≠ valueOf? other name

theorem Affected.mono {placed more : List (Int × Clause)} {position : Int}
    (h : Affected table other placed position) (hSubset : placed ⊆ more) :
    Affected table other more position := by
  obtain ⟨start, form, operands, hMem, hPayload⟩ := h
  exact ⟨start, form, operands, hSubset hMem, hPayload⟩

theorem Clause.Revalued.size_eq {clause same : Clause} (h : clause.Revalued same) (address : Int) :
    clause.size address = same.size address := by
  cases h with
  | same => rfl
  | constant => rfl

/-- The bytes of a clause differ in the payload of an instruction only. -/
theorem clause_differs {clause same : Clause} (hSame : clause.Revalued same) {address : Int}
    (hSized : clause.Sized address) {bytes more : Bytes}
    (h : clause.encode? table address = some bytes)
    (hOther : same.encode? other address = some more) {i : Nat} (hDiffers : bytes[i]? ≠ more[i]?)
    (hBelow : i < bytes.length) : Affected table other [(address, clause)] (address + i) := by
  have hSize := hSized table bytes h
  cases hSame with
  | constant =>
    cases h
    cases hOther
    exact absurd rfl hDiffers
  | same =>
    cases clause with
    | instruction form operands =>
      obtain ⟨hOpcode, hRefers⟩ := instruction_differs h hOther hDiffers
      simp only [Clause.size] at hSize
      exact ⟨address, form, operands, List.mem_singleton_self _, by omega, by omega, hRefers⟩
    | _ =>
      cases h
      cases hOther
      exact absurd rfl hDiffers

theorem encoded_differs {clauses others : List Clause}
    (hSame : List.Forall₂ Clause.Revalued clauses others) {address : Int}
    (hSized : ∀ place ∈ addressed address clauses, place.2.Sized place.1)
    (hOtherSized : ∀ place ∈ addressed address others, place.2.Sized place.1)
    {parts more : List Bytes} (h : Encoded table (addressed address clauses) parts)
    (hOther : Encoded other (addressed address others) more) :
    parts.flatten.length = more.flatten.length ∧
      ∀ i : Nat, parts.flatten[i]? ≠ more.flatten[i]? →
        Affected table other (addressed address clauses) (address + i) := by
  induction hSame generalizing address parts more with
  | nil =>
    cases h
    cases hOther
    exact ⟨rfl, fun i hDiffers => absurd rfl hDiffers⟩
  | @cons clause same clauses others hClause _ ih =>
    cases h with
    | @cons _ part _ parts hPart hParts =>
      cases hOther with
      | @cons _ another _ more hAnother hMore =>
        obtain ⟨hHere, hRest⟩ := List.forall_mem_cons.1 hSized
        obtain ⟨hOtherHere, hOtherRest⟩ := List.forall_mem_cons.1 hOtherSized
        have hSize := hHere table part hPart
        have hOtherSize := hOtherHere other another hAnother
        have hLength : part.length = another.length := by
          have hSizes := hClause.size_eq address
          simp only at hSize hOtherSize
          omega
        rw [← hClause.size_eq address] at hOtherRest hMore
        obtain ⟨hLengths, hDiffer⟩ := ih hRest hOtherRest hParts hMore
        rw [List.flatten_cons, List.flatten_cons]
        refine ⟨by rw [List.length_append, List.length_append, hLength, hLengths], ?_⟩
        intro i hDiffers
        by_cases hBelow : i < part.length
        · rw [List.getElem?_append_left hBelow,
            List.getElem?_append_left (by omega)] at hDiffers
          refine (clause_differs hClause hHere hPart hAnother hDiffers hBelow).mono ?_
          exact List.cons_subset_cons _ (List.nil_subset _)
        · rw [List.getElem?_append_right (by omega), List.getElem?_append_right (by omega),
            ← hLength] at hDiffers
          have hLater := hDiffer (i - part.length) hDiffers
          have hPosition : address + clause.size address + ((i - part.length : Nat) : Int) =
              address + i := by
            simp only at hSize
            omega
          rw [hPosition] at hLater
          exact hLater.mono (List.subset_cons_self _ _)

end

/-! ## Runs -/

section
variable {surroundings : Surroundings}

/-- A run from a state reads the statement of a clause when the program has come to an address. -/
def Meets (surroundings : Surroundings) (state : State) (place : Int × Clause) : Prop :=
  ∃ count token tokens statement rest,
    (run surroundings count state).state.tokens = token :: tokens ∧
    Statement.read token tokens = .ok (statement, rest) ∧
    ofCommand statement.command = [place.2] ∧
    (run surroundings count state).state.program.location = place.1

theorem Meets.of_step {state after : State} {token : Token} {tokens : List Token}
    (hTokens : state.tokens = token :: tokens)
    (hStep : state.step surroundings token tokens = .ok after) {place : Int × Clause}
    (h : Meets surroundings after place) : Meets surroundings state place := by
  obtain ⟨count, hMeets⟩ := h
  refine ⟨count + 1, ?_⟩
  rw [Assembly.run_succ _ hTokens, hStep]
  exact hMeets

/-- A run comes to the statement of every clause, where the program has come to its address. -/
theorem run_meets {tokens : List Token} {openFiles others : List Spot}
    {statements : List Statement} (hTrace : Trace surroundings tokens openFiles statements others)
    {state : State} (hTokens : state.tokens = tokens) (hOpen : state.openFiles = openFiles)
    {program : Program} (hEffects : Effects state.program statements program)
    (hMeasured : ∀ statement ∈ statements, statement.command.Measured)
    (hLaid : state.program.Laid) :
    ∀ place ∈ addressed state.program.location (clausesOf statements),
      Meets surroundings state place := by
  induction hTrace generalizing state with
  | done => exact List.forall_mem_nil _
  | @step token tokens rest brought _ _ _ statement statements hRead hFiles _ ih =>
    cases hEffects with
    | cons hEffect hEffects =>
      obtain ⟨hHere, hLater⟩ := List.forall_mem_cons.1 hMeasured
      rw [← hOpen] at hFiles
      obtain ⟨after, hStep, rfl, hRest, hOthers⟩ := Assembly.step_complete hRead hEffect hFiles
      have hAfter : ∀ place ∈ addressed after.program.location (clausesOf statements),
          Meets surroundings state place := by
        intro place hPlace
        exact .of_step hTokens hStep
          (ih hRest hOthers hEffects hLater (hEffect.laid hHere hLaid) place hPlace)
      rw [clausesOf_cons]
      rcases ofCommand_cases statement.command with hNone | ⟨clause, hClause⟩
      · rw [hNone, List.nil_append, ← (effect_silent hEffect hNone).1]
        exact hAfter
      · rw [hClause, List.singleton_append, addressed, ← (effect_clause hEffect hLaid hClause).1]
        refine List.forall_mem_cons.2 ⟨⟨0, token, tokens, statement, rest, ?_⟩, hAfter⟩
        rw [Assembly.run_zero hTokens]
        exact ⟨hTokens, hRead, hClause, rfl⟩

end

/-! ## Programs -/

/-- A position of the output is in the payload of an instruction that refers to a name. The
instruction is read on the way of the assembly, from the source or from an included file, when the
program has come to its address; one of its operands is written as the name; and the position is
after its opcode. -/
def RefersAt (surroundings : Surroundings) (source : Source) (name : String) (position : Nat) :
    Prop :=
  ∃ first count token tokens rest location mnemonic form operands,
    Assembly.start surroundings source = .ok first ∧
    (run surroundings count first).state.tokens = token :: tokens ∧
    Statement.read token tokens = .ok (⟨location, .instruction mnemonic form operands⟩, rest) ∧
    (∃ operand ∈ operands, operand.written.referent? = some name) ∧
    (run surroundings count first).state.program.location + form.opcode.length ≤ position ∧
    position < (run surroundings count first).state.program.location + form.size

section
variable {surroundings : Surroundings} {source : Source} {program : Program}

theorem Accomplished.output {first last : State} {statements : List Statement}
    (h : Accomplished surroundings source first last statements program)
    (hLive : ∀ token ∈ source.tokens, token.Live)
    (hAssemble : (Assembly.assemble surroundings source).result = .ok program)
    (chunk : ChunkSize) :
    ∃ code event, MachineCode.generate chunk program = .ok (code, event) ∧
      Output source.defines.entries (clausesOf statements) code (definitionsOf program) := by
  obtain ⟨start, same, _, code, event, hStart, hTrace, hGenerate, hOutput⟩ :=
    output_of_assemble hLive hAssemble chunk
  obtain rfl : first = start := Except.ok.inj (h.start_eq.symm.trans hStart)
  rw [← h.trace.unique hTrace] at hOutput
  exact ⟨code, event, hGenerate, hOutput⟩

/-- An affected position is one to which an instruction of the source refers. -/
theorem Accomplished.refersAt {first last : State} {statements : List Statement}
    (h : Accomplished surroundings source first last statements program)
    {table other : List Definition} {position : Nat}
    (hAffected : Affected table other (addressed 0 (clausesOf statements)) position) :
    ∃ name, RefersAt surroundings source name position ∧
      valueOf? table name ≠ valueOf? other name := by
  obtain ⟨start, form, operands, hMem, hAfter, hBefore, written, hWritten, name, hName, hValue⟩ :=
    hAffected
  have hFresh := start_fresh h.start_eq
  rw [← hFresh.location_eq] at hMem
  obtain ⟨count, token, tokens, ⟨location, command⟩, rest, hTokens, hRead, hClause, hLocation⟩ :=
    run_meets h.trace hFresh.tokens_eq rfl h.effects h.measured hFresh.laid _ hMem
  refine ⟨name, ?_, hValue⟩
  cases command with
  | instruction mnemonic form operands =>
    cases hClause
    obtain ⟨operand, hOperand, rfl⟩ := List.mem_map.1 hWritten
    refine ⟨first, count, token, tokens, rest, location, mnemonic, form, operands, h.start_eq,
      hTokens, hRead, ⟨operand, hOperand, hName⟩, ?_, ?_⟩
    · rw [hLocation]
      exact hAfter
    · rw [hLocation]
      exact hBefore
  | _ => cases hClause

end

section
variable {surroundings : Surroundings} {text other file : String}
  {defines otherDefines : NameMap Int} {tokens others : List Token} {program same : Program}

theorem assemble_of_scan (hScan : scan text file = .ok tokens)
    (h : (assembleText surroundings text file defines).result = .ok program) :
    (Assembly.assemble surroundings ⟨tokens, file, some text.toList, defines⟩).result =
      .ok program := by
  simp only [assembleText, hScan] at h
  exact h

theorem revaluedTokens_of_scan (hScan : scan text file = .ok tokens)
    (hOther : scan other file = .ok others) (h : Revalued (lexemes tokens) (lexemes others)) :
    RevaluedTokens tokens others := by
  have hLength : others.length = tokens.length := by simpa [lexemes] using h.length_eq.symm
  refine ⟨h, ?_, (relocated_tokensOf hScan).2, (relocated_tokensOf hOther).2⟩
  -- all tokens of both are in the one file
  rw [List.map_eq_replicate_iff.2 (scan_file hScan), List.map_eq_replicate_iff.2 (scan_file hOther),
    hLength]

/-- The layout of a program does not depend on the values of its constants. Take two texts that
differ in the numbers of their constants at most, and any definitions made beforehand. If both
assemble, then the programs have the same items in outline, the same labels and the same end; their
outputs are equally long, and differ only in the payloads of instructions that refer to a name whose
value is not the same in both. -/
theorem layout_of_revalued (hScan : scan text file = .ok tokens)
    (hOtherScan : scan other file = .ok others)
    (hRevalued : Revalued (lexemes tokens) (lexemes others))
    (h : (assembleText surroundings text file defines).result = .ok program)
    (hSame : (assembleText surroundings other file otherDefines).result = .ok same)
    (chunk : ChunkSize) :
    program.SameLayout same ∧ ∃ code event otherCode otherEvent,
      MachineCode.generate chunk program = .ok (code, event) ∧
      MachineCode.generate chunk same = .ok (otherCode, otherEvent) ∧
      code.length = otherCode.length ∧
      ∀ position : Nat, code[position]? ≠ otherCode[position]? → ∃ name,
        RefersAt surroundings ⟨tokens, file, some text.toList, defines⟩ name position ∧
        (program.symbols.lookup? name).map Symbol.value ≠
          (same.symbols.lookup? name).map Symbol.value := by
  have hAssemble := assemble_of_scan hScan h
  have hOtherAssemble := assemble_of_scan hOtherScan hSame
  have hTokens := revaluedTokens_of_scan hScan hOtherScan hRevalued
  obtain ⟨first, last, statements, hDone⟩ := accomplished hTokens.live hAssemble
  obtain ⟨second, final, more, hOtherDone⟩ := accomplished hTokens.live_others hOtherAssemble
  have hOpen := (start_ok_iff.1 ⟨first, hDone.start_eq, rfl⟩).1
  have hOtherOpen := (start_ok_iff.1 ⟨second, hOtherDone.start_eq, rfl⟩).1
  have hFiles : second.openFiles = first.openFiles :=
    Except.ok.inj (hOtherOpen.symm.trans hOpen)
  have hOtherTrace := hOtherDone.trace
  rw [hFiles] at hOtherTrace
  have hParallel := hTokens.trace hDone.trace hOtherTrace
  have hClauses : List.Forall₂ Clause.Revalued (clausesOf statements) (clausesOf more) :=
    clausesOf_corresponding (hParallel.imp fun _ _ h => h.corresponding)
  obtain ⟨code, event, hCode, hOutput⟩ := hDone.output hTokens.live hAssemble chunk
  obtain ⟨otherCode, otherEvent, hOtherCode, hOtherOutput⟩ :=
    hOtherDone.output hTokens.live_others hOtherAssemble chunk
  obtain ⟨parts, hParts, rfl⟩ := hOutput.encoded
  obtain ⟨otherParts, hOtherParts, rfl⟩ := hOtherOutput.encoded
  obtain ⟨hLength, hDiffers⟩ := encoded_differs hClauses
    (sized_of_measured hDone.measured hOutput.admissible)
    (sized_of_measured hOtherDone.measured hOtherOutput.admissible) hParts hOtherParts
  refine ⟨hDone.sameLayout hOtherDone hParallel, _, event, _, otherEvent, hCode, hOtherCode,
    hLength, ?_⟩
  intro position hPosition
  have hAffected := hDiffers position hPosition
  rw [Int.zero_add] at hAffected
  obtain ⟨name, hRefers, hValue⟩ := hDone.refersAt hAffected
  refine ⟨name, hRefers, ?_⟩
  rw [agrees_definitions hOutput.distinct name, agrees_definitions hOtherOutput.distinct name]
  exact hValue

/-- A constant that is used before it is defined has another value, and so has a name that is
defined beforehand. The second byte differs, and is in the payload of an instruction that refers to
one of them. -/
theorem layout_of_revalued_forward :
    let surroundings := Assembly.workingDirectory []
    let text := "ld a, N\n.equ N, 5\nhere: jp M"
    let other := "ld a, N\n.equ N, 200\nhere: jp M"
    ∃ tokens others program same, scan text "<input>" = .ok tokens ∧
      scan other "<input>" = .ok others ∧ Revalued (lexemes tokens) (lexemes others) ∧
      (assembleText surroundings text "<input>" ⟨[("M", 1)]⟩).result = .ok program ∧
      (assembleText surroundings other "<input>" ⟨[("M", 0x1234)]⟩).result = .ok same ∧
      program.SameLayout same ∧ ∃ name,
        RefersAt surroundings ⟨tokens, "<input>", some text.toList, ⟨[("M", 1)]⟩⟩ name 1 ∧
        (program.symbols.lookup? name).map Symbol.value ≠
          (same.symbols.lookup? name).map Symbol.value := by
  intro surroundings text other
  let before : List Lexeme :=
    [.mnemonic "ld", .register "a", .delimiter .comma (some ","), .identifier "N", .newline]
  let after : List Lexeme :=
    [.newline, .identifier "here", .delimiter .colon (some ":"), .mnemonic "jp", .identifier "M"]
  let words (value : Int) : List Lexeme :=
    before ++ .directive ".equ" :: .identifier "N" :: .delimiter .comma (some ",") ::
      .number value :: after
  have hWords : Revalued (words 5) (words 200) :=
    .append (.constant "N" (some ",") 5 200 (.refl after)) before
  have hTokens : (scan text "<input>").toOption.map lexemes = some (words 5) := by decide +kernel
  have hOthers : (scan other "<input>").toOption.map lexemes = some (words 200) := by
    decide +kernel
  have hFirst : Yields (assembleText surroundings text "<input>" ⟨[("M", 1)]⟩) .standard
      [0x3E, 5, 0xC3, 1, 0] [⟨"M", 1, true⟩, ⟨"N", 5, true⟩, ⟨"here", 2, false⟩] := by
    decide +kernel
  have hSecond : Yields (assembleText surroundings other "<input>" ⟨[("M", 0x1234)]⟩) .standard
      [0x3E, 200, 0xC3, 0x34, 0x12]
      [⟨"M", 0x1234, true⟩, ⟨"N", 200, true⟩, ⟨"here", 2, false⟩] := by decide +kernel
  obtain ⟨tokens, hScan, hText⟩ := Option.map_eq_some_iff.1 hTokens
  obtain ⟨others, hOtherScan, hOther⟩ := Option.map_eq_some_iff.1 hOthers
  have hScan := eq_ok_of_toOption hScan
  have hOtherScan := eq_ok_of_toOption hOtherScan
  rw [← hText, ← hOther] at hWords
  obtain ⟨program, _, hProgram, hGenerate, -⟩ := hFirst
  obtain ⟨same, _, hSame, hOtherGenerate, -⟩ := hSecond
  obtain ⟨hLayout, code, event, otherCode, otherEvent, hCode, hOtherCode, -, hDiffers⟩ :=
    layout_of_revalued hScan hOtherScan hWords hProgram hSame .standard
  rw [hGenerate] at hCode
  rw [hOtherGenerate] at hOtherCode
  cases hCode
  cases hOtherCode
  exact ⟨tokens, others, program, same, hScan, hOtherScan, hWords, hProgram, hSame, hLayout,
    hDiffers 1 (by decide)⟩

end

end TwoPass

end Lr35902
