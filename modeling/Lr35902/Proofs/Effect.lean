import Lr35902.Assembly.Run

/-!
What a statement does to a program and to the files that are open, said once for all commands.
`Effect` has one case for each way in which a program can change: not at all, by a label, by an
item, or by a constant. `FileEffect` says which tokens a command brings in and which files are open
afterwards: only inclusions and marks change them. Performing a statement has exactly the effects of
its command (`perform_effect`, `perform_fileEffect`, `perform_complete`), and where it cannot have
them it meets one of few faults (`perform_met`). Every later fact about runs is derived from these
cases.
-/
namespace Lr35902

/-! ## Symbols and items -/

theorem SymbolTable.define_ok_iff {table after : SymbolTable} {symbol : Symbol}
    {line : Option String} :
    table.define symbol line = .ok after ↔
      table.lookup? symbol.name = none ∧ (0 ≤ symbol.value ∧ symbol.value ≤ maxAddress) ∧
        after = ⟨symbol :: table.defined⟩ := by
  unfold define
  split
  · next known hKnown => simp [hKnown]
  · next hNew =>
    split
    · next hRange => simp [hNew, hRange, eq_comm]
    · next hRange => simp [hNew, hRange]

theorem SymbolTable.lookup?_cons (symbol : Symbol) (defined : List Symbol) (name : String) :
    lookup? ⟨symbol :: defined⟩ name =
      if symbol.name = name then some symbol else lookup? ⟨defined⟩ name := by
  by_cases hName : symbol.name = name
  · simp [lookup?, hName]
  · simp [lookup?, hName]

/-- The program with one more symbol. -/
def Program.bind (program : Program) (symbol : Symbol) : Program :=
  { program with symbols := ⟨symbol :: program.symbols.defined⟩ }

/-- The item that a statement at a location puts at the current address. -/
def Program.itemAt (program : Program) (location : Location) (content : Content) : Item :=
  ⟨location, program.location, content⟩

/-- What a command puts at an address. Constants also define a symbol, which is not said here. -/
inductive Content.Of (address : Int) : Command → Content → Prop
  | instruction {mnemonic : String} {form : Form} {operands : List WrittenOperand}
    {built : List Operand} :
    buildOperands (address + form.size) operands form.operands = .ok built →
    Of address (.instruction mnemonic form operands) (.instruction mnemonic built form.size)
  | bytes {data : Bytes} : Of address (.bytes data) (.bytes data)
  | string {data : StringData} : Of address (.string data) (.string data)
  | fill {count value : Int} : Of address (.fill count value) (.fill count value)
  | origin {target value : Int} {targetLocation : Location} :
    address ≤ target → Of address (.origin target targetLocation value) (.pad target value)
  | use {file : String} {fileLocation : Location} :
    Of address (.use file fileLocation) (.inclusion file)

/-- What a command at a location does to a program. -/
inductive Effect (location : Location) (program : Program) : Command → Program → Prop
  | blank : Effect location program .blank program
  | endInclude {file : FileMark} : Effect location program (.endInclude file) program
  | sectionMark {name : String} : Effect location program (.sectionMark name) program
  | label {name : String} :
    program.symbols.lookup? name = none → 0 ≤ program.location → program.location ≤ maxAddress →
    Effect location program (.label name)
      (program.bind ⟨name, program.location, some location, false⟩)
  | place {command : Command} {content : Content} :
    Content.Of program.location command content →
    program.location + (program.itemAt location content).size ≤ memorySize →
    Effect location program command (program.append (program.itemAt location content))
  | constant {name : String} {nameLocation : Location} {value : Int} :
    program.symbols.lookup? name = none → 0 ≤ value → value ≤ maxAddress →
    program.location ≤ memorySize →
    Effect location program (.constant name nameLocation value)
      ((program.bind ⟨name, value, some nameLocation, true⟩).append
        (program.itemAt location (.constant name value)))

theorem Effect.placed_instruction {location : Location} {program after : Program}
    {mnemonic : String} {form : Form} {operands : List WrittenOperand}
    (h : Effect location program (.instruction mnemonic form operands) after) :
    ∃ content, Content.Of program.location (.instruction mnemonic form operands) content ∧
      after = program.append (program.itemAt location content) := by
  cases h with
  | place hContent _ => exact ⟨_, hContent, rfl⟩

namespace Assembly

/-- What a command does to the files that are open, and the tokens that it brings in before those
ahead. -/
inductive FileEffect (surroundings : Surroundings) (openFiles : List Spot) :
    Command → List Token → List Spot → Prop
  | none {command : Command} :
    (∀ file fileLocation, command ≠ .use file fileLocation) →
    (∀ file, command ≠ .endInclude file) →
    FileEffect surroundings openFiles command [] openFiles
  | use {file : String} {fileLocation : Location} {path : Path} {spot : Spot}
    {text : List CodePoint} {included : List Token} :
    surroundings.find fileLocation.file file = .found path spot → spot ∉ openFiles →
    surroundings.readText path = .ok text →
    scanText text path.text = .ok included →
    FileEffect surroundings openFiles (.use file fileLocation)
      (included ++ [State.closingMark spot path.text included]) (openFiles ++ [spot])
  | endInclude {file : FileMark} {spot : Spot} :
    openFiles.find? file.closes = some spot →
    FileEffect surroundings openFiles (.endInclude file) [] (openFiles.erase spot)

namespace State

theorem place_ok_iff {state after : State} {location : Location} {content : Content} :
    state.place location content = .ok after ↔
      state.program.location + (state.program.itemAt location content).size ≤ memorySize ∧
        after = { state with
          program := state.program.append (state.program.itemAt location content) } := by
  unfold place
  split
  · next program hPlace =>
    unfold Program.place at hPlace
    simp only at hPlace
    split at hPlace
    · cases hPlace
    · next hFits =>
      cases hPlace
      have hFits := Int.not_lt.1 hFits
      simp only [Program.itemAt, Except.ok.injEq]
      exact ⟨fun h => ⟨hFits, h.symm⟩, fun h => h.2.symm⟩
  · next objection place hPlace =>
    unfold Program.place at hPlace
    simp only at hPlace
    split at hPlace
    · next hFar =>
      constructor
      · intro h
        cases h
      · rintro ⟨hFits, -⟩
        exact absurd hFits (Int.not_le.2 hFar)
    · cases hPlace

theorem define_ok_iff {state after : State} {name : String} {value : Int} {location : Location}
    {isConstant : Bool} :
    state.define name value location isConstant = .ok after ↔
      state.program.symbols.lookup? name = none ∧ (0 ≤ value ∧ value ≤ maxAddress) ∧
        after = { state with
          program := state.program.bind ⟨name, value, some location, isConstant⟩ } := by
  unfold define
  split
  · next symbols hDefine =>
    obtain ⟨hNew, hRange, rfl⟩ := SymbolTable.define_ok_iff.1 hDefine
    simp only [Except.ok.injEq]
    exact ⟨fun h => ⟨hNew, hRange, h.symm⟩, fun h => h.2.2.symm⟩
  · next diagnostic hDefine =>
    constructor
    · intro h
      cases h
    · rintro ⟨hNew, hRange, -⟩
      rw [SymbolTable.define_ok_iff.2 ⟨hNew, hRange, rfl⟩] at hDefine
      cases hDefine

theorem bindLabel_ok_iff {state after : State} {name : String} {location : Location} :
    state.bindLabel name location = .ok after ↔
      state.program.symbols.lookup? name = none ∧ 0 ≤ state.program.location ∧
        state.program.location ≤ maxAddress ∧
        after = State.report { state with
          program := state.program.bind ⟨name, state.program.location, some location, false⟩ }
          (.label name state.program.location) := by
  unfold bindLabel
  simp only
  split
  · next hFar =>
    constructor
    · intro h
      cases h
    · rintro ⟨-, -, hNear, -⟩
      omega
  · split
    · next fault hDefine =>
      constructor
      · intro h
        cases h
      · rintro ⟨hNew, hLow, hHigh, -⟩
        rw [define_ok_iff.2 ⟨hNew, ⟨hLow, hHigh⟩, rfl⟩] at hDefine
        cases hDefine
    · next bound hDefine =>
      obtain ⟨hNew, ⟨hLow, hHigh⟩, rfl⟩ := define_ok_iff.1 hDefine
      simp only [Except.ok.injEq]
      exact ⟨fun h => ⟨hNew, hLow, hHigh, h.symm⟩, fun h => h.2.2.2.symm⟩

theorem defineConstant_ok_iff {state after : State} {location nameLocation : Location}
    {name : String} {value : Int} :
    state.defineConstant location name nameLocation value = .ok after ↔
      state.program.symbols.lookup? name = none ∧ 0 ≤ value ∧ value ≤ maxAddress ∧
        state.program.location ≤ memorySize ∧
        after = State.report { state with
          program := (state.program.bind ⟨name, value, some nameLocation, true⟩).append
            (state.program.itemAt location (.constant name value)) } (.constant name value) := by
  have hSize (program : Program) :
      program.location + (program.itemAt location (.constant name value)).size =
        program.location := Int.add_zero _
  unfold defineConstant
  split
  · next fault hDefine =>
    constructor
    · intro h
      cases h
    · rintro ⟨hNew, hLow, hHigh, -, -⟩
      rw [define_ok_iff.2 ⟨hNew, ⟨hLow, hHigh⟩, rfl⟩] at hDefine
      cases hDefine
  · next defined hDefine =>
    obtain ⟨hNew, ⟨hLow, hHigh⟩, rfl⟩ := define_ok_iff.1 hDefine
    split
    · next fault hPlace =>
      constructor
      · intro h
        cases h
      · rintro ⟨-, -, -, hFits, -⟩
        rw [place_ok_iff.2 ⟨by rw [hSize]; exact hFits, rfl⟩] at hPlace
        cases hPlace
    · next placed hPlace =>
      -- the item takes no bytes, so it fits wherever the program does
      obtain ⟨hFits, rfl⟩ := place_ok_iff.1 hPlace
      rw [hSize] at hFits
      simp only [Except.ok.injEq]
      exact ⟨fun h => ⟨hNew, hLow, hHigh, hFits, h.symm⟩, fun h => h.2.2.2.2.symm⟩

theorem placeInstruction_ok_iff {state after : State} {location : Location} {mnemonic : String}
    {form : Form} {operands : List WrittenOperand} :
    state.placeInstruction location mnemonic form operands = .ok after ↔
      ∃ built, buildOperands (state.program.location + form.size) operands form.operands =
          .ok built ∧
        state.place location (.instruction mnemonic built form.size) = .ok after := by
  unfold placeInstruction
  split
  · next hBuilt => simp [hBuilt]
  · next built hBuilt => simp [hBuilt]

theorem placeOrigin_ok_iff {state after : State} {location targetLocation : Location}
    {target value : Int} :
    state.placeOrigin location target targetLocation value = .ok after ↔
      state.program.location ≤ target ∧ state.place location (.pad target value) = .ok after := by
  unfold placeOrigin
  split
  · next hBehind =>
    simp only [reduceCtorEq, false_iff, not_and]
    intro hAhead
    omega
  · next hAhead => simp only [Int.not_lt.1 hAhead, true_and]

theorem includeFile_ok_iff {surroundings : Surroundings} {state after : State}
    {location : Location} {name : String} {nameLocation : Location} :
    includeFile surroundings state location name nameLocation = .ok after ↔
      ∃ path spot text tokens, surroundings.find nameLocation.file name = .found path spot ∧
        spot ∉ state.openFiles ∧ surroundings.readText path = .ok text ∧
        scanText text path.text = .ok tokens ∧
        state.program.location + (state.program.itemAt location (.inclusion name)).size ≤
          memorySize ∧
        after = State.report { state.splice spot path.text text tokens with
          program := state.program.append (state.program.itemAt location (.inclusion name)) }
          (.included path.text tokens.length) := by
  constructor
  · intro h
    unfold includeFile at h
    simp only at h
    split at h
    · cases h
    · cases h
    · next path spot hFind =>
      split at h
      · cases h
      · next hClosed =>
        split at h
        · cases h
        · cases h
        · next text hText =>
          split at h
          · cases h
          · next tokens hScan =>
            split at h
            · cases h
            · next placed hPlace =>
              obtain ⟨hFits, rfl⟩ := place_ok_iff.1 hPlace
              cases h
              exact ⟨path, spot, text, tokens, hFind, by simpa using hClosed, hText, hScan, hFits,
                rfl⟩
  · rintro ⟨path, spot, text, tokens, hFind, hClosed, hText, hScan, hFits, rfl⟩
    have hPlace : (state.splice spot path.text text tokens).place location (.inclusion name) =
        .ok _ := place_ok_iff.2 ⟨hFits, rfl⟩
    unfold includeFile
    simp only [hFind, List.contains_eq_mem, hClosed, hText, hScan, hPlace]
    rfl

theorem closeFile_ok_iff {state after : State} {file : FileMark} :
    state.closeFile file = .ok after ↔
      ∃ spot, state.openFiles.find? file.closes = some spot ∧
        after = { state with openFiles := state.openFiles.erase spot } := by
  unfold closeFile
  split
  · next spot hFind => simp [hFind, eq_comm]
  · next hFind => simp [hFind]

/-- A statement that is performed has the effect of its command. -/
theorem perform_effect {surroundings : Surroundings} {state after : State} {statement : Statement}
    (h : perform surroundings state statement = .ok after) :
    Effect statement.location state.program statement.command after.program := by
  obtain ⟨location, command⟩ := statement
  cases command with
  | blank =>
    cases h
    exact .blank
  | endInclude file =>
    obtain ⟨spot, -, rfl⟩ := closeFile_ok_iff.1 h
    exact .endInclude
  | label name =>
    obtain ⟨hNew, hLow, hHigh, rfl⟩ := bindLabel_ok_iff.1 h
    exact .label hNew hLow hHigh
  | instruction mnemonic form operands =>
    obtain ⟨built, hBuilt, hPlace⟩ := placeInstruction_ok_iff.1 h
    obtain ⟨hFits, rfl⟩ := place_ok_iff.1 hPlace
    exact .place (.instruction hBuilt) hFits
  | bytes data =>
    obtain ⟨hFits, rfl⟩ := place_ok_iff.1 h
    exact .place .bytes hFits
  | string data =>
    obtain ⟨hFits, rfl⟩ := place_ok_iff.1 h
    exact .place .string hFits
  | fill count value =>
    obtain ⟨hFits, rfl⟩ := place_ok_iff.1 h
    exact .place .fill hFits
  | origin target targetLocation value =>
    obtain ⟨hAhead, hPlace⟩ := placeOrigin_ok_iff.1 h
    obtain ⟨hFits, rfl⟩ := place_ok_iff.1 hPlace
    exact .place (.origin hAhead) hFits
  | constant name nameLocation value =>
    obtain ⟨hNew, hLow, hHigh, hFits, rfl⟩ := defineConstant_ok_iff.1 h
    exact .constant hNew hLow hHigh hFits
  | use file fileLocation =>
    obtain ⟨path, spot, text, tokens, -, -, -, -, hFits, rfl⟩ := includeFile_ok_iff.1 h
    exact .place .use hFits
  | sectionMark name =>
    cases h
    exact .sectionMark

/-- A statement that is performed changes the tokens and the open files as its command does. -/
theorem perform_fileEffect {surroundings : Surroundings} {state after : State}
    {statement : Statement} (h : perform surroundings state statement = .ok after) :
    ∃ brought, FileEffect surroundings state.openFiles statement.command brought after.openFiles ∧
      after.tokens = brought ++ state.tokens := by
  obtain ⟨location, command⟩ := statement
  cases command with
  | blank | sectionMark name =>
    cases h
    exact ⟨[], .none nofun nofun, rfl⟩
  | endInclude file =>
    obtain ⟨spot, hFind, rfl⟩ := closeFile_ok_iff.1 h
    exact ⟨[], .endInclude hFind, rfl⟩
  | label name =>
    obtain ⟨-, -, -, rfl⟩ := bindLabel_ok_iff.1 h
    exact ⟨[], .none nofun nofun, rfl⟩
  | instruction mnemonic form operands =>
    obtain ⟨built, -, hPlace⟩ := placeInstruction_ok_iff.1 h
    obtain ⟨-, rfl⟩ := place_ok_iff.1 hPlace
    exact ⟨[], .none nofun nofun, rfl⟩
  | bytes data | string data | fill count value =>
    obtain ⟨-, rfl⟩ := place_ok_iff.1 h
    exact ⟨[], .none nofun nofun, rfl⟩
  | origin target targetLocation value =>
    obtain ⟨-, hPlace⟩ := placeOrigin_ok_iff.1 h
    obtain ⟨-, rfl⟩ := place_ok_iff.1 hPlace
    exact ⟨[], .none nofun nofun, rfl⟩
  | constant name nameLocation value =>
    obtain ⟨-, -, -, -, rfl⟩ := defineConstant_ok_iff.1 h
    exact ⟨[], .none nofun nofun, rfl⟩
  | use file fileLocation =>
    obtain ⟨path, spot, text, tokens, hFind, hClosed, hText, hScan, -, rfl⟩ :=
      includeFile_ok_iff.1 h
    exact ⟨_, .use hFind hClosed hText hScan, List.append_cons tokens _ state.tokens⟩

/-- A statement is performed whenever its command can have its effects. -/
theorem perform_complete {surroundings : Surroundings} {state : State} {location : Location}
    {command : Command} {program : Program} {brought : List Token} {openFiles : List Spot}
    (hEffect : Effect location state.program command program)
    (hFiles : FileEffect surroundings state.openFiles command brought openFiles) :
    ∃ after, perform surroundings state ⟨location, command⟩ = .ok after ∧
      after.program = program ∧ after.tokens = brought ++ state.tokens ∧
      after.openFiles = openFiles := by
  cases hFiles with
  | use hFind hClosed hText hScan =>
    cases hEffect with
    | place hContent hFits =>
      cases hContent with
      | use =>
        have hIncluded :=
          includeFile_ok_iff.2 ⟨_, _, _, _, hFind, hClosed, hText, hScan, hFits, rfl⟩
        exact ⟨_, hIncluded, rfl, List.append_cons _ _ _, rfl⟩
  | endInclude hFind =>
    cases hEffect with
    | endInclude => exact ⟨_, closeFile_ok_iff.2 ⟨_, hFind, rfl⟩, rfl, rfl, rfl⟩
    | place hContent _ => nomatch hContent
  | none hUse hEnd =>
    cases hEffect with
    | blank => exact ⟨state, rfl, rfl, rfl, rfl⟩
    | endInclude => exact absurd rfl (hEnd _)
    | sectionMark => exact ⟨_, rfl, rfl, rfl, rfl⟩
    | label hNew hLow hHigh =>
      exact ⟨_, bindLabel_ok_iff.2 ⟨hNew, hLow, hHigh, rfl⟩, rfl, rfl, rfl⟩
    | constant hNew hLow hHigh hFits =>
      exact ⟨_, defineConstant_ok_iff.2 ⟨hNew, hLow, hHigh, hFits, rfl⟩, rfl, rfl, rfl⟩
    | place hContent hFits =>
      have hPlace : state.place location _ = .ok _ := place_ok_iff.2 ⟨hFits, rfl⟩
      cases hContent with
      | instruction hBuilt =>
        exact ⟨_, placeInstruction_ok_iff.2 ⟨_, hBuilt, hPlace⟩, rfl, rfl, rfl⟩
      | bytes => exact ⟨_, hPlace, rfl, rfl, rfl⟩
      | string => exact ⟨_, hPlace, rfl, rfl, rfl⟩
      | fill => exact ⟨_, hPlace, rfl, rfl, rfl⟩
      | origin hAhead => exact ⟨_, placeOrigin_ok_iff.2 ⟨hAhead, hPlace⟩, rfl, rfl, rfl⟩
      | use => exact absurd rfl (hUse _ _)

end State

/-! ## Faults -/

/-- The faults that performing a command can meet. Only a mark can meet a file that is not open. -/
inductive Fault.Met : Command → Fault → Prop
  | diagnostic {command : Command} {diagnostic : Diagnostic} : Met command (.diagnostic diagnostic)
  | file {file : String} {fileLocation : Location} {error : FileError} :
    Met (.use file fileLocation) (.file error)
  | notSupplied {file path : String} {fileLocation : Location} :
    Met (.use file fileLocation) (.notSupplied path)
  | notOpen {file : FileMark} : Met (.endInclude file) (.notOpen file)

namespace State
variable {surroundings : Surroundings} {state : State} {fault : Fault}

theorem place_error {location : Location} {content : Content}
    (h : state.place location content = .error fault) :
    ∃ diagnostic, fault = .diagnostic diagnostic ∧ diagnostic.cause.kind = .range := by
  unfold place Program.place at h
  simp only at h
  split at h
  · cases h
  · next hFar =>
    cases h
    split at hFar
    · cases hFar
      exact ⟨_, rfl, rfl⟩
    · cases hFar

theorem define_error {name : String} {value : Int} {location : Location} {isConstant : Bool}
    (h : state.define name value location isConstant = .error fault) :
    ∃ diagnostic, fault = .diagnostic diagnostic := by
  unfold define at h
  split at h
  · cases h
  · cases h
    exact ⟨_, rfl⟩

theorem place_met {location : Location} {content : Content} {command : Command}
    (h : state.place location content = .error fault) : Fault.Met command fault := by
  obtain ⟨diagnostic, rfl, -⟩ := place_error h
  exact .diagnostic

theorem includeFile_met {location nameLocation : Location} {name : String}
    (h : includeFile surroundings state location name nameLocation = .error fault) :
    Fault.Met (.use name nameLocation) fault := by
  unfold includeFile at h
  simp only at h
  split at h
  · cases h
    exact .file
  · cases h
    exact .diagnostic
  · split at h
    · cases h
      exact .diagnostic
    · split at h
      · cases h
        exact .diagnostic
      · cases h
        exact .notSupplied
      · split at h
        · cases h
          exact .diagnostic
        · split at h
          · next hPlace =>
            cases h
            exact place_met hPlace
          · cases h

theorem perform_met {statement : Statement}
    (h : perform surroundings state statement = .error fault) :
    Fault.Met statement.command fault := by
  obtain ⟨location, command⟩ := statement
  cases command with
  | blank | sectionMark => cases h
  | bytes | string | fill => exact place_met h
  | use => exact includeFile_met h
  | endInclude file =>
    simp only [perform, closeFile] at h
    split at h
    · cases h
    · cases h
      exact .notOpen
  | label name =>
    simp only [perform, bindLabel] at h
    split at h
    · cases h
      exact .diagnostic
    · split at h
      · next hDefine =>
        cases h
        obtain ⟨diagnostic, rfl⟩ := define_error hDefine
        exact .diagnostic
      · cases h
  | instruction mnemonic form operands =>
    simp only [perform, placeInstruction] at h
    split at h
    · cases h
      exact .diagnostic
    · exact place_met h
  | origin target targetLocation value =>
    simp only [perform, placeOrigin] at h
    split at h
    · cases h
      exact .diagnostic
    · exact place_met h
  | constant name nameLocation value =>
    simp only [perform, defineConstant] at h
    split at h
    · next hDefine =>
      cases h
      obtain ⟨diagnostic, rfl⟩ := define_error hDefine
      exact .diagnostic
    · split at h
      · next hPlace =>
        cases h
        exact place_met hPlace
      · cases h

end State
end Assembly
end Lr35902
