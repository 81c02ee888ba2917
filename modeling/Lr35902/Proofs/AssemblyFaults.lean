import Lr35902.Proofs.Encoding
import Lr35902.Proofs.OpenFiles
import Lr35902.Proofs.Printing
import Lr35902.Proofs.ReadingFaults
import Lr35902.Proofs.RunPlaces
import Lr35902.Proofs.ScanFailure

/-!
How an assembly fails. Over tokens of a text, every fault but one is a diagnostic of one of the
kinds, and it can be put into words, as long as the surroundings answer what the assembly asks them:
whether a path leads to a file, what the text of a file is, and how that text is scanned (`Asked`,
`Answers`). All numbers in a diagnostic are bounded by the address space or by the length of the
texts, since what it is about keeps its place in one of them (`State.Within`). The one fault that is
no diagnostic is met exactly where a text with a surrogate is wanted as UTF-8
(`assemble_worded_or_unencodable`).
-/
namespace Lr35902

/-! ## Diagnostics that can be told -/

/-- A diagnostic about a place in a text of some length, whose cause can be told. -/
structure Diagnostic.Told (limit : Nat) (d : Diagnostic) : Prop where
  cause : d.cause.Told
  location : ∀ location, d.location = some location → location.Within (limit + 1)

theorem Diagnostic.Told.obstacle?_eq_none {limit : Nat} {d : Diagnostic} (h : d.Told limit)
    (hFits : (limit : Int) + 5 ≤ Text.lengthLimit) : d.obstacle? = none := by
  have hNumbers : d.cause.decimals.any Text.exceedsDecimalLimit = false := by
    rw [List.any_eq_false]
    intro value hMem
    simp [Text.exceedsDecimalLimit_of_le (h.cause.short value hMem)]
  rw [Diagnostic.obstacle?_eq (by omega) h.location, hNumbers]
  rfl

/-- A jump over less than the address space is a short number. -/
theorem NumberKind.convert_told {kind : NumberKind} {referent : Referent} {next : Int}
    {objection : Objection} (hValue : 0 ≤ referent.value ∧ referent.value ≤ 0xFFFF)
    (hNext : 0 ≤ next ∧ next ≤ 0x20000) (h : kind.convert referent next = .error objection) :
    objection.cause.Told := by
  cases kind with
  | immediate8 =>
    simp only [convert] at h
    split at h
    · cases h
      exact Cause.told_of_nil rfl rfl
    · cases h
  | address8 =>
    simp only [convert] at h
    split at h
    · cases h
    · cases h
      exact Cause.told_of_nil rfl rfl
  | relative =>
    simp only [convert] at h
    split at h
    · cases h
    · cases h
      exact Cause.told_of_one rfl rfl (by omega)
  | immediate16 | address16 | bit | vector => cases h

theorem SymbolTable.define_told {limit : Nat} {table : SymbolTable} {symbol : Symbol}
    {line : Option String} {d : Diagnostic}
    (hPlace : ∀ place, symbol.location = some place → place.Within (limit + 1))
    (h : table.define symbol line = .error d) : d.Told limit := by
  unfold define at h
  split at h
  · cases h
    exact ⟨Cause.told_of_nil rfl rfl, hPlace⟩
  · split at h
    · cases h
    · cases h
      exact ⟨Cause.told_of_nil rfl rfl, hPlace⟩

theorem Utf8.length_encode_le (text : List Char) : (encode text).length ≤ 4 * text.length := by
  unfold encode
  induction text with
  | nil => exact Nat.le_refl 0
  | cons c rest ih =>
    have hChar : (encodeChar c).length ≤ 4 := by
      unfold encodeChar
      simp only
      split_ifs <;> simp
    rw [List.flatMap_cons, List.length_append, List.length_cons]
    omega

theorem StringData.length_payload_le (data : StringData) :
    data.payload.length ≤ 4 * data.text.length + 1 := by
  have hEncoded := Utf8.length_encode_le data.text.toList
  rw [String.length_toList] at hEncoded
  unfold payload
  simp only
  split
  · rw [List.length_append, List.length_singleton]
    omega
  · omega

namespace Assembly

/-! ## Faults of statements -/

/-- A path can be looked for, and a text is supplied for it unless reading it fails; where that text
cannot be scanned, the diagnostic can be put into words. -/
structure Answers (surroundings : Surroundings) (path : Path) : Prop where
  search : ∃ found, surroundings.files.fileSpot? path = .ok found
  text : surroundings.readText path ≠ .error .notSupplied
  scan : ∀ text d, surroundings.readText path = .ok text →
    scanText text path.text = .error d → d.obstacle? = none

/-- The candidates for the file that the statement ahead includes, if it includes one. -/
def State.candidates (surroundings : Surroundings) (state : State) : List Path :=
  match state.tokens with
  | [] => []
  | token :: rest =>
    match Statement.read token rest with
    | .ok (⟨_, .use name nameLocation⟩, _) => surroundings.candidates nameLocation.file name
    | _ => []

/-- The paths that an assembly asks for: the one of its own file, and the candidates for every file
that a statement of the run includes. -/
inductive Asked (surroundings : Surroundings) (source : Source) : Path → Prop where
  | own : source.file ≠ Location.input → Asked surroundings source (Path.ofString source.file)
  | inclusion {first state : State} {path : Path} :
    start surroundings source = .ok first → Reaches surroundings first state →
    path ∈ state.candidates surroundings → Asked surroundings source path

/-- A diagnostic of one of the kinds that can be put into words. -/
def Fault.Worded (fault : Fault) : Prop :=
  ∃ d, fault = .diagnostic d ∧ d.cause.kind ≠ .general ∧ d.obstacle? = none

/-- A diagnostic that can be told. -/
def Fault.Told (limit : Nat) (fault : Fault) : Prop :=
  ∃ d, fault = .diagnostic d ∧ d.Told limit

theorem Fault.Told.worded {limit : Nat} {fault : Fault} (h : fault.Told limit)
    (hFits : (limit : Int) + 5 ≤ Text.lengthLimit) : fault.Worded := by
  obtain ⟨d, rfl, hTold⟩ := h
  exact ⟨d, rfl, hTold.cause.kind_ne, hTold.obstacle?_eq_none hFits⟩

section
variable {surroundings : Surroundings} {state : State} {fault : Fault} {limit : Nat}
  {location : Location}

theorem told_diagnose {cause : Cause} (hint : Option String) (hCause : cause.Told)
    (hLocation : location.Within (limit + 1)) :
    (state.diagnose cause location hint).Told limit := by
  refine ⟨_, rfl, hCause, ?_⟩
  intro place hPlace
  cases hPlace
  exact hLocation

/-- What is placed came from one statement, so its size is a short number. -/
theorem size_short {address : Int} {command : Command} {content : Content}
    (h : Content.Of address command content) (hMeasured : command.Measured)
    (hWithin : command.Within limit) (hAddress : 0 ≤ address)
    (hFits : (limit : Int) + 5 ≤ Text.lengthLimit) :
    (Item.mk location address content).size.natAbs ≤ 0x1000000000000000000 := by
  unfold Text.lengthLimit at hFits
  cases h with
  | @instruction mnemonic form operands built hBuilt =>
    have hTable : ∀ form ∈ Form.table, form.size ≤ 3 := by decide +kernel
    have hSize := hTable form hMeasured.1
    simp only [Item.size]
    omega
  | @bytes data =>
    have hData : data.length ≤ limit + 1 := hWithin
    simp only [Item.size]
    omega
  | @string data =>
    have hData : data.text.length ≤ limit := hWithin
    have hPayload := data.length_payload_le
    simp only [Item.size]
    omega
  | @fill count value =>
    have hCount : count ≤ 0xFFFF := hWithin
    have hLow : 0 ≤ count := hMeasured.1
    simp only [Item.size]
    omega
  | @origin target value targetLocation hAhead =>
    have hTarget : target ≤ 0xFFFF := hWithin.1
    simp only [Item.size]
    omega
  | use => exact Nat.zero_le _

theorem place_told {content : Content} (hLocation : location.Within limit)
    (hSize : (Item.mk location state.program.location content).size.natAbs ≤ 0x1000000000000000000)
    (h : state.place location content = .error fault) : fault.Told limit := by
  unfold State.place Program.place at h
  simp only at h
  split at h
  · cases h
  · next hFar =>
    cases h
    split at hFar
    · cases hFar
      exact told_diagnose _ (Cause.told_of_one rfl rfl hSize) (hLocation.mono (Nat.le_succ _))
    · cases hFar

theorem define_told {name : String} {value : Int} {isConstant : Bool}
    (hLocation : location.Within limit)
    (h : state.define name value location isConstant = .error fault) : fault.Told limit := by
  unfold State.define at h
  split at h
  · cases h
  · next d hDefine =>
    cases h
    refine ⟨d, rfl, SymbolTable.define_told ?_ hDefine⟩
    intro place hPlace
    cases hPlace
    exact hLocation.mono (Nat.le_succ _)

theorem build_told {operand : WrittenOperand} {cls : OperandClass} {next : Int}
    {objection : Objection} (hNext : 0 ≤ next ∧ next ≤ 0x20000)
    (hValue : ∀ value, operand.written.value? = some value → 0 ≤ value ∧ value ≤ 0xFFFF)
    (h : operand.build cls next = .error objection) : objection.cause.Told := by
  have hFill (kind : NumberKind) (hFilled : operand.fill kind next = .error objection) :
      objection.cause.Told := by
    unfold WrittenOperand.fill at hFilled
    split at hFilled
    · next value hWritten =>
      split at hFilled
      · cases hFilled
      · next hConvert =>
        cases hFilled
        exact NumberKind.convert_told (hValue value (by rw [hWritten]; rfl)) hNext hConvert
    · next value hWritten =>
      split at hFilled
      · cases hFilled
      · next hConvert =>
        cases hFilled
        exact NumberKind.convert_told (hValue value (by rw [hWritten]; rfl)) hNext hConvert
    all_goals cases hFilled
  cases cls with
  | byte => exact hFill .immediate8 h
  | word => exact hFill .immediate16 h
  | high => exact hFill .address8 h
  | memory => exact hFill .address16 h
  | relative => exact hFill .relative h
  | _ => cases h

theorem buildOperands_told {next : Int} {operands : List WrittenOperand}
    {classes : List OperandClass} {objection : Objection} {place : Location}
    (hNext : 0 ≤ next ∧ next ≤ 0x20000)
    (hPlaces : ∀ operand ∈ operands, operand.location.Within limit)
    (hValues : ∀ operand ∈ operands, ∀ value, operand.written.value? = some value →
      0 ≤ value ∧ value ≤ 0xFFFF)
    (h : buildOperands next operands classes = .error (objection, place)) :
    objection.cause.Told ∧ place.Within limit := by
  fun_induction buildOperands next operands classes with
  | case1 operand operands cls classes found hBuild =>
    cases h
    exact ⟨build_told hNext (hValues operand List.mem_cons_self) hBuild,
      hPlaces operand List.mem_cons_self⟩
  | case2 operand operands cls classes built hBuild failure hMore ih =>
    cases h
    exact ih (fun other hMem => hPlaces other (List.mem_cons_of_mem _ hMem))
      (fun other hMem => hValues other (List.mem_cons_of_mem _ hMem)) hMore
  | case3 => cases h
  | case4 => cases h

theorem find_answered {includer name : String}
    (hAnswers : ∀ path ∈ surroundings.candidates includer name, Answers surroundings path) :
    (∀ error, surroundings.find includer name ≠ .failed error) ∧
      ∀ path spot, surroundings.find includer name = .found path spot →
        Answers surroundings path := by
  have hFirst (paths : List Path) (hPaths : ∀ path ∈ paths, Answers surroundings path)
      (error : FileError) : Surroundings.firstFile surroundings.files paths ≠ .error error := by
    induction paths with
    | nil => exact nofun
    | cons path paths ih =>
      obtain ⟨found, hFound⟩ := (hPaths path List.mem_cons_self).search
      unfold Surroundings.firstFile
      simp only [hFound]
      cases found with
      | none => exact ih fun other hMem => hPaths other (List.mem_cons_of_mem _ hMem)
      | some spot => exact nofun
  refine ⟨?_, fun path spot hFind => hAnswers path (Surroundings.find_found hFind).1⟩
  intro error hFind
  unfold Surroundings.find at hFind
  simp only at hFind
  split at hFind
  · next other hError => exact hFirst _ hAnswers other hError
  · cases hFind
  · cases hFind

/-- Whatever keeps a file from being included can be told. -/
theorem includeFile_worded {name : String} {nameLocation : Location}
    (hFits : (limit : Int) + 5 ≤ Text.lengthLimit) (hLocation : location.Within limit)
    (hName : nameLocation.Within limit)
    (hAnswers : ∀ path ∈ surroundings.candidates nameLocation.file name, Answers surroundings path)
    (h : state.includeFile surroundings location name nameLocation = .error fault) :
    fault.Worded := by
  have hRefused (refusal : InclusionFault) (line : Option String) (searched : List String) :
      Fault.Worded (.diagnostic (.inclusion name refusal (some nameLocation) line searched)) := by
    apply Fault.Told.worded _ hFits
    refine ⟨_, rfl, Cause.told_of_nil ?_ rfl, ?_⟩
    · cases refusal <;> rfl
    · intro place hPlace
      cases hPlace
      exact hName.mono (Nat.le_succ _)
  obtain ⟨hSearch, hFound⟩ := find_answered hAnswers
  unfold State.includeFile at h
  simp only at h
  split at h
  · next error hFind => exact absurd hFind (hSearch error)
  · cases h
    exact hRefused _ _ _
  · next path spot hFind =>
    have hPath := hFound path spot hFind
    split at h
    · cases h
      exact hRefused _ _ _
    · split at h
      · cases h
        exact hRefused _ _ _
      · next hText => exact absurd hText hPath.text
      · next text hText =>
        split at h
        · next d hScan =>
          cases h
          refine ⟨d, rfl, ?_, hPath.scan text d hText hScan⟩
          rw [scanText_error hScan]
          intro hGeneral
          cases hGeneral
        · split at h
          · next hPlace =>
            cases h
            exact (place_told hLocation (Nat.zero_le _) hPlace).worded hFits
          · cases h

theorem bindLabel_told {name : String} (hLocation : location.Within limit)
    (h : state.bindLabel name location = .error fault) : fault.Told limit := by
  simp only [State.bindLabel] at h
  split at h
  · cases h
    exact told_diagnose _ (Cause.told_of_nil rfl rfl) (hLocation.mono (Nat.le_succ _))
  · split at h
    · next hDefine =>
      cases h
      exact define_told hLocation hDefine
    · cases h

theorem defineConstant_told {name : String} {nameLocation : Location} {value : Int}
    (hLocation : location.Within limit) (hName : nameLocation.Within limit)
    (h : state.defineConstant location name nameLocation value = .error fault) :
    fault.Told limit := by
  simp only [State.defineConstant] at h
  split at h
  · next hDefine =>
    cases h
    exact define_told hName hDefine
  · split at h
    · next hPlace =>
      cases h
      exact place_told hLocation (Nat.zero_le _) hPlace
    · cases h

section
variable {command : Command}

/-- What a command places is told if it does not fit. -/
theorem placed_told {content : Content} (hFits : (limit : Int) + 5 ≤ Text.lengthLimit)
    (hLaid : state.program.Laid) (hMeasured : command.Measured) (hWithin : command.Within limit)
    (hLocation : location.Within limit) (hOf : Content.Of state.program.location command content)
    (h : state.place location content = .error fault) : fault.Told limit :=
  place_told hLocation (size_short hOf hMeasured hWithin hLaid.location_nonneg hFits) h

theorem placeInstruction_told {mnemonic : String} {form : Form} {operands : List WrittenOperand}
    (hFits : (limit : Int) + 5 ≤ Text.lengthLimit) (hLaid : state.program.Laid)
    (hMeasured : (Command.instruction mnemonic form operands).Measured)
    (hWithin : (Command.instruction mnemonic form operands).Within limit)
    (hLocation : location.Within limit)
    (h : state.placeInstruction location mnemonic form operands = .error fault) :
    fault.Told limit := by
  simp only [State.placeInstruction] at h
  split at h
  · next hBuild =>
    cases h
    have hTable : ∀ form ∈ Form.table, form.size ≤ 3 := by decide +kernel
    have hSize := hTable form hMeasured.1
    have hStart := hLaid.location_nonneg
    have hEnd := hLaid.location_le
    unfold memorySize maxAddress at hEnd
    obtain ⟨hCause, hPlace⟩ :=
      buildOperands_told ⟨by omega, by omega⟩ hWithin hMeasured.2.2.2 hBuild
    exact told_diagnose _ hCause (hPlace.mono (Nat.le_succ _))
  · next hBuilt => exact placed_told hFits hLaid hMeasured hWithin hLocation (.instruction hBuilt) h

theorem placeOrigin_told {target value : Int} {targetLocation : Location}
    (hFits : (limit : Int) + 5 ≤ Text.lengthLimit) (hLaid : state.program.Laid)
    (hMeasured : (Command.origin target targetLocation value).Measured)
    (hWithin : (Command.origin target targetLocation value).Within limit)
    (hLocation : location.Within limit)
    (h : state.placeOrigin location target targetLocation value = .error fault) :
    fault.Told limit := by
  simp only [State.placeOrigin] at h
  split at h
  · cases h
    exact told_diagnose _ (Cause.told_of_nil rfl rfl) (hWithin.2.mono (Nat.le_succ _))
  · next hAhead =>
    exact placed_told hFits hLaid hMeasured hWithin hLocation (.origin (Int.not_lt.1 hAhead)) h

end

/-- Whatever keeps a statement from being performed can be told, unless a mark closes a file that is
not open. -/
theorem perform_worded {statement : Statement} (hFits : (limit : Int) + 5 ≤ Text.lengthLimit)
    (hLaid : state.program.Laid) (hMeasured : statement.command.Measured)
    (hWithin : statement.command.Within limit) (hLocation : statement.location.Within limit)
    (hAnswers : ∀ name nameLocation, statement.command = .use name nameLocation →
      ∀ path ∈ surroundings.candidates nameLocation.file name, Answers surroundings path)
    (h : state.perform surroundings statement = .error fault) :
    fault.Worded ∨ ∃ mark, fault = .notOpen mark := by
  obtain ⟨place, command⟩ := statement
  have hPlaced {content : Content} (hOf : Content.Of state.program.location command content)
      (hError : state.place place content = .error fault) : fault.Worded :=
    (placed_told hFits hLaid hMeasured hWithin hLocation hOf hError).worded hFits
  cases command with
  | blank | sectionMark => cases h
  | bytes => exact .inl (hPlaced .bytes h)
  | string => exact .inl (hPlaced .string h)
  | fill => exact .inl (hPlaced .fill h)
  | label => exact .inl ((bindLabel_told hLocation h).worded hFits)
  | constant => exact .inl ((defineConstant_told hLocation hWithin h).worded hFits)
  | instruction =>
    exact .inl ((placeInstruction_told hFits hLaid hMeasured hWithin hLocation h).worded hFits)
  | origin =>
    exact .inl ((placeOrigin_told hFits hLaid hMeasured hWithin hLocation h).worded hFits)
  | use name nameLocation =>
    exact .inl (includeFile_worded hFits hLocation hWithin (hAnswers name nameLocation rfl) h)
  | endInclude file =>
    simp only [State.perform, State.closeFile] at h
    split at h
    · cases h
    · cases h
      exact .inr ⟨file, rfl⟩

/-! ## Faults of runs -/

/-- The statement ahead wants a text with a surrogate as UTF-8. -/
def State.WantsSurrogate (state : State) (data : RefusedString) : Prop :=
  ∃ token rest, state.tokens = token :: rest ∧ token.lexeme = .directive ".utf8" ∧
    Statement.Unencodable rest data

/-- Whatever stops a run at a statement can be told, unless it wants a surrogate as UTF-8 or a mark
closes a file that is not open. -/
theorem step_worded {token : Token} {rest : List Token}
    (hFits : (limit : Int) + 5 ≤ Text.lengthLimit) (hLive : state.Live)
    (hLaid : state.program.Laid) (hWithin : state.Within limit)
    (hAnswers : ∀ path ∈ state.candidates surroundings, Answers surroundings path)
    (hTokens : state.tokens = token :: rest)
    (h : state.step surroundings token rest = .error fault) :
    fault.Worded ∨ (∃ data, fault = .unencodable data ∧ state.WantsSurrogate data) ∨
      ∃ mark, fault = .notOpen mark := by
  have hAhead := hWithin.tokens
  have hSpans := hWithin.spans
  unfold State.Live at hLive
  rw [hTokens] at hLive hAhead hSpans
  unfold State.step at h
  split at h
  · next reading hRead =>
    cases h
    rcases Statement.read_told hLive hAhead hRead with hTold | ⟨hDirective, data, rfl, hWanted⟩
    · cases reading with
      | rejected cause location hint =>
        exact .inl ((told_diagnose hint hTold.1 hTold.2).worded hFits)
      | unencodable => exact hTold.elim
      | unknownDirective => exact hTold.elim
      | negativeByte => exact hTold.elim
    · exact .inr (.inl ⟨data, rfl, token, rest, hTokens, hDirective, hWanted⟩)
  · next statement after hRead =>
    obtain ⟨hLocation, hReads⟩ := Statement.read_ok_iff.1 hRead
    have hPlace : statement.location.Within limit := by
      rw [hLocation]
      exact (hAhead token List.mem_cons_self).location
    have hBehind : ({ state with tokens := after } : State).program.Laid := hLaid
    refine (perform_worded hFits hBehind (hReads.measured hLive)
      (hReads.within hSpans hLive hAhead) hPlace ?_ h).imp_right .inr
    intro name nameLocation hUse path hMem
    obtain ⟨place, command⟩ := statement
    cases hUse
    apply hAnswers path
    simpa only [State.candidates, hTokens, hRead] using hMem

/-- A run stops at a statement that cannot be performed, or because its budget is spent. -/
theorem run_fault {budget : Nat} {first last : State}
    (h : run surroundings budget first = ⟨last, some fault⟩) :
    fault = .exhausted ∨
      ∃ token rest, last.tokens = token :: rest ∧
        last.step surroundings token rest = .error fault := by
  induction budget generalizing first with
  | zero =>
    cases hTokens : first.tokens with
    | nil =>
      rw [run_nil 0 hTokens] at h
      cases h
    | cons token rest =>
      rw [run_zero hTokens] at h
      cases h
      exact .inl rfl
  | succ budget ih =>
    cases hTokens : first.tokens with
    | nil =>
      rw [run_nil _ hTokens] at h
      cases h
    | cons token rest =>
      rw [run_succ budget hTokens] at h
      split at h
      · next hStep =>
        cases h
        exact .inr ⟨token, rest, hTokens, hStep⟩
      · exact ih h

/-- A run comes to every statement on its way, and stops at one that cannot be performed. -/
theorem run_of_reaches {first : State} {token : Token} {rest : List Token}
    (h : Reaches surroundings first state) (hTokens : state.tokens = token :: rest)
    (hStep : state.step surroundings token rest = .error fault) {budget : Nat}
    (hBudget : cost surroundings first.openFiles first.tokens ≤ budget) :
    run surroundings budget first = ⟨state, some fault⟩ := by
  -- from the front, since each step takes one from the budget and more from the cost
  induction h using Relation.ReflTransGen.head_induction_on generalizing budget with
  | refl =>
    have hPos := cost_pos surroundings state.openFiles (List.cons_ne_nil token rest)
    rw [hTokens] at hBudget
    obtain ⟨less, rfl⟩ := Nat.exists_eq_add_of_lt (Nat.lt_of_lt_of_le hPos hBudget)
    rw [Nat.zero_add, run_succ less hTokens, hStep]
  | @head earlier later hFirst _ ih =>
    have hLess := hFirst.cost_lt
    obtain ⟨next, more, hEarlier, hLater⟩ := hFirst
    obtain ⟨less, rfl⟩ : ∃ less, budget = less + 1 := ⟨budget - 1, by omega⟩
    rw [run_succ less hEarlier, hLater]
    exact ih (by omega)

theorem assemble_of_reaches {source : Source} {first : State} {token : Token} {rest : List Token}
    (hStart : start surroundings source = .ok first) (h : Reaches surroundings first state)
    (hTokens : state.tokens = token :: rest)
    (hStep : state.step surroundings token rest = .error fault) :
    (assemble surroundings source).result = .error fault := by
  have hRun := run_of_reaches h hTokens hStep (cost_le_budgetFor surroundings first)
  simp only [assemble, hStart, hRun]

/-! ## Surrogates -/

/-- A token that is no string with a surrogate. -/
def Unbroken (token : Token) : Prop := ∀ text, token.lexeme ≠ .brokenString text

theorem scanText_unbroken {text : List CodePoint} {file : String} {tokens : List Token}
    (hText : ∀ point ∈ text, point.isSurrogate = false) (h : scanText text file = .ok tokens) :
    ∀ token ∈ tokens, Unbroken token := by
  rw [CodePoint.eq_chars hText, scanText_chars] at h
  intro token hMem broken hBroken
  obtain ⟨piece, hPiece⟩ :=
    (Scan.presentable_of_scan h).spelled token.lexeme (List.mem_map_of_mem hMem)
  rw [hBroken] at hPiece
  exact Lexeme.not_spelledBy_broken broken hPiece

theorem FileEffect.unbroken {openFiles others : List Spot} {command : Command}
    {brought : List Token} (h : FileEffect surroundings openFiles command brought others)
    (hTexts : ∀ path text, surroundings.readText path = .ok text →
      ∀ point ∈ text, point.isSurrogate = false) : ∀ token ∈ brought, Unbroken token := by
  cases h with
  | none | endInclude => exact List.forall_mem_nil _
  | use _ _ hText hScan =>
    refine List.forall_mem_append.2 ⟨scanText_unbroken (hTexts _ _ hText) hScan, ?_⟩
    refine List.forall_mem_singleton.2 ?_
    intro text hBroken
    cases hBroken

/-- Where no text holds a surrogate, no string of a run does. -/
theorem Reaches.unbroken {first : State} (h : Reaches surroundings first state)
    (hTexts : ∀ path text, surroundings.readText path = .ok text →
      ∀ point ∈ text, point.isSurrogate = false)
    (hFirst : ∀ token ∈ first.tokens, Unbroken token) : ∀ token ∈ state.tokens, Unbroken token := by
  induction h with
  | refl => exact hFirst
  | tail _ hStep ih =>
    obtain ⟨command, rest, brought, hReads, hFiles, hTokens⟩ := hStep.fileEffect
    rw [hTokens]
    refine List.forall_mem_append.2 ⟨hFiles.unbroken hTexts, ?_⟩
    intro token hMem
    exact ih token (hReads.rest_subset hMem)

theorem State.WantsSurrogate.broken {data : RefusedString} (h : state.WantsSurrogate data) :
    ∃ token ∈ state.tokens, ¬Unbroken token := by
  obtain ⟨head, _, hTokens, -, hWanted⟩ := h
  cases hWanted with
  | @intro token _ _ text _ hString _ _ _ =>
    refine ⟨token, ?_, fun hUnbroken => hUnbroken text hString⟩
    rw [hTokens]
    exact List.mem_cons_of_mem _ List.mem_cons_self

/-! ## Faults of resolution -/

theorem resolveOperands_told {symbols : SymbolTable} {lineAt : Location → Option String}
    {next : Int} {operands : List Operand} {d : Diagnostic} (hSymbols : symbols.Bounded)
    (hNext : 0 ≤ next ∧ next ≤ 0x20000)
    (hPlaces : ∀ value target location, .symbol value target (some location) ∈ operands →
      location.Within limit)
    (h : resolveOperands symbols lineAt next operands = .error d) : d.Told limit := by
  fun_induction resolveOperands symbols lineAt next operands with
  | case1 => cases h
  | case2 operand rest found hOperand =>
    cases h
    unfold resolveOperand at hOperand
    split at hOperand
    · next name kind place =>
      have hPlace : ∀ location, place = some location → location.Within (limit + 1) := by
        intro location hSome
        subst hSome
        exact (hPlaces _ _ location List.mem_cons_self).mono (Nat.le_succ _)
      split at hOperand
      · cases hOperand
        exact ⟨Cause.told_of_nil rfl rfl, hPlace⟩
      · next symbol hLookup =>
        split at hOperand
        · cases hOperand
        · next hConvert =>
          cases hOperand
          exact ⟨NumberKind.convert_told (hSymbols _ _ hLookup) hNext hConvert, hPlace⟩
    · cases hOperand
  | case3 operand rest resolved hOperand found hMore ih =>
    cases h
    apply ih _ hMore
    intro value target location hMem
    exact hPlaces value target location (List.mem_cons_of_mem _ hMem)
  | case4 => cases h

theorem resolveItems_told {symbols : SymbolTable} {lineAt : Location → Option String}
    {done items : List Item} {d : Diagnostic} (hSymbols : symbols.Bounded)
    (hEnds : ∀ item ∈ items, 0 ≤ item.address + item.size ∧ item.address + item.size ≤ 0x20000)
    (hItems : ∀ item ∈ items, item.Within limit)
    (h : resolveItems symbols lineAt done items = .error d) : d.Told limit := by
  fun_induction resolveItems symbols lineAt done items with
  | case1 => cases h
  | case2 done item rest found hItem =>
    cases h
    have hEnd := hEnds item List.mem_cons_self
    unfold resolveItem at hItem
    split at hItem
    · next mnemonic operands size hContent =>
      split at hItem
      · cases hItem
      · next hOperands =>
        cases hItem
        rw [Item.size, hContent] at hEnd
        exact resolveOperands_told hSymbols hEnd
          (hItems item List.mem_cons_self mnemonic operands size hContent) hOperands
    · cases hItem
  | case3 done item rest resolved hItem ih =>
    exact ih (fun other hMem => hEnds other (List.mem_cons_of_mem _ hMem))
      (fun other hMem => hItems other (List.mem_cons_of_mem _ hMem)) h

theorem resolve_told (hLaid : state.program.Laid)
    (hItems : ∀ item ∈ state.program.items, item.Within limit)
    (h : state.resolve = .error fault) : fault.Told limit := by
  have hEnds : ∀ item ∈ state.program.items,
      0 ≤ item.address + item.size ∧ item.address + item.size ≤ 0x20000 := by
    intro item hMem
    have hSize := hLaid.size_nonneg item hMem
    obtain ⟨hLow, hHigh⟩ := hLaid.extent hMem
    unfold memorySize maxAddress at hHigh
    omega
  unfold State.resolve at h
  simp only at h
  split at h
  · next d hResolve =>
    cases h
    exact ⟨d, rfl, resolveItems_told hLaid.bounded hEnds hItems hResolve⟩
  · cases h

/-! ## Faults of starts -/

theorem predefine_told {table : SymbolTable} {entries : List (String × Int)} {d : Diagnostic}
    (h : predefine table entries = .error d) : d.Told limit := by
  fun_induction predefine table entries with
  | case1 => cases h
  | case2 table name value rest after hDefine ih => exact ih h
  | case3 table name value rest found hDefine =>
    cases h
    apply SymbolTable.define_told _ hDefine
    intro place hPlace
    cases hPlace

theorem start_told {source : Source}
    (hAnswers : ∀ path, Asked surroundings source path → Answers surroundings path)
    (h : start surroundings source = .error fault) : fault.Told limit := by
  unfold start at h
  split at h
  · next error hOpen =>
    cases h
    unfold initiallyOpen at hOpen
    split at hOpen
    · cases hOpen
    · next hFile =>
      obtain ⟨found, hFound⟩ := (hAnswers _ (.own hFile)).search
      simp only [hFound] at hOpen
      cases found <;> cases hOpen
  · split at h
    · next d hDefine =>
      cases h
      exact ⟨d, rfl, predefine_told hDefine⟩
    · cases h

end

/-! ## Deciding whether the surroundings answer -/

/-- Whether a path is answered for. -/
def answers? (surroundings : Surroundings) (path : Path) : Bool :=
  (surroundings.files.fileSpot? path).toOption.isSome &&
    match surroundings.readText path with
    | .error .notSupplied => false
    | .error (.unreadable _) => true
    | .ok text =>
      match scanText text path.text with
      | .ok _ => true
      | .error d => d.obstacle?.isNone

theorem answers_of_answers? {surroundings : Surroundings} {path : Path}
    (h : answers? surroundings path = true) : Answers surroundings path := by
  obtain ⟨hSearch, hText⟩ := Bool.and_eq_true_iff.1 h
  obtain ⟨found, hFound⟩ := Option.isSome_iff_exists.1 hSearch
  refine ⟨⟨found, eq_ok_of_toOption hFound⟩, ?_, ?_⟩
  · intro hNone
    simp [hNone] at hText
  · intro text d hRead hScan
    simpa [hRead, hScan] using hText

/-- Whether all paths that an assembly asks for are answered for: every state of its run is one in
which the loop stops under a smaller budget. -/
def allAnswered? (surroundings : Surroundings) (source : Source) : Bool :=
  (source.file = Location.input || answers? surroundings (Path.ofString source.file)) &&
    match start surroundings source with
    | .error _ => true
    | .ok first => (List.range (budgetFor surroundings first + 1)).all fun count =>
        ((run surroundings count first).state.candidates surroundings).all (answers? surroundings)

theorem exists_run_of_reaches {surroundings : Surroundings} {first state : State}
    (h : Reaches surroundings first state) :
    ∃ count ≤ budgetFor surroundings first, (run surroundings count first).state = state := by
  have hSettles := (run_settles (cost_le_budgetFor surroundings first)).2
  have hSome : ∃ count, (run surroundings count first).state = state := by
    rcases Relation.ReflTransGen.cases_tail h with rfl | ⟨before, hBefore, hStep⟩
    · refine ⟨0, ?_⟩
      cases hTokens : state.tokens with
      | nil => rw [run_nil 0 hTokens]
      | cons token rest => rw [run_zero hTokens]
    · obtain ⟨count, -, hAfter⟩ := Reaches.run hBefore hStep
      exact ⟨count + 1, hAfter⟩
  obtain ⟨count, hCount⟩ := hSome
  by_cases hFits : count ≤ budgetFor surroundings first
  · exact ⟨count, hFits, hCount⟩
  · refine ⟨_, Nat.le_refl _, ?_⟩
    rw [← hSettles (count - budgetFor surroundings first),
      Nat.add_sub_of_le (Nat.le_of_not_le hFits)]
    exact hCount

theorem answers_of_asked {surroundings : Surroundings} {source : Source}
    (h : allAnswered? surroundings source = true) {path : Path}
    (hAsked : Asked surroundings source path) : Answers surroundings path := by
  obtain ⟨hOwn, hRun⟩ := Bool.and_eq_true_iff.1 h
  apply answers_of_answers?
  cases hAsked with
  | own hFile => simpa [hFile] using hOwn
  | inclusion hStart hReaches hMem =>
    obtain ⟨count, hCount, rfl⟩ := exists_run_of_reaches hReaches
    rw [hStart] at hRun
    have hState := List.all_eq_true.1 hRun count (List.mem_range.2 (Nat.lt_succ_of_le hCount))
    exact List.all_eq_true.1 hState path hMem

/-! ## Faults of assemblies -/

section
variable {surroundings : Surroundings} {text : List CodePoint} {file : String} {source : Source}

theorem assemble_cases (hScan : scanText text file = .ok source.tokens)
    (hText : (text.length : Int) + 5 ≤ Text.lengthLimit)
    (hTexts : (surroundings.longestText : Int) + 5 ≤ Text.lengthLimit)
    (hAnswers : ∀ path, Asked surroundings source path → Answers surroundings path) :
    (∃ program, (assemble surroundings source).result = .ok program) ∨
      (∃ fault, (assemble surroundings source).result = .error fault ∧ fault.Worded) ∨
      ∃ data first state, (assemble surroundings source).result = .error (.unencodable data) ∧
        start surroundings source = .ok first ∧ Reaches surroundings first state ∧
        state.WantsSurrogate data := by
  have hFits : (max text.length surroundings.longestText : Nat) + (5 : Int) ≤ Text.lengthLimit := by
    omega
  have hLength := Nat.le_max_left text.length surroundings.longestText
  have hLengths : ∀ path other, surroundings.readText path = .ok other →
      other.length ≤ max text.length surroundings.longestText := by
    intro path other hRead
    exact Nat.le_trans (Surroundings.length_readText hRead) (Nat.le_max_right _ _)
  generalize max text.length surroundings.longestText = limit at hFits hLength hLengths
  unfold assemble
  split
  · next fault hStart =>
    exact .inr (.inl ⟨fault, rfl, (start_told hAnswers hStart).worded hFits⟩)
  · next first hStart =>
    have hScanned := scanText_scanned hScan
    have hLive := start_live hScanned hStart
    have hReaches := run_reaches surroundings (budgetFor surroundings first) first
    have hSettles := (run_settles (cost_le_budgetFor surroundings first)).1
    cases hRun : run surroundings (budgetFor surroundings first) first with
    | mk last stopped =>
      rw [hRun] at hReaches hSettles
      have hLast := Reaches.within hReaches hLive hLengths (start_within hScan hLength hStart)
      have hLaid := Reaches.laid hReaches hLive (start_laid hStart)
      cases stopped with
      | some fault =>
        obtain rfl | ⟨token, rest, hTokens, hStep⟩ := run_fault hRun
        · exact absurd rfl hSettles
        · have hUses : ∀ path ∈ last.candidates surroundings, Answers surroundings path := by
            intro path hMem
            exact hAnswers path (.inclusion hStart hReaches hMem)
          rcases step_worded hFits (Reaches.live hReaches hLive) hLaid hLast hUses hTokens hStep
            with hWorded | ⟨data, rfl, hWanted⟩ | ⟨mark, rfl⟩
          · exact .inr (.inl ⟨fault, rfl, hWorded⟩)
          · exact .inr (.inr ⟨data, first, last, rfl, hStart, hReaches, hWanted⟩)
          · have hNested := Reaches.nested hReaches (start_nested hScanned hStart)
            exact absurd hStep (hNested.step_ne_notOpen hTokens mark)
      | none =>
        simp only
        split
        · next fault hResolve =>
          exact .inr (.inl ⟨fault, rfl, (resolve_told hLaid hLast.items hResolve).worded hFits⟩)
        · next after _ => exact .inl ⟨after.program, rfl⟩

/-- A statement that wants a surrogate as UTF-8 is the end of the assembly. -/
theorem assemble_of_wantsSurrogate {first state : State} {data : RefusedString}
    (hStart : start surroundings source = .ok first) (h : Reaches surroundings first state)
    (hWanted : state.WantsSurrogate data) :
    (assemble surroundings source).result = .error (.unencodable data) := by
  obtain ⟨token, rest, hTokens, hDirective, hUnencodable⟩ := hWanted
  refine assemble_of_reaches hStart h hTokens ?_
  rw [State.step, Statement.read_of_unencodable hDirective hUnencodable]
  rfl

/-- Assembling the tokens of a text gives a program, or a diagnostic of one of the kinds that can be
put into words, or it stops at a text that UTF-8 refuses, if the surroundings answer what the
assembly asks them. The last happens exactly if a statement of the run wants a text with a surrogate
as UTF-8; it does not if no text holds a surrogate. -/
theorem assemble_worded_or_unencodable (hScan : scanText text file = .ok source.tokens)
    (hText : (text.length : Int) + 5 ≤ Text.lengthLimit)
    (hTexts : (surroundings.longestText : Int) + 5 ≤ Text.lengthLimit)
    (hAnswers : ∀ path, Asked surroundings source path → Answers surroundings path) :
    ((∃ program, (assemble surroundings source).result = .ok program) ∨
      (∃ fault, (assemble surroundings source).result = .error fault ∧ fault.Worded) ∨
      ∃ data, (assemble surroundings source).result = .error (.unencodable data)) ∧
    (∀ data, (assemble surroundings source).result = .error (.unencodable data) ↔
      ∃ first state, start surroundings source = .ok first ∧ Reaches surroundings first state ∧
        state.WantsSurrogate data) ∧
    ((∀ point ∈ text, point.isSurrogate = false) →
      (∀ path other, surroundings.readText path = .ok other →
        ∀ point ∈ other, point.isSurrogate = false) →
      ∀ data, (assemble surroundings source).result ≠ .error (.unencodable data)) := by
  have hCases := assemble_cases hScan hText hTexts hAnswers
  have hOnly : ∀ data, (assemble surroundings source).result = .error (.unencodable data) →
      ∃ first state, start surroundings source = .ok first ∧ Reaches surroundings first state ∧
        state.WantsSurrogate data := by
    intro data hResult
    rw [hResult] at hCases
    obtain ⟨_, hOk⟩ | ⟨_, hFault, _, hDiagnostic, -⟩ | ⟨other, first, state, hSame, hRun⟩ := hCases
    · cases hOk
    · cases hFault
      cases hDiagnostic
    · cases hSame
      exact ⟨first, state, hRun⟩
  refine ⟨?_, ?_, ?_⟩
  · obtain hOk | hWorded | ⟨data, _, _, hResult, _⟩ := hCases
    · exact .inl hOk
    · exact .inr (.inl hWorded)
    · exact .inr (.inr ⟨data, hResult⟩)
  · intro data
    refine ⟨hOnly data, ?_⟩
    rintro ⟨first, state, hStart, hReaches, hWanted⟩
    exact assemble_of_wantsSurrogate hStart hReaches hWanted
  · intro hPlain hPlainTexts data hResult
    obtain ⟨first, state, hStart, hReaches, hWanted⟩ := hOnly data hResult
    have hFirst : ∀ token ∈ first.tokens, Unbroken token := by
      rw [(start_ok hStart).1]
      exact scanText_unbroken hPlain hScan
    obtain ⟨token, hMem, hBroken⟩ := hWanted.broken
    exact hBroken (Reaches.unbroken hReaches hPlainTexts hFirst token hMem)

end

/-- A jump that is too far, in an included file. -/
theorem assemble_worded_or_unencodable_far_jump :
    ∃ tokens, scanText (".use \"part\"\n".toList.map .char) "<input>" = .ok tokens ∧
      (∀ path, Asked (workingDirectory [("part", "jr far\n.fill 200, 0\nfar:")])
          ⟨tokens, "<input>", none, .empty⟩ path →
        Answers (workingDirectory [("part", "jr far\n.fill 200, 0\nfar:")]) path) ∧
      (match (assemble (workingDirectory [("part", "jr far\n.fill 200, 0\nfar:")])
          ⟨tokens, "<input>", none, .empty⟩).result with
        | .error (.diagnostic d) => some (d.cause.decimals, d.location)
        | _ => none) = some ([200], some ⟨"part", 1, 4⟩) ∧
      ((∃ program, (assemble (workingDirectory [("part", "jr far\n.fill 200, 0\nfar:")])
          ⟨tokens, "<input>", none, .empty⟩).result = .ok program) ∨
        (∃ fault, (assemble (workingDirectory [("part", "jr far\n.fill 200, 0\nfar:")])
          ⟨tokens, "<input>", none, .empty⟩).result = .error fault ∧ fault.Worded) ∨
        ∃ data, (assemble (workingDirectory [("part", "jr far\n.fill 200, 0\nfar:")])
          ⟨tokens, "<input>", none, .empty⟩).result = .error (.unencodable data)) := by
  have hRun : ((scanText (".use \"part\"\n".toList.map .char) "<input>").toOption.map fun tokens =>
      (allAnswered? (workingDirectory [("part", "jr far\n.fill 200, 0\nfar:")])
          ⟨tokens, "<input>", none, .empty⟩,
        match (assemble (workingDirectory [("part", "jr far\n.fill 200, 0\nfar:")])
          ⟨tokens, "<input>", none, .empty⟩).result with
        | .error (.diagnostic d) => some (d.cause.decimals, d.location)
        | _ => none)) = some (true, some ([200], some ⟨"part", 1, 4⟩)) := by
    decide +kernel
  obtain ⟨tokens, hScan, hRun⟩ := Option.map_eq_some_iff.1 hRun
  obtain ⟨hAnswered, hFault⟩ := Prod.mk.inj hRun
  have hTokens := eq_ok_of_toOption hScan
  exact ⟨tokens, hTokens, fun _ => answers_of_asked hAnswered, hFault,
    (assemble_worded_or_unencodable hTokens (by decide +kernel) (by decide +kernel)
      fun _ => answers_of_asked hAnswered).1⟩

/-- A surrogate that is wanted as UTF-8 stops an assembly that asks its surroundings for nothing. -/
theorem surrogate_unencodable :
    let text : List CodePoint :=
      ".utf8 \"".toList.map .char ++ [.surrogate 0] ++ "\"".toList.map .char
    ∃ tokens data, scanText text "<input>" = .ok tokens ∧
      allAnswered? (workingDirectory []) ⟨tokens, "<input>", none, .empty⟩ = true ∧
      (assemble (workingDirectory []) ⟨tokens, "<input>", none, .empty⟩).result =
        .error (.unencodable data) ∧
      data.message = "'utf-8' codec can't encode character '\\ud800' in position 0: " ++
        "surrogates not allowed" := by
  intro text
  have hRun : ((scanText text "<input>").toOption.map fun tokens =>
      (allAnswered? (workingDirectory []) ⟨tokens, "<input>", none, .empty⟩,
        (assemble (workingDirectory []) ⟨tokens, "<input>", none, .empty⟩).result.map
          fun _ => ())) =
      some (true, .error (.unencodable ⟨.broken ⟨[.surrogate 0], rfl⟩, .utf8, rfl⟩)) := by
    decide +kernel
  obtain ⟨tokens, hScan, hRun⟩ := Option.map_eq_some_iff.1 hRun
  obtain ⟨hAnswered, hFault⟩ := Prod.mk.inj hRun
  refine ⟨tokens, ⟨.broken ⟨[.surrogate 0], rfl⟩, .utf8, rfl⟩, eq_ok_of_toOption hScan, hAnswered,
    ?_, by decide +kernel⟩
  cases hResult : (assemble (workingDirectory []) ⟨tokens, "<input>", none, .empty⟩).result with
  | ok program =>
    rw [hResult] at hFault
    cases hFault
  | error fault =>
    rw [hResult] at hFault
    cases hFault
    rfl

end Assembly
end Lr35902
