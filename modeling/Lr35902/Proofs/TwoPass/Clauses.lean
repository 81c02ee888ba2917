import Lr35902.Proofs.Encoding
import Lr35902.Proofs.TwoPass.Parsing

/-!
Commands and their clauses, one statement at a time. A symbol table that agrees with the definitions
of the first pass gives operands the same parts (`parts?_iff`). The effect of a statement is what
its clause says of its size, its place and its name (`effect_clause`), and what it placed delivers
the bytes of the clause (`effect_delivers`). Conversely, a clause that may stand where it does and
that has bytes is one whose statement can have its effect (`effect_of_clause`).
-/
namespace Lr35902.TwoPass

open Assembly (Resolving)

/-! ## Tables -/

/-- What is defined by a symbol, wherever that happened. -/
def definitionOf (symbol : Symbol) : Definition := ⟨symbol.name, symbol.value, symbol.isConstant⟩

/-- The definitions in a program, in their order. -/
def definitionsOf (program : Program) : List Definition :=
  program.symbols.symbols.map definitionOf

theorem definitionsOf_bind (program : Program) (symbol : Symbol) :
    definitionsOf (program.bind symbol) = definitionsOf program ++ [definitionOf symbol] := by
  rw [definitionsOf, Program.symbols_bind, List.map_append]
  rfl

theorem lookup?_eq_none_iff {program : Program} {name : String} :
    program.symbols.lookup? name = none ↔
      name ∉ (definitionsOf program).map Definition.name := by
  rw [definitionsOf, List.map_map, SymbolTable.symbols, SymbolTable.lookup?, List.find?_eq_none]
  simp only [List.mem_map, List.mem_reverse, beq_iff_eq, not_exists, not_and]
  rfl

/-- A symbol table gives names the values of a list of definitions. -/
def Agrees (symbols : SymbolTable) (table : List Definition) : Prop :=
  ∀ name, (symbols.lookup? name).map Symbol.value = valueOf? table name

theorem find?_reverse {defined : List Symbol} (h : (defined.map Symbol.name).Nodup)
    (name : String) :
    defined.reverse.find? (fun symbol => symbol.name == name) =
      defined.find? fun symbol => symbol.name == name := by
  cases hFound : defined.find? fun symbol => symbol.name == name with
  | none =>
    rw [List.find?_eq_none] at hFound ⊢
    intro symbol hMem
    exact hFound symbol (List.mem_reverse.1 hMem)
  | some symbol =>
    -- names are distinct, so the two searches stop at the same symbol
    have hMem := List.mem_of_find?_eq_some hFound
    have hName := List.find?_some hFound
    refine find?_eq_some_of_unique (List.mem_reverse.2 hMem) hName ?_
    intro other hOther hOtherName
    exact List.inj_on_of_nodup_map h (List.mem_reverse.1 hOther) hMem
      ((beq_iff_eq.1 hOtherName).trans (beq_iff_eq.1 hName).symm)

theorem agrees_definitions {symbols : SymbolTable}
    (h : ((symbols.symbols.map definitionOf).map Definition.name).Nodup) :
    Agrees symbols (symbols.symbols.map definitionOf) := by
  intro name
  have hNames : (symbols.defined.map Symbol.name).Nodup := by
    rw [List.map_map, SymbolTable.symbols, List.map_reverse, List.nodup_reverse] at h
    exact h
  rw [valueOf?, List.find?_map, Option.map_map, SymbolTable.symbols]
  exact congrArg (Option.map Symbol.value) (find?_reverse hNames name).symm

/-- A symbol table with some definitions. -/
def tableOf (table : List Definition) : SymbolTable :=
  ⟨(table.map fun entry => ⟨entry.name, entry.value, none, entry.isConstant⟩).reverse⟩

theorem agrees_tableOf {table : List Definition} (h : (table.map Definition.name).Nodup) :
    Agrees (tableOf table) table := by
  have hTable : (tableOf table).symbols.map definitionOf = table := by
    rw [SymbolTable.symbols, tableOf, List.reverse_reverse, List.map_map]
    exact List.map_id table
  have hAgrees : Agrees (tableOf table) ((tableOf table).symbols.map definitionOf) :=
    agrees_definitions (by rw [hTable]; exact h)
  rw [hTable] at hAgrees
  exact hAgrees

theorem bounded_tableOf {table : List Definition}
    (h : ∀ entry ∈ table, 0 ≤ entry.value ∧ entry.value ≤ 0xFFFF) : (tableOf table).Bounded := by
  intro name symbol hLookup
  have hMem := List.mem_of_find?_eq_some hLookup
  rw [tableOf, List.mem_reverse] at hMem
  obtain ⟨entry, hEntry, rfl⟩ := List.mem_map.1 hMem
  exact h entry hEntry

theorem resolveOperand_congr {symbols others : SymbolTable}
    {lineAt otherLine : Location → Option String} {next : Int} {operand resolved : Operand}
    (h : ∀ name, (symbols.lookup? name).map Symbol.value = (others.lookup? name).map Symbol.value)
    (hResolve : Assembly.resolveOperand symbols lineAt next operand = .ok resolved) :
    Assembly.resolveOperand others otherLine next operand = .ok resolved := by
  cases operand with
  | name | number => exact hResolve
  | symbol value target place =>
    cases target with
    | none => cases value <;> exact hResolve
    | some target =>
      cases value with
      | number => exact hResolve
      | word name =>
        cases target with
        | name => exact hResolve
        | number kind =>
          -- the only case that looks a name up
          rw [resolveOperand_symbol_iff] at hResolve ⊢
          rw [← h]
          exact hResolve

theorem resolveItem_congr {symbols others : SymbolTable}
    {lineAt otherLine : Location → Option String} {item resolved : Item}
    (h : ∀ name, (symbols.lookup? name).map Symbol.value = (others.lookup? name).map Symbol.value)
    (hResolve : Assembly.resolveItem symbols lineAt item = .ok resolved) :
    Assembly.resolveItem others otherLine item = .ok resolved := by
  obtain ⟨location, address, content⟩ := item
  cases content with
  | instruction mnemonic operands size =>
    obtain ⟨found, hOperands, rfl⟩ := resolveItem_instruction_iff.1 hResolve
    refine resolveItem_instruction_iff.2 ⟨found, ?_, rfl⟩
    rw [resolveOperands_ok_iff] at hOperands ⊢
    exact hOperands.imp fun _ _ hOperand => resolveOperand_congr h hOperand
  | _ => exact hResolve

/-- Tables with the same definitions resolve items alike. -/
theorem resolving_congr {symbols others : SymbolTable} {table : List Definition}
    {lineAt otherLine : Location → Option String} {items resolved : List Item}
    (h : Resolving symbols lineAt items resolved) (hAgrees : Agrees symbols table)
    (hOthers : Agrees others table) : Resolving others otherLine items resolved :=
  h.imp fun _ _ hResolve =>
    resolveItem_congr (fun name => (hAgrees name).trans (hOthers name).symm) hResolve

/-! ## Clauses and commands -/

section
variable {symbols : SymbolTable} {table : List Definition} {next : Int}

theorem slot?_iff {cls : OperandClass} {kind : NumberKind} {value : Int} {bytes : Bytes}
    (hRole : cls.role = .slot kind) (hRange : 0 ≤ value ∧ value ≤ 0xFFFF) :
    slot? cls next value = some bytes ↔ kind.Holds next value bytes := by
  rw [← NumberKind.holds_iff hRange]
  -- at most one number is kept for a value, and its payload is what the slot gets
  have hKept {number : Int} {result : Bytes} (hStores : ∀ n, kind.Stores next value n ↔ n = number)
      (hPayload : MachineCode.payload kind (.number number) = .ok result) :
      some result = some bytes ↔ ∃ n, kind.Stores next value n ∧
        MachineCode.payload kind (.number n) = .ok bytes := by
    simp only [hStores, exists_eq_left, hPayload, Option.some.injEq, Except.ok.injEq]
  have hRefused (hStores : ∀ n, ¬kind.Stores next value n) :
      none = some bytes ↔ ∃ n, kind.Stores next value n ∧
        MachineCode.payload kind (.number n) = .ok bytes :=
    iff_of_false nofun fun ⟨n, hStored, _⟩ => hStores n hStored
  cases cls with
  | byte =>
    cases hRole
    simp only [slot?]
    split
    · next hNarrow =>
      exact hKept (fun n => and_iff_right hNarrow) (if_pos ⟨hRange.1, hNarrow⟩)
    · next hWide => exact hRefused fun n hStored => hWide hStored.1
  | word | memory =>
    cases hRole
    have hHigh : value.toNat / 256 % 256 = value.toNat / 256 := Nat.mod_eq_of_lt (by omega)
    refine hKept (fun n => Iff.rfl) ?_
    rw [← hHigh]
    exact if_pos hRange
  | high =>
    cases hRole
    simp only [slot?]
    split
    · next hLow =>
      refine hKept (fun n => ?_) (if_pos ⟨hRange.1, hLow⟩)
      rw [NumberKind.Stores, highOffset?, if_pos hLow, Option.some.injEq, eq_comm]
    · next hBeyond =>
      split
      · next hHigh =>
        refine hKept (fun n => ?_) (if_pos ⟨by omega, by omega⟩)
        rw [NumberKind.Stores, highOffset?, if_neg hBeyond,
          if_pos (show highPage ≤ value from hHigh), Option.some.injEq, eq_comm, highPage]
      · next hBelow =>
        refine hRefused fun n hStored => ?_
        rw [NumberKind.Stores, highOffset?, if_neg hBeyond,
          if_neg (show ¬highPage ≤ value from hBelow)] at hStored
        cases hStored
  | relative =>
    cases hRole
    simp only [slot?]
    split
    · next hNear =>
      refine hKept (fun n => ⟨And.right, ?_⟩) (if_pos hNear)
      rintro rfl
      exact ⟨hNear, rfl⟩
    · next hFar =>
      refine hRefused ?_
      rintro n ⟨hNear, rfl⟩
      exact hFar hNear
  | register | pair | condition | highC | through | bit | vector => cases hRole

theorem part?_iff {cls : OperandClass} {written : Written} {bytes : Bytes}
    (hAgrees : Agrees symbols table) (hBounded : written.Bounded symbols) :
    part? table next cls written = some bytes ↔ cls.Part symbols next written bytes := by
  have hMeaning : operandValue? table written = written.meaning? symbols := by
    cases written with
    | name word | addressName word => exact (hAgrees word).symm
    | _ => rfl
  unfold part? OperandClass.Part
  rw [hMeaning]
  cases hRole : cls.role with
  | implied operand =>
    have hSize : cls.size = 0 := by cases cls <;> cases hRole <;> rfl
    rw [if_pos hSize, Option.some.injEq, eq_comm]
  | slot kind =>
    have hSize : cls.size ≠ 0 := by cases cls <;> cases hRole <;> decide
    rw [if_neg hSize, Option.bind_eq_some_iff]
    constructor
    · rintro ⟨value, hValue, hSlot⟩
      exact ⟨value, hValue, (slot?_iff hRole (hBounded.meaning?_range hValue)).1 hSlot⟩
    · rintro ⟨value, hValue, hHolds⟩
      exact ⟨value, hValue, (slot?_iff hRole (hBounded.meaning?_range hValue)).2 hHolds⟩

theorem zip_written (classes : List OperandClass) (operands : List WrittenOperand) :
    classes.zip (operands.map WrittenOperand.written) =
      (operands.zip classes).map fun pair => (pair.2, pair.1.written) := by
  induction classes generalizing operands with
  | nil => simp
  | cons cls classes ih =>
    cases operands with
    | nil => rfl
    | cons operand operands => simp [ih]

/-- The parts of an instruction are those that the second pass finds. -/
theorem parts?_iff {mnemonic : String} {form : Form} {operands : List WrittenOperand}
    {parts : List Bytes} (hMeasured : (Command.instruction mnemonic form operands).Measured)
    (hSymbols : symbols.Bounded) (hAgrees : Agrees symbols table) :
    ((form.operands.zip (operands.map WrittenOperand.written)).mapM fun pair =>
        part? table next pair.1 pair.2) = some parts ↔
      form.Parts symbols next operands parts := by
  rw [mapM_eq_some_iff, zip_written, List.forall₂_map_left_iff]
  refine forall₂_iff_of_mem ?_
  intro pair hMem bytes
  exact part?_iff hAgrees (hMeasured.pair hSymbols pair hMem).2

theorem encode?_of_encodes {command : Command} {clause : Clause} {address : Int} {bytes : Bytes}
    (h : Encodes symbols address command bytes) (hMeasured : command.Measured)
    (hSymbols : symbols.Bounded) (hAgrees : Agrees symbols table)
    (hClause : ofCommand command = [clause]) : clause.encode? table address = some bytes := by
  cases h with
  | instruction hParts =>
    cases hClause
    simp [Clause.encode?, (parts?_iff hMeasured hSymbols hAgrees).2 hParts]
  | bytes | string | fill | origin | constant =>
    cases hClause
    rfl
  | use => cases hClause

end

/-! ## One statement -/

section
variable {location : Location} {program after : Program} {command : Command} {clause : Clause}

theorem admissible_iff {address : Int} :
    clause.admissible address = true ↔
      address + clause.size address ≤ memorySize ∧
        (∀ name, clause = .label name → address ≤ maxAddress) ∧
        ∀ target value, clause = .origin target value → address ≤ target := by
  have hMemory : memorySize = 0x10000 := rfl
  have hLast : maxAddress = 0xFFFF := rfl
  rw [hMemory, hLast]
  cases clause <;> simp [Clause.admissible]

/-- What a clause says of sizes and names is what its statement does. -/
theorem effect_clause (h : Effect location program command after) (hLaid : program.Laid)
    (hClause : ofCommand command = [clause]) :
    after.location = program.location + clause.size program.location ∧
      clause.admissible program.location = true ∧
      definitionsOf after =
        definitionsOf program ++ (clause.definition? program.location).toList := by
  have hNone : program.location + 0 ≤ memorySize := by
    rw [Int.add_zero]
    exact hLaid.location_le
  cases h with
  | blank | endInclude => cases hClause
  | sectionMark =>
    cases hClause
    exact ⟨(Int.add_zero _).symm, admissible_iff.2 ⟨hNone, nofun, nofun⟩,
      (List.append_nil _).symm⟩
  | label _ _ hHigh =>
    cases hClause
    exact ⟨(Int.add_zero _).symm, admissible_iff.2 ⟨hNone, fun _ _ => hHigh, nofun⟩,
      definitionsOf_bind _ _⟩
  | constant =>
    cases hClause
    exact ⟨rfl, admissible_iff.2 ⟨hNone, nofun, nofun⟩, definitionsOf_bind _ _⟩
  | place hContent hFits =>
    cases hContent with
    | use => cases hClause
    | instruction | bytes | string | fill =>
      cases hClause
      exact ⟨rfl, admissible_iff.2 ⟨hFits, nofun, nofun⟩, (List.append_nil _).symm⟩
    | origin hAhead =>
      cases hClause
      refine ⟨rfl, admissible_iff.2 ⟨hFits, nofun, ?_⟩, (List.append_nil _).symm⟩
      intro target value hSame
      cases hSame
      exact hAhead

theorem effect_nodup (h : Effect location program command after)
    (hNodup : ((definitionsOf program).map Definition.name).Nodup) :
    ((definitionsOf after).map Definition.name).Nodup := by
  have hBind {symbol : Symbol} (hNew : program.symbols.lookup? symbol.name = none) :
      ((definitionsOf (program.bind symbol)).map Definition.name).Nodup := by
    rw [definitionsOf_bind, List.map_append, List.nodup_append_comm]
    exact List.nodup_cons.2 ⟨lookup?_eq_none_iff.1 hNew, hNodup⟩
  cases h with
  | blank | endInclude | sectionMark | place => exact hNodup
  | label hNew => exact hBind hNew
  | constant hNew => exact hBind hNew

theorem ofCommand_cases (command : Command) :
    ofCommand command = [] ∨ ∃ clause, ofCommand command = [clause] := by
  cases command with
  | blank | endInclude | use => exact .inl rfl
  | _ => exact .inr ⟨_, rfl⟩

/-- Commands without a clause leave addresses and definitions as they are, and what they place has
no bytes. -/
theorem effect_silent (h : Effect location program command after)
    (hNone : ofCommand command = []) :
    after.location = program.location ∧ definitionsOf after = definitionsOf program ∧
      ∃ placed, after.items = program.items ++ placed ∧
        ∀ symbols lineAt resolved, Resolving symbols lineAt placed resolved →
          ∃ pieces, List.Forall₂ Item.Delivers resolved pieces ∧ pieces.flatten = [] := by
  cases h with
  | label | constant | sectionMark => cases hNone
  | blank | endInclude =>
    refine ⟨rfl, rfl, [], (List.append_nil _).symm, ?_⟩
    intro symbols lineAt resolved hResolve
    obtain rfl := List.forall₂_nil_left_iff.1 hResolve
    exact ⟨[], .nil, rfl⟩
  | place hContent hFits =>
    cases hContent with
    | instruction | bytes | string | fill | origin => cases hNone
    | use =>
      refine ⟨Int.add_zero _, rfl, _, Program.items_append _ _, ?_⟩
      intro symbols lineAt resolved hResolve
      obtain ⟨other, _, hOther, hNil, rfl⟩ := List.forall₂_cons_left_iff.1 hResolve
      obtain rfl := List.forall₂_nil_left_iff.1 hNil
      cases hOther
      exact ⟨[[]], .cons ⟨rfl, fun chunk => ⟨[], rfl, rfl⟩⟩ .nil, rfl⟩

/-- Commands without a clause can always have their effect. -/
theorem effect_of_silent (hLaid : program.Laid) (hNone : ofCommand command = [])
    (symbols : SymbolTable) (lineAt : Location → Option String) (location : Location) :
    ∃ after placed resolved, Effect location program command after ∧
      after.items = program.items ++ placed ∧ Resolving symbols lineAt placed resolved := by
  cases command with
  | blank => exact ⟨program, [], [], .blank, (List.append_nil _).symm, .nil⟩
  | endInclude => exact ⟨program, [], [], .endInclude, (List.append_nil _).symm, .nil⟩
  | use file fileLocation =>
    refine ⟨_, _, [_], .place .use ?_, Program.items_append _ _, .cons rfl .nil⟩
    exact Int.le_trans (Int.le_of_eq (Int.add_zero _)) hLaid.location_le
  | _ => cases hNone

variable {symbols : SymbolTable} {table : List Definition} {lineAt : Location → Option String}

/-- What a statement placed delivers, once it is resolved, the bytes of its clause. -/
theorem effect_delivers (h : Effect location program command after) (hLaid : program.Laid)
    (hMeasured : command.Measured) (hSymbols : symbols.Bounded) (hAgrees : Agrees symbols table)
    (hClause : ofCommand command = [clause]) :
    ∃ placed, after.items = program.items ++ placed ∧
      ∀ resolved, Resolving symbols lineAt placed resolved →
        ∃ pieces, List.Forall₂ Item.Delivers resolved pieces ∧
          clause.encode? table program.location = some pieces.flatten := by
  have hNothing (hEncode : clause.encode? table program.location = some [])
      (resolved : List Item) (hResolve : Resolving symbols lineAt [] resolved) :
      ∃ pieces, List.Forall₂ Item.Delivers resolved pieces ∧
        clause.encode? table program.location = some pieces.flatten := by
    obtain rfl := List.forall₂_nil_left_iff.1 hResolve
    exact ⟨[], .nil, hEncode⟩
  have hOne {content : Content} (hPlaced : (program.itemAt location content).Placed command)
      (hLow : 0 ≤ (program.itemAt location content).size)
      (hFits : program.location + (program.itemAt location content).size ≤ memorySize)
      (resolved : List Item)
      (hResolve : Resolving symbols lineAt [program.itemAt location content] resolved) :
      ∃ pieces, List.Forall₂ Item.Delivers resolved pieces ∧
        clause.encode? table program.location = some pieces.flatten := by
    obtain ⟨other, _, hOther, hNil, rfl⟩ := List.forall₂_cons_left_iff.1 hResolve
    obtain rfl := List.forall₂_nil_left_iff.1 hNil
    have hStart := hLaid.location_nonneg
    obtain ⟨-, bytes, hEncodes, hDelivers⟩ :=
      hPlaced.delivers hMeasured hSymbols hLow (by omega) hOther
    refine ⟨[bytes], .cons hDelivers .nil, ?_⟩
    rw [List.flatten_singleton]
    exact encode?_of_encodes hEncodes hMeasured hSymbols hAgrees hClause
  cases h with
  | blank | endInclude => cases hClause
  | sectionMark | label =>
    cases hClause
    exact ⟨[], (List.append_nil _).symm, hNothing rfl⟩
  | place hContent hFits =>
    exact ⟨_, Program.items_append _ _, hOne (.content hContent)
      (hContent.size_nonneg hMeasured location) hFits⟩
  | constant _ _ _ hFits =>
    refine ⟨_, Program.items_append _ _, hOne (.constant rfl) (Int.le_refl 0) ?_⟩
    exact Int.le_trans (Int.le_of_eq (Int.add_zero _)) hFits

/-- An instruction with bytes can be built, and resolved where it stands. -/
theorem built_of_encode? {mnemonic : String} {form : Form} {operands : List WrittenOperand}
    (hMeasured : (Command.instruction mnemonic form operands).Measured)
    (hSymbols : symbols.Bounded) (hAgrees : Agrees symbols table) {address : Int} {bytes : Bytes}
    (hEncode : (Clause.instruction form (operands.map WrittenOperand.written)).encode? table
      address = some bytes) (location : Location) :
    ∃ built other, buildOperands (address + form.size) operands form.operands = .ok built ∧
      Assembly.resolveItem symbols lineAt
        ⟨location, address, .instruction mnemonic built form.size⟩ = .ok other := by
  simp only [Clause.encode?, Option.bind_eq_bind, Option.bind_eq_some_iff] at hEncode
  obtain ⟨parts, hParts, -⟩ := hEncode
  rw [parts?_iff hMeasured hSymbols hAgrees] at hParts
  obtain ⟨resolved, hSettled, -⟩ := (parts_iff hMeasured hSymbols).2 hParts
  obtain ⟨built, hBuilt, hResolved⟩ := settled_iff.2 hSettled
  exact ⟨built, _, hBuilt, resolveItem_instruction_iff.2 ⟨resolved, hResolved, rfl⟩⟩

/-- Where a clause may stand and has bytes, its statement can have its effect, and what that places
can be resolved. -/
theorem effect_of_clause (hLaid : program.Laid) (hMeasured : command.Measured)
    (hSymbols : symbols.Bounded) (hAgrees : Agrees symbols table)
    (hClause : ofCommand command = [clause])
    (hAdmissible : clause.admissible program.location = true)
    (hFresh : ∀ entry, clause.definition? program.location = some entry →
      entry.name ∉ (definitionsOf program).map Definition.name)
    {bytes : Bytes} (hEncode : clause.encode? table program.location = some bytes)
    (location : Location) :
    ∃ after placed resolved, Effect location program command after ∧
      after.items = program.items ++ placed ∧ Resolving symbols lineAt placed resolved := by
  obtain ⟨hFits, hLabel, hOrigin⟩ := admissible_iff.1 hAdmissible
  have hPlace {content : Content} {other : Item}
      (hContent : Content.Of program.location command content)
      (hSize : program.location + (program.itemAt location content).size ≤ memorySize)
      (hResolve : Assembly.resolveItem symbols lineAt (program.itemAt location content) =
        .ok other) :
      ∃ after placed resolved, Effect location program command after ∧
        after.items = program.items ++ placed ∧ Resolving symbols lineAt placed resolved :=
    ⟨_, _, [other], .place hContent hSize, Program.items_append _ _, .cons hResolve .nil⟩
  cases command with
  | blank | endInclude | use => cases hClause
  | sectionMark =>
    exact ⟨program, [], [], .sectionMark, (List.append_nil _).symm, .nil⟩
  | label name =>
    cases hClause
    refine ⟨_, [], [], .label ?_ hLaid.location_nonneg (hLabel name rfl), (List.append_nil _).symm,
      .nil⟩
    exact lookup?_eq_none_iff.2 (hFresh _ rfl)
  | bytes =>
    cases hClause
    exact hPlace .bytes hFits rfl
  | string =>
    cases hClause
    exact hPlace .string hFits rfl
  | fill =>
    cases hClause
    exact hPlace .fill hFits rfl
  | origin =>
    cases hClause
    exact hPlace (.origin (hOrigin _ _ rfl)) hFits rfl
  | constant name nameLocation value =>
    cases hClause
    obtain ⟨hLow, hHigh⟩ := hMeasured
    have hNew := lookup?_eq_none_iff.2 (hFresh _ rfl)
    refine ⟨_, _, [_], .constant hNew hLow hHigh ?_, Program.items_append _ _, .cons rfl .nil⟩
    exact Int.le_trans (Int.le_of_eq (Int.add_zero _).symm) hFits
  | instruction =>
    cases hClause
    obtain ⟨built, other, hBuilt, hOther⟩ :=
      built_of_encode? hMeasured hSymbols hAgrees hEncode location
    exact hPlace (.instruction hBuilt) hFits hOther

end

end Lr35902.TwoPass
