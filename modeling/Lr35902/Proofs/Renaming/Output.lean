import Mathlib.Logic.Equiv.Fintype
import Lr35902.Proofs.Printing
import Lr35902.Proofs.Renaming.Statements

/-!
Renaming does not change the code. Under an injective renaming, renamed statements have the renamed
effects (`Effect.rename`), names that were new stay new, and every reference finds the symbol that
it found before (`Resolving.rename`), so a renamed source assembles to the renamed program
(`assemble_rename`). A renaming of the names of a source extends to a permutation of all names,
whose inverse takes the renamed source back; hence the renamed source assembles exactly if the
source does (`assemble_renamed_iff`).
-/
namespace Lr35902

/-! ## Renamed programs -/

variable (ρ : String → String)

def Operand.rename : Operand → Operand
  | .symbol (.word word) target location => .symbol (.word (ρ word)) target location
  | other => other

def Content.rename : Content → Content
  | .instruction mnemonic operands size =>
    .instruction mnemonic (operands.map (Operand.rename ρ)) size
  | .constant name value => .constant (ρ name) value
  | other => other

def Item.rename (item : Item) : Item := { item with content := item.content.rename ρ }

def Symbol.rename (symbol : Symbol) : Symbol := { symbol with name := ρ symbol.name }

def SymbolTable.rename (table : SymbolTable) : SymbolTable :=
  ⟨table.defined.map (Symbol.rename ρ)⟩

/-- The program about other names, with its items and symbols in the same order. -/
def Program.rename (program : Program) : Program :=
  ⟨program.placed.map (Item.rename ρ), program.location, program.symbols.rename ρ⟩

/-- The source with its identifiers and the constants defined beforehand renamed. -/
def Assembly.Source.rename (source : Assembly.Source) : Assembly.Source :=
  { source with
    tokens := source.tokens.map (Token.rename ρ)
    defines := ⟨source.defines.entries.map fun entry => (ρ entry.1, entry.2)⟩ }

variable {ρ}

theorem Item.size_rename (item : Item) : (item.rename ρ).size = item.size := by
  obtain ⟨location, address, content⟩ := item
  cases content <;> rfl

theorem SymbolTable.symbols_rename (table : SymbolTable) :
    (table.rename ρ).symbols = table.symbols.map (Symbol.rename ρ) :=
  List.map_reverse.symm

theorem Program.items_rename (program : Program) :
    (program.rename ρ).items = program.items.map (Item.rename ρ) :=
  List.map_reverse.symm

theorem SymbolTable.lookup?_rename (hρ : Function.Injective ρ) (table : SymbolTable)
    (name : String) :
    (table.rename ρ).lookup? (ρ name) = (table.lookup? name).map (Symbol.rename ρ) := by
  have hSame : ((fun symbol : Symbol => symbol.name == ρ name) ∘ Symbol.rename ρ) =
      fun symbol => symbol.name == name := by
    funext symbol
    rw [Bool.eq_iff_iff, beq_iff_eq]
    simp [Symbol.rename, hρ.eq_iff]
  rw [lookup?, SymbolTable.rename, List.find?_map, hSame]
  rfl

/-! ## Placing -/

theorem WrittenOperand.build_rename {operand : WrittenOperand} {cls : OperandClass} {next : Int}
    {built : Operand} (hFits : operand.written.fit cls = .fits)
    (h : operand.build cls next = .ok built) :
    (operand.rename ρ).build cls next = .ok (built.rename ρ) := by
  obtain ⟨written, location⟩ := operand
  cases hRole : cls.role with
  | implied implied =>
    rw [build_implied hRole] at h ⊢
    cases h
    cases cls <;> cases hRole <;> rfl
  | slot kind =>
    rw [build_slot hRole] at h ⊢
    cases written with
    | number value | address value =>
      -- a number is filled in at once, and has no name
      have hSame : built.rename ρ = built := by
        simp only [fill] at h
        split at h
        · cases h
          rfl
        · cases h
      rw [hSame]
      exact h
    | name word | addressName word =>
      cases h
      rfl
    | _ => cases cls <;> cases hRole <;> cases hFits

theorem buildOperands_rename {operands : List WrittenOperand} {classes : List OperandClass}
    {next : Int} {built : List Operand}
    (hFits : List.Forall₂ (fun operand cls => operand.written.fit cls = .fits) operands classes)
    (h : buildOperands next operands classes = .ok built) :
    buildOperands next (operands.map (WrittenOperand.rename ρ)) classes =
      .ok (built.map (Operand.rename ρ)) := by
  induction hFits generalizing built with
  | nil =>
    cases h
    rfl
  | @cons operand cls operands classes hFirst _ ih =>
    rw [buildOperands_ok_iff, List.zip_cons_cons, List.forall₂_cons_left_iff] at h
    obtain ⟨first, more, hBuilt, hMore, rfl⟩ := h
    rw [List.map_cons, buildOperands, WrittenOperand.build_rename hFirst hBuilt,
      ih (buildOperands_ok_iff.2 hMore)]
    rfl

theorem Content.Of.rename {address : Int} {command : Command} {content : Content}
    (h : Content.Of address command content) (hMeasured : command.Measured) :
    Content.Of address (command.rename ρ) (content.rename ρ) := by
  cases h with
  | instruction hBuilt => exact .instruction (buildOperands_rename hMeasured.2.2.1 hBuilt)
  | bytes => exact .bytes
  | string => exact .string
  | fill => exact .fill
  | origin hAhead => exact .origin hAhead
  | use => exact .use

section
variable {location : Location} {program after : Program} {command : Command}

theorem Program.append_rename (program : Program) (item : Item) :
    (program.append item).rename ρ = (program.rename ρ).append (item.rename ρ) := by
  simp only [Program.rename, Program.append, List.map_cons, Item.size_rename]

/-- A renamed command has the renamed effect. -/
theorem Effect.rename (hρ : Function.Injective ρ) (h : Effect location program command after)
    (hMeasured : command.Measured) :
    Effect location (program.rename ρ) (command.rename ρ) (after.rename ρ) := by
  have hNew {name : String} (hNone : program.symbols.lookup? name = none) :
      (program.rename ρ).symbols.lookup? (ρ name) = none := by
    rw [Program.rename, SymbolTable.lookup?_rename hρ, hNone]
    rfl
  cases h with
  | blank => exact .blank
  | endInclude => exact .endInclude
  | sectionMark => exact .sectionMark
  | label hNone hLow hHigh => exact .label (hNew hNone) hLow hHigh
  | place hContent hFits =>
    rw [Program.append_rename]
    refine .place (hContent.rename hMeasured) ?_
    exact (Item.size_rename _).symm ▸ hFits
  | constant hNone hLow hHigh hFits =>
    rw [Program.append_rename]
    exact .constant (hNew hNone) hLow hHigh hFits

theorem Effects.rename (hρ : Function.Injective ρ) {statements : List Statement}
    (h : Effects program statements after)
    (hMeasured : ∀ statement ∈ statements, statement.command.Measured) :
    Effects (program.rename ρ) (statements.map (Statement.rename ρ)) (after.rename ρ) := by
  induction h with
  | nil => exact .nil
  | cons hEffect _ ih =>
    obtain ⟨hHere, hRest⟩ := List.forall_mem_cons.1 hMeasured
    exact .cons (hEffect.rename hρ hHere) (ih hRest)

end

/-! ## Resolving -/

namespace Assembly

section
variable {symbols : SymbolTable} {lineAt other : Location → Option String} {next : Int}

theorem resolveOperand_rename (hρ : Function.Injective ρ) {operand resolved : Operand}
    (h : resolveOperand symbols lineAt next operand = .ok resolved) :
    resolveOperand (symbols.rename ρ) other next (operand.rename ρ) = .ok (resolved.rename ρ) := by
  cases operand with
  | name => cases h; rfl
  | number => cases h; rfl
  | symbol value target location =>
    cases value with
    | number => cases h; rfl
    | word name =>
      rcases target with _ | kind | kind
      · cases h; rfl
      · cases h; rfl
      · obtain ⟨value, hValue, number, hStores, rfl⟩ := resolveOperand_symbol_iff.1 h
        refine resolveOperand_symbol_iff.2 ⟨value, ?_, number, hStores, rfl⟩
        rw [SymbolTable.lookup?_rename hρ, Option.map_map]
        exact hValue

theorem resolveItem_rename (hρ : Function.Injective ρ) {item resolved : Item}
    (h : resolveItem symbols lineAt item = .ok resolved) :
    resolveItem (symbols.rename ρ) other (item.rename ρ) = .ok (resolved.rename ρ) := by
  obtain ⟨location, address, content⟩ := item
  cases content with
  | instruction mnemonic operands size =>
    obtain ⟨found, hOperands, rfl⟩ := resolveItem_instruction_iff.1 h
    refine resolveItem_instruction_iff.2 ⟨found.map (Operand.rename ρ), ?_, rfl⟩
    rw [resolveOperands_ok_iff] at hOperands ⊢
    rw [List.forall₂_map_left_iff, List.forall₂_map_right_iff]
    exact hOperands.imp fun _ _ hOperand => resolveOperand_rename hρ hOperand
  | _ =>
    cases h
    rfl

theorem Resolving.rename (hρ : Function.Injective ρ) {items resolved : List Item}
    (h : Resolving symbols lineAt items resolved) :
    Resolving (symbols.rename ρ) other (items.map (Item.rename ρ))
      (resolved.map (Item.rename ρ)) := by
  unfold Resolving
  rw [List.forall₂_map_left_iff, List.forall₂_map_right_iff]
  exact h.imp fun _ _ hItem => resolveItem_rename hρ hItem

end

/-! ## Whole assemblies -/

theorem start_rename (hρ : Function.Injective ρ) {surroundings : Surroundings} {source : Source}
    {first : State} (h : start surroundings source = .ok first) :
    ∃ renamed, start surroundings (source.rename ρ) = .ok renamed ∧
      renamed.openFiles = first.openFiles ∧ renamed.program = first.program.rename ρ := by
  obtain ⟨hOpen, -⟩ := TwoPass.start_ok_iff.1 ⟨first, h, rfl⟩
  obtain ⟨-, hPlaced, hLocation, hSymbols⟩ := start_ok h
  obtain ⟨hNew, hNodup, hTable⟩ := predefine_ok_iff.1 hSymbols
  have hRenamed : predefine .empty (source.rename ρ).defines.entries =
      .ok (first.program.symbols.rename ρ) := by
    refine predefine_ok_iff.2 ⟨?_, ?_, ?_⟩
    · intro entry hMem
      obtain ⟨known, hKnown, rfl⟩ := List.mem_map.1 hMem
      exact ⟨rfl, (hNew known hKnown).2⟩
    · have hNames : (source.rename ρ).defines.entries.map Prod.fst =
          (source.defines.entries.map Prod.fst).map ρ := by
        simp [Source.rename, Function.comp_def]
      rw [hNames]
      exact hNodup.map hρ
    · rw [hTable]
      simp [SymbolTable.rename, SymbolTable.empty, Source.rename, Function.comp_def, predefined,
        Symbol.rename]
  obtain ⟨renamed, hStart, hFiles⟩ :=
    TwoPass.start_ok_iff.2 ⟨(show initiallyOpen surroundings (source.rename ρ).file = _ from hOpen),
      _, hRenamed⟩
  obtain ⟨-, hPlaced', hLocation', hSymbols'⟩ := start_ok hStart
  refine ⟨renamed, hStart, hFiles, ?_⟩
  rw [hRenamed] at hSymbols'
  rw [Program.rename, hPlaced, hLocation, Except.ok.inj hSymbols', ← hLocation']
  rw [List.map_nil, ← hPlaced']

/-- A renamed source without inclusions assembles to the renamed program. -/
theorem assemble_rename (hρ : Function.Injective ρ) {surroundings : Surroundings} {source : Source}
    {program : Program} (hPlain : ∀ token ∈ source.tokens, TwoPass.Plain token)
    (h : (assemble surroundings source).result = .ok program) :
    (assemble surroundings (source.rename ρ)).result = .ok (program.rename ρ) := by
  obtain ⟨first, last, after, hStart, hRun, hResolve, hProgram⟩ := assemble_ok_iff.1 h
  obtain ⟨items, hItems, rfl⟩ := resolve_ok_iff.1 ⟨after, hResolve, hProgram⟩
  obtain ⟨statements, hTrace, hEffects⟩ := trace_of_run hRun
  rw [(start_ok hStart).1] at hTrace
  have hMeasured := TwoPass.trace_measured hTrace fun token hMem => (hPlain token hMem).live
  obtain ⟨renamed, hStarts, hFiles, hFirst⟩ := start_rename hρ hStart
  have hRenamed : Trace surroundings renamed.tokens renamed.openFiles
      (statements.map (Statement.rename ρ)) last.openFiles := by
    rw [(start_ok hStarts).1, hFiles]
    exact TwoPass.trace_rename hTrace hPlain
  have hPerformed := hEffects.rename hρ hMeasured
  rw [← hFirst] at hPerformed
  obtain ⟨stop, hRuns, hStop⟩ := run_ok_iff.2 ⟨_, _, hRenamed, hPerformed⟩
  have hResolving : Resolving stop.program.symbols stop.lineAt stop.program.items
      (items.map (Item.rename ρ)) := by
    rw [hStop, Program.items_rename]
    exact hItems.rename hρ
  obtain ⟨result, hResolves, hResult⟩ := resolve_ok_iff.2 ⟨_, hResolving, rfl⟩
  refine assemble_ok_iff.2 ⟨renamed, stop, result, hStarts, hRuns, hResolves, ?_⟩
  rw [hResult, hStop]
  simp only [Program.rename, Program.withItems, List.map_reverse]

/-! ## The names of a source -/

/-- The names in a source: its identifiers, and the constants that are defined beforehand. -/
def Source.names (source : Source) : List String :=
  Statement.identifiersOf source.tokens ++ source.defines.entries.map Prod.fst

section
variable {σ : String → String} {source : Source}

/-- Only the names of a source matter for how it is renamed. -/
theorem Source.rename_congr (h : ∀ name ∈ source.names, ρ name = σ name) :
    source.rename ρ = source.rename σ := by
  have hTokens : source.tokens.map (Token.rename ρ) = source.tokens.map (Token.rename σ) := by
    apply List.map_congr_left
    intro token hMem
    obtain ⟨lexeme, location⟩ := token
    cases lexeme with
    | identifier name =>
      have hName : name ∈ source.names :=
        List.mem_append_left _ (Statement.mem_identifiersOf.2 ⟨_, hMem, rfl⟩)
      simp only [Token.rename, Lexeme.rename, h name hName]
    | _ => rfl
  have hDefines : (source.defines.entries.map fun entry => (ρ entry.1, entry.2)) =
      source.defines.entries.map fun entry => (σ entry.1, entry.2) := by
    apply List.map_congr_left
    intro entry hMem
    rw [h entry.1 (List.mem_append_right _ (List.mem_map_of_mem hMem))]
  rw [Source.rename, Source.rename, hTokens, hDefines]

theorem Source.rename_rename (source : Source) :
    (source.rename ρ).rename σ = source.rename (σ ∘ ρ) := by
  have hToken : Token.rename σ ∘ Token.rename ρ = Token.rename (σ ∘ ρ) := by
    funext token
    obtain ⟨lexeme, location⟩ := token
    cases lexeme <;> rfl
  simp only [Source.rename, List.map_map, hToken]
  rfl

theorem Source.rename_id (source : Source) : source.rename id = source := by
  have hToken : Token.rename id = id := by
    funext token
    obtain ⟨lexeme, location⟩ := token
    cases lexeme <;> rfl
  simp [Source.rename, hToken]

end

/-- A program has no symbols but those named in its source. -/
theorem name_mem_names {surroundings : Surroundings} {source : Source} {program : Program}
    (hPlain : ∀ token ∈ source.tokens, TwoPass.Plain token)
    (h : (assemble surroundings source).result = .ok program) :
    ∀ symbol ∈ program.symbols.symbols, symbol.name ∈ source.names := by
  intro symbol hMem
  by_contra hOther
  -- another name that is not in the source could stand in its place, and nothing would change
  have hInfinite : Infinite String := by
    refine Infinite.of_injective (fun n => String.ofList (List.replicate n 'a')) ?_
    intro n m hSame
    simpa using congrArg String.length hSame
  obtain ⟨fresh, hFresh⟩ := Infinite.exists_notMem_finset (insert symbol.name source.names.toFinset)
  obtain ⟨hDistinct, hUnused⟩ : fresh ≠ symbol.name ∧ fresh ∉ source.names := by
    simpa using hFresh
  have hKept : source.rename (Equiv.swap symbol.name fresh) = source := by
    rw [← Source.rename_id source, Source.rename_rename]
    apply Source.rename_congr
    intro name hName
    refine Equiv.swap_apply_of_ne_of_ne ?_ ?_
    · exact fun hSame => hOther (hSame ▸ hName)
    · exact fun hSame => hUnused (hSame ▸ hName)
  have hRenamed := assemble_rename (Equiv.swap symbol.name fresh).injective hPlain h
  rw [hKept, h] at hRenamed
  have hSymbols : program.symbols.symbols =
      program.symbols.symbols.map (Symbol.rename (Equiv.swap symbol.name fresh)) := by
    rw [← SymbolTable.symbols_rename]
    exact congrArg (fun found : Program => found.symbols.symbols) (Except.ok.inj hRenamed)
  obtain ⟨index, hIndex⟩ := List.mem_iff_getElem?.1 hMem
  have hSame : program.symbols.symbols[index]? =
      some (symbol.rename (Equiv.swap symbol.name fresh)) := by
    rw [hSymbols, List.getElem?_map, hIndex]
    rfl
  rw [hIndex] at hSame
  have hName := congrArg Symbol.name (Option.some.inj hSame)
  rw [Symbol.rename, Equiv.swap_apply_left] at hName
  exact hDistinct hName.symm

end Assembly

/-! ## The code -/

/-- A resolved item is written as before, whatever it is called. -/
theorem Item.Resolved.itemWrites_rename {item : Item} (h : item.Resolved) (chunk : ChunkSize) :
    MachineCode.itemWrites chunk (item.rename ρ) = MachineCode.itemWrites chunk item := by
  obtain ⟨location, address, content⟩ := item
  cases content with
  | instruction mnemonic operands size =>
    have hSame : operands.map (Operand.rename ρ) = operands.map id := by
      apply List.map_congr_left
      intro operand hMem
      have hNoSymbol := h mnemonic operands size rfl operand hMem
      cases operand with
      | symbol => cases hNoSymbol
      | _ => rfl
    rw [List.map_id] at hSame
    rw [Item.rename, Content.rename, hSame]
  | _ => rfl

theorem deliverFrom_rename {items : List Item} (h : ∀ item ∈ items, item.Resolved)
    (chunk : ChunkSize) (total : Int) (done : List Bytes) :
    MachineCode.deliverFrom chunk total done (items.map (Item.rename ρ)) =
      MachineCode.deliverFrom chunk total done items := by
  induction items generalizing total done with
  | nil => rfl
  | cons item items ih =>
    obtain ⟨hItem, hRest⟩ := List.forall_mem_cons.1 h
    have hKind : (item.rename ρ).kindName = item.kindName := by
      obtain ⟨location, address, content⟩ := item
      cases content <;> rfl
    rw [List.map_cons, MachineCode.deliverFrom, MachineCode.deliverFrom, hItem.itemWrites_rename,
      Item.size_rename, hKind]
    simp only [ih hRest]
    rfl

theorem generate_rename {program : Program} (h : ∀ item ∈ program.items, item.Resolved)
    (chunk : ChunkSize) :
    MachineCode.generate chunk (program.rename ρ) = MachineCode.generate chunk program := by
  simp only [MachineCode.generate, MachineCode.deliver, Program.items_rename, deliverFrom_rename h,
    List.length_map]

/-! ## Renamings of identifiers -/

/-- The identifiers: words that are no keywords. -/
def Scan.identifiers : Set String :=
  {name | isWordText name.toList = true ∧ classify name = .identifier name}

namespace Assembly

section
variable {source : Source}

/-- A finite part of an injective renaming is part of a permutation of all names. -/
theorem exists_perm {names : List String} (h : Set.InjOn ρ {name | name ∈ names}) :
    ∃ σ : Equiv.Perm String, ∀ name ∈ names, σ name = ρ name := by
  obtain ⟨σ, hσ⟩ := Equiv.Perm.exists_extending_pair
    (fun name : {name // name ∈ names} => name.1) (fun name => ρ name.1) Subtype.val_injective
    (fun name other hSame => Subtype.ext (h name.2 other.2 hSame))
  exact ⟨σ, fun name hName => hσ ⟨name, hName⟩⟩

theorem names_subset {text file : String} (hScan : scan text file = .ok source.tokens)
    (hDefines : ∀ entry ∈ source.defines.entries, entry.1 ∈ Scan.identifiers) :
    ∀ name ∈ source.names, name ∈ Scan.identifiers := by
  refine List.forall_mem_append.2 ⟨?_, List.forall_mem_map.2 hDefines⟩
  intro name hName
  obtain ⟨token, hMem, hToken⟩ := Statement.mem_identifiersOf.1 hName
  obtain ⟨spelling, hSpelled⟩ :=
    (Scan.presentable_of_scan hScan).spelled token.lexeme (List.mem_map_of_mem hMem)
  rw [hToken] at hSpelled
  exact hSpelled.identifier.2

theorem plain_rename (hPlain : ∀ token ∈ source.tokens, TwoPass.Plain token)
    (hNames : ∀ name ∈ source.names, ρ name ∈ Scan.identifiers) :
    ∀ token ∈ (source.rename ρ).tokens, TwoPass.Plain token := by
  intro token hMem
  obtain ⟨⟨lexeme, location⟩, hToken, rfl⟩ := List.mem_map.1 hMem
  cases lexeme with
  | identifier name =>
    have hName : name ∈ source.names :=
      List.mem_append_left _ (Statement.mem_identifiersOf.2 ⟨_, hToken, rfl⟩)
    exact ⟨(hNames name hName).2, Lexeme.noConfusion⟩
  | _ => exact hPlain _ hToken

end

/-- Renaming symbols does not change the code. Under an injective renaming of identifiers a source
without inclusions assembles exactly if it did before, to the same bytes, and its symbols are the
renamed ones in the same order. -/
theorem assemble_renamed_iff {surroundings : Surroundings} {text file : String} {source : Source}
    (hScan : scan text file = .ok source.tokens)
    (hUse : ∀ token ∈ source.tokens, token.lexeme ≠ .directive ".use")
    (hDefines : ∀ entry ∈ source.defines.entries, entry.1 ∈ Scan.identifiers)
    (hMaps : Set.MapsTo ρ Scan.identifiers Scan.identifiers)
    (hInjective : Set.InjOn ρ Scan.identifiers) (chunk : ChunkSize) :
    ((∃ other, (assemble surroundings (source.rename ρ)).result = .ok other) ↔
        ∃ program, (assemble surroundings source).result = .ok program) ∧
      ∀ program other, (assemble surroundings source).result = .ok program →
        (assemble surroundings (source.rename ρ)).result = .ok other →
        (∃ code event, MachineCode.generate chunk program = .ok (code, event) ∧
          MachineCode.generate chunk other = .ok (code, event)) ∧
        other.symbols.symbols = program.symbols.symbols.map (Symbol.rename ρ) := by
  have hNames := names_subset hScan hDefines
  have hPlain : ∀ token ∈ source.tokens, TwoPass.Plain token :=
    fun token hMem => ⟨scan_scanned hScan token hMem, hUse token hMem⟩
  obtain ⟨σ, hσ⟩ := exists_perm (hInjective.mono hNames)
  have hSame : source.rename ρ = source.rename σ :=
    Source.rename_congr fun name hName => (hσ name hName).symm
  have hRenamed : ∀ token ∈ (source.rename σ).tokens, TwoPass.Plain token := by
    rw [← hSame]
    exact plain_rename hPlain fun name hName => hMaps (hNames name hName)
  -- the inverse of the permutation takes the renamed source back
  have hBack : (source.rename σ).rename σ.symm = source := by
    rw [Source.rename_rename, Equiv.symm_comp_self, Source.rename_id]
  rw [hSame]
  refine ⟨⟨?_, ?_⟩, ?_⟩
  · intro hOther
    obtain ⟨other, hOther⟩ := hOther
    have hProgram := assemble_rename σ.symm.injective hRenamed hOther
    rw [hBack] at hProgram
    exact ⟨_, hProgram⟩
  · intro hProgram
    obtain ⟨program, hProgram⟩ := hProgram
    exact ⟨_, assemble_rename σ.injective hPlain hProgram⟩
  · intro program other hProgram hOther
    rw [assemble_rename σ.injective hPlain hProgram] at hOther
    obtain rfl := Except.ok.inj hOther
    obtain ⟨first, last, hAssembles⟩ := assembles hScan hProgram
    obtain ⟨hResolved, pieces, hPieces⟩ := hAssembles.pieces
    obtain ⟨event, hGenerate⟩ := generate_delivers hPieces chunk
    refine ⟨⟨_, event, hGenerate, (generate_rename hResolved chunk).trans hGenerate⟩, ?_⟩
    rw [Program.rename, SymbolTable.symbols_rename]
    apply List.map_congr_left
    intro symbol hMem
    rw [Symbol.rename, Symbol.rename, hσ _ (name_mem_names hPlain hProgram symbol hMem)]

/-- Two labels that refer to each other change their names, beside a constant that keeps its own. -/
theorem assemble_renamed_iff_swapped :
    ∃ tokens program other,
      scan "loop: jr again\nagain: ld a, size\njr loop\n" "<input>" = .ok tokens ∧
      (assemble ⟨.empty, [], none⟩ ⟨tokens, "<input>", none, ⟨[("size", 3)]⟩⟩).result =
        .ok program ∧
      program.symbols.symbols.map Symbol.name = ["size", "loop", "again"] ∧
      (assemble ⟨.empty, [], none⟩
        (Source.rename (Equiv.swap "loop" "again")
          ⟨tokens, "<input>", none, ⟨[("size", 3)]⟩⟩)).result = .ok other ∧
      (∃ code event, MachineCode.generate .standard program = .ok (code, event) ∧
        MachineCode.generate .standard other = .ok (code, event)) ∧
      other.symbols.symbols =
        program.symbols.symbols.map (Symbol.rename (Equiv.swap "loop" "again")) := by
  have hRun : ((scan "loop: jr again\nagain: ld a, size\njr loop\n" "<input>").toOption.map
      fun tokens => (tokens.all (·.lexeme != .directive ".use"),
        (assemble ⟨.empty, [], none⟩ ⟨tokens, "<input>", none, ⟨[("size", 3)]⟩⟩).result.toOption.map
          fun program => program.symbols.symbols.map Symbol.name)) =
      some (true, some ["size", "loop", "again"]) := by decide +kernel
  obtain ⟨tokens, hScan, hRun⟩ := Option.map_eq_some_iff.1 hRun
  obtain ⟨hUse, hRun⟩ := Prod.mk.inj hRun
  obtain ⟨program, hProgram, hNames⟩ := Option.map_eq_some_iff.1 hRun
  have hScan := eq_ok_of_toOption hScan
  have hProgram := eq_ok_of_toOption hProgram
  have hWords : "loop" ∈ Scan.identifiers ∧ "again" ∈ Scan.identifiers ∧
      "size" ∈ Scan.identifiers := by
    refine ⟨⟨?_, ?_⟩, ⟨?_, ?_⟩, ⟨?_, ?_⟩⟩ <;> decide +kernel
  have hMaps : Set.MapsTo (Equiv.swap "loop" "again") Scan.identifiers Scan.identifiers := by
    intro name hName
    rw [Equiv.swap_apply_def]
    split
    · exact hWords.2.1
    · split
      · exact hWords.1
      · exact hName
  obtain ⟨hIff, hSame⟩ := @assemble_renamed_iff (Equiv.swap "loop" "again") ⟨.empty, [], none⟩ _ _
    ⟨tokens, "<input>", none, ⟨[("size", 3)]⟩⟩ hScan
    (fun token hMem => by simpa using List.all_eq_true.1 hUse token hMem)
    (List.forall_mem_singleton.2 hWords.2.2) hMaps (Equiv.injective _).injOn .standard
  obtain ⟨other, hOther⟩ := hIff.2 ⟨program, hProgram⟩
  exact ⟨tokens, program, other, hScan, hProgram, hNames, hOther,
    hSame program other hProgram hOther⟩

end Assembly
end Lr35902
