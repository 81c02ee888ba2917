import Lr35902.Proofs.ConstantValues.Statements
import Lr35902.Proofs.TwoPass.Tables

/-!
The layout of a program does not depend on the values of its constants. A statement places at most
one item, of a kind, at the address that is reached, and as long as the address moves on
(`Effect.outline`). Statements that run in parallel move it by the same amount and bind labels to
the same addresses, whatever constants they define (`effect_sameLayout`); so do whole runs
(`effects_sameLayout`). Resolution, which looks at the values, keeps the outlines of all items
(`Accomplished.sameLayout`).
-/
namespace Lr35902

open TwoPass

/-! ## One statement -/

/-- Items of the same kind and size at the same address. -/
structure Item.SameOutline (item other : Item) : Prop where
  kindName_eq : item.kindName = other.kindName
  address_eq : item.address = other.address
  size_eq : item.size = other.size

/-- Programs that are laid out alike: as many items, with the same outlines one by one, the same
labels at the same addresses, and the same end. -/
structure Program.SameLayout (program other : Program) : Prop where
  items : List.Forall₂ Item.SameOutline program.items other.items
  labels_eq : program.symbols.labels = other.symbols.labels
  location_eq : program.location = other.location

/-- What a statement places has the kind that its command says, and lies between the addresses
before and after it. -/
theorem Effect.outline {location : Location} {program after : Program} {command : Command}
    (h : Effect location program command after) :
    (kindName? command = none ∧ after.items = program.items) ∨
      ∃ item, kindName? command = some item.kindName ∧ item.address = program.location ∧
        after.location = program.location + item.size ∧ after.items = program.items ++ [item] := by
  cases h with
  | blank | endInclude | sectionMark | label => exact .inl ⟨rfl, rfl⟩
  | place hContent _ =>
    refine .inr ⟨_, ?_, rfl, rfl, Program.items_append _ _⟩
    cases hContent <;> rfl
  | constant => exact .inr ⟨_, rfl, rfl, rfl, Program.items_append _ _⟩

namespace TwoPass

theorem labelsOf_append (table more : List Definition) :
    labelsOf (table ++ more) = ⟨(labelsOf table).entries ++ (labelsOf more).entries⟩ := by
  simp [labelsOf]

section
variable {location place : Location} {program after other same : Program}
  {command parallel : Command}

/-- Parallel statements move on by the same amount, and bind the same labels. -/
theorem effect_parallel (h : Effect location program command after)
    (hOther : Effect place other parallel same) (hParallel : Parallel command parallel)
    (hLaid : program.Laid) (hOtherLaid : other.Laid) (hLocation : program.location = other.location)
    (hLabels : program.symbols.labels = other.symbols.labels) :
    after.location = same.location ∧ after.symbols.labels = same.symbols.labels := by
  rw [labels_eq, labels_eq] at hLabels ⊢
  cases hParallel.corresponding with
  | clause hCommand hSame hClause =>
    obtain ⟨hAfter, -, hDefined⟩ := effect_clause h hLaid hCommand
    obtain ⟨hSameAfter, -, hSameDefined⟩ := effect_clause hOther hOtherLaid hSame
    rw [hAfter, hSameAfter, hDefined, hSameDefined, labelsOf_append, labelsOf_append, hLabels,
      hLocation]
    -- constants take no room and are no labels
    cases hClause with
    | same => exact ⟨rfl, rfl⟩
    | constant => exact ⟨rfl, rfl⟩
  | blank | endInclude | use =>
    obtain ⟨hAfter, hDefined, -⟩ := effect_silent h rfl
    obtain ⟨hSameAfter, hSameDefined, -⟩ := effect_silent hOther rfl
    rw [hAfter, hSameAfter, hDefined, hSameDefined]
    exact ⟨hLocation, hLabels⟩

theorem effect_sameLayout (h : Effect location program command after)
    (hOther : Effect place other parallel same) (hParallel : Parallel command parallel)
    (hLaid : program.Laid) (hOtherLaid : other.Laid) (hSame : program.SameLayout other) :
    after.SameLayout same := by
  obtain ⟨hItems, hLabels, hLocation⟩ := hSame
  obtain ⟨hAfter, hAfterLabels⟩ :=
    effect_parallel h hOther hParallel hLaid hOtherLaid hLocation hLabels
  have hKind := hParallel.kindName?_eq
  refine ⟨?_, hAfterLabels, hAfter⟩
  rcases h.outline with ⟨hNone, hPlaced⟩ | ⟨item, hSome, hAddress, hMoved, hPlaced⟩
  · rcases hOther.outline with ⟨-, hOtherPlaced⟩ | ⟨item, hOtherSome, -⟩
    · rw [hPlaced, hOtherPlaced]
      exact hItems
    · rw [hNone, hOtherSome] at hKind
      cases hKind
  · rcases hOther.outline with ⟨hOtherNone, -⟩ |
      ⟨otherItem, hOtherSome, hOtherAddress, hOtherMoved, hOtherPlaced⟩
    · rw [hSome, hOtherNone] at hKind
      cases hKind
    · rw [hSome, hOtherSome] at hKind
      rw [hPlaced, hOtherPlaced]
      refine List.rel_append hItems (.cons ⟨Option.some.inj hKind, ?_, ?_⟩ .nil)
      · rw [hAddress, hOtherAddress, hLocation]
      · omega

end

/-! ## Whole runs -/

theorem effects_sameLayout {statements more : List Statement}
    (hParallel : List.Forall₂
      (fun statement other => Parallel statement.command other.command) statements more)
    {program after other same : Program} (h : Effects program statements after)
    (hOther : Effects other more same)
    (hMeasured : ∀ statement ∈ statements, statement.command.Measured)
    (hOtherMeasured : ∀ statement ∈ more, statement.command.Measured)
    (hLaid : program.Laid) (hOtherLaid : other.Laid) (hSame : program.SameLayout other) :
    after.SameLayout same := by
  induction hParallel generalizing program other with
  | nil =>
    cases h
    cases hOther
    exact hSame
  | cons hHead _ ih =>
    obtain ⟨hHere, hRest⟩ := List.forall_mem_cons.1 hMeasured
    obtain ⟨hOtherHere, hOtherRest⟩ := List.forall_mem_cons.1 hOtherMeasured
    cases h with
    | cons hEffect hEffects =>
      cases hOther with
      | cons hOtherEffect hOtherEffects =>
        exact ih hEffects hOtherEffects hRest hOtherRest (hEffect.laid hHere hLaid)
          (hOtherEffect.laid hOtherHere hOtherLaid)
          (effect_sameLayout hEffect hOtherEffect hHead hLaid hOtherLaid hSame)

/-! ## Whole assemblies -/

open Assembly (Source State Trace Resolving)

/-- An assembly that succeeds: the statements of its trace have their effects from the first state
to the last one, whose items are then resolved. -/
structure Accomplished (surroundings : Surroundings) (source : Source) (first last : State)
    (statements : List Statement) (program : Program) : Prop where
  start_eq : Assembly.start surroundings source = .ok first
  trace : Trace surroundings source.tokens first.openFiles statements last.openFiles
  effects : Effects first.program statements last.program
  measured : ∀ statement ∈ statements, statement.command.Measured
  resolves : Resolving last.program.symbols last.lineAt last.program.items program.items
  location_eq : program.location = last.program.location
  symbols_eq : program.symbols = last.program.symbols

section
variable {surroundings : Surroundings} {source other : Source} {program same : Program}

theorem accomplished (hLive : ∀ token ∈ source.tokens, token.Live)
    (h : (Assembly.assemble surroundings source).result = .ok program) :
    ∃ first last statements, Accomplished surroundings source first last statements program := by
  obtain ⟨first, last, after, hStart, hRun, hResolve, hProgram⟩ := Assembly.assemble_ok_iff.1 h
  obtain ⟨items, hItems, rfl⟩ := Assembly.resolve_ok_iff.1 ⟨after, hResolve, hProgram⟩
  obtain ⟨statements, hTrace, hEffects⟩ := Assembly.trace_of_run hRun
  rw [(start_fresh hStart).tokens_eq] at hTrace
  refine ⟨first, last, statements, hStart, hTrace, hEffects, trace_measured hTrace hLive, ?_, rfl,
    rfl⟩
  rw [Program.items_withItems]
  exact hItems

/-- Before the first statement there are no items and no labels. -/
theorem start_sameLayout {first second : State}
    (h : Assembly.start surroundings source = .ok first)
    (hOther : Assembly.start surroundings other = .ok second) :
    first.program.SameLayout second.program := by
  have hFirst := start_fresh h
  have hSecond := start_fresh hOther
  have hNone (defines : List (String × Int)) :
      labelsOf (defines.map fun entry => ⟨entry.1, entry.2, true⟩) = .empty := by
    rw [labelsOf, List.filter_map, List.filter_eq_nil_iff.2 (by simp)]
    rfl
  refine ⟨?_, ?_, ?_⟩
  · rw [hFirst.items_eq, hSecond.items_eq]
    exact .nil
  · rw [labels_eq, labels_eq, hFirst.definitions_eq, hSecond.definitions_eq, hNone, hNone]
  · rw [hFirst.location_eq, hSecond.location_eq]

theorem resolveItem_outline {symbols : SymbolTable} {lineAt : Location → Option String}
    {item resolved : Item} (h : Assembly.resolveItem symbols lineAt item = .ok resolved) :
    item.SameOutline resolved := by
  obtain ⟨-, hAddress, hSize⟩ := Assembly.resolveItem_frame h
  refine ⟨?_, hAddress.symm, hSize.symm⟩
  obtain ⟨location, address, content⟩ := item
  cases content with
  | instruction mnemonic operands size =>
    obtain ⟨found, -, rfl⟩ := resolveItem_instruction_iff.1 h
    rfl
  | _ =>
    cases h
    rfl

/-- Programs are laid out alike if their statements run in parallel. -/
theorem Accomplished.sameLayout {first last second final : State}
    {statements more : List Statement}
    (h : Accomplished surroundings source first last statements program)
    (hOther : Accomplished surroundings other second final more same)
    (hParallel : List.Forall₂
      (fun statement other => Parallel statement.command other.command) statements more) :
    program.SameLayout same := by
  have hStart := start_sameLayout h.start_eq hOther.start_eq
  obtain ⟨hItems, hLabels, hLocation⟩ :=
    effects_sameLayout hParallel h.effects hOther.effects h.measured hOther.measured
      (Assembly.start_laid h.start_eq) (Assembly.start_laid hOther.start_eq) hStart
  refine ⟨?_, ?_, ?_⟩
  · have hAfter := forall₂_comp.1 ⟨_, hItems, hOther.resolves⟩
    refine (forall₂_comp.1 ⟨_, h.resolves.flip, hAfter⟩).imp ?_
    rintro item resolved ⟨before, hBefore, after, hSame, hAfter⟩
    have hFirst := resolveItem_outline hBefore
    have hLast := resolveItem_outline hAfter
    exact ⟨hFirst.kindName_eq.symm.trans (hSame.kindName_eq.trans hLast.kindName_eq),
      hFirst.address_eq.symm.trans (hSame.address_eq.trans hLast.address_eq),
      hFirst.size_eq.symm.trans (hSame.size_eq.trans hLast.size_eq)⟩
  · rw [h.symbols_eq, hOther.symbols_eq, hLabels]
  · rw [h.location_eq, hOther.location_eq, hLocation]

end

end TwoPass

end Lr35902
