import Lr35902.Proofs.Runs

/-!
The layout of a program. A program is laid out when its items follow one another without gaps from
address zero, none has a negative size, the location counter stands after the last of them and not
beyond the address space, and every symbol has a value of 16 bits (`Program.Laid`). Each effect of
a statement keeps this (`Effect.laid`), so it holds of every program that a run passes, also where
the run fails and while symbols are being resolved (`Passes.laid`). Labels are bound to the size of
what was placed before them (`Passes.boundBetween`).
-/
namespace Lr35902

/-! ## Sizes and addresses -/

/-- The number of bytes that some items take. -/
def totalSize : List Item → Int
  | [] => 0
  | item :: rest => item.size + totalSize rest

/-- Where an item stands and how many bytes it takes. -/
def Item.extent (item : Item) : Int × Int := (item.address, item.size)

theorem totalSize_nil : totalSize [] = 0 := rfl

theorem totalSize_cons (item : Item) (rest : List Item) :
    totalSize (item :: rest) = item.size + totalSize rest := rfl

theorem totalSize_append (items others : List Item) :
    totalSize (items ++ others) = totalSize items + totalSize others := by
  induction items with
  | nil => exact (Int.zero_add _).symm
  | cons item rest ih =>
    rw [List.cons_append, totalSize_cons, totalSize_cons, ih]
    omega

theorem totalSize_concat (items : List Item) (item : Item) :
    totalSize (items ++ [item]) = totalSize items + item.size := by
  rw [totalSize_append, totalSize_cons, totalSize_nil, Int.add_zero]

theorem totalSize_eq_of_extents {items others : List Item}
    (h : items.map Item.extent = others.map Item.extent) : totalSize items = totalSize others := by
  induction items generalizing others with
  | nil =>
    obtain rfl := List.map_eq_nil_iff.1 h.symm
    rfl
  | cons item rest ih =>
    obtain ⟨other, more, rfl, hFirst, hRest⟩ := List.map_eq_cons_iff.1 h.symm
    have hSize : other.size = item.size := congrArg Prod.snd hFirst
    rw [totalSize_cons, totalSize_cons, hSize, ih hRest.symm]

/-- A program whose items follow one another from address zero up to the location counter. -/
structure Program.Laid (program : Program) : Prop where
  location_eq : program.location = totalSize program.items
  location_le : program.location ≤ memorySize
  address_eq : ∀ before item after, program.items = before ++ item :: after →
    item.address = totalSize before
  size_nonneg : ∀ item ∈ program.items, 0 ≤ item.size
  value_range : ∀ symbol ∈ program.symbols.symbols,
    0 ≤ symbol.value ∧ symbol.value ≤ maxAddress

/-- Padding ends exactly at its target. -/
theorem Program.Laid.origin_eq {program : Program} (h : program.Laid)
    {before after : List Item} {item : Item} {target value : Int}
    (hItems : program.items = before ++ item :: after) (hPad : item.content = .pad target value) :
    totalSize (before ++ [item]) = target := by
  have hAddress := h.address_eq before item after hItems
  have hSize : item.size = target - item.address := by simp only [Item.size, hPad]
  rw [totalSize_concat]
  omega

theorem totalSize_nonneg {items : List Item} (h : ∀ item ∈ items, 0 ≤ item.size) :
    0 ≤ totalSize items := by
  induction items with
  | nil => exact Int.le_refl 0
  | cons item rest ih =>
    have hItem := h item List.mem_cons_self
    have hRest := ih fun other hMem => h other (List.mem_cons_of_mem item hMem)
    rw [totalSize_cons]
    omega

theorem Program.Laid.location_nonneg {program : Program} (h : program.Laid) :
    0 ≤ program.location := by
  rw [h.location_eq]
  exact totalSize_nonneg h.size_nonneg

/-! ## What effects keep -/

/-- The last item of a list is the new one, or it stands among those before. -/
theorem concat_eq_append_cons {α : Type} {items before after : List α} {new item : α}
    (h : items ++ [new] = before ++ item :: after) :
    (before = items ∧ item = new) ∨ ∃ rest, items = before ++ item :: rest := by
  rcases List.eq_nil_or_concat after with rfl | ⟨rest, last, rfl⟩
  · obtain ⟨rfl, hLast⟩ := List.append_inj' h rfl
    exact .inl ⟨rfl, by simpa using hLast.symm⟩
  · refine .inr ⟨rest, ?_⟩
    have hSplit : items ++ [new] = (before ++ item :: rest) ++ [last] := by simpa using h
    exact (List.append_inj' hSplit rfl).1

theorem Program.Laid.append {program : Program} (h : program.Laid) {location : Location}
    {content : Content} (hSize : 0 ≤ (program.itemAt location content).size)
    (hFits : program.location + (program.itemAt location content).size ≤ memorySize) :
    (program.append (program.itemAt location content)).Laid where
  location_eq := by
    rw [Program.items_append, totalSize_concat, ← h.location_eq]
    rfl
  location_le := hFits
  address_eq := by
    intro before item after hItems
    rw [Program.items_append] at hItems
    rcases concat_eq_append_cons hItems with ⟨rfl, rfl⟩ | ⟨rest, hRest⟩
    · -- the new item stands at the location counter, which is the size of all before it
      exact h.location_eq
    · exact h.address_eq before item rest hRest
  size_nonneg := by
    intro item hMem
    rw [Program.items_append] at hMem
    rcases List.mem_append.1 hMem with hMem | hMem
    · exact h.size_nonneg item hMem
    · rw [List.mem_singleton.1 hMem]
      exact hSize
  value_range := h.value_range

theorem Program.symbols_bind (program : Program) (symbol : Symbol) :
    (program.bind symbol).symbols.symbols = program.symbols.symbols ++ [symbol] :=
  List.reverse_cons

theorem Program.Laid.bind {program : Program} (h : program.Laid) {symbol : Symbol}
    (hRange : 0 ≤ symbol.value ∧ symbol.value ≤ maxAddress) : (program.bind symbol).Laid where
  location_eq := h.location_eq
  location_le := h.location_le
  address_eq := h.address_eq
  size_nonneg := h.size_nonneg
  value_range := by
    intro other hMem
    rw [Program.symbols_bind] at hMem
    rcases List.mem_append.1 hMem with hMem | hMem
    · exact h.value_range other hMem
    · rw [List.mem_singleton.1 hMem]
      exact hRange

/-- What a measured command puts at an address has no negative size. -/
theorem Content.Of.size_nonneg {address : Int} {command : Command} {content : Content}
    (h : Content.Of address command content) (hMeasured : command.Measured)
    (location : Location) : 0 ≤ (Item.mk location address content).size := by
  cases h with
  | instruction _ => exact Int.natCast_nonneg _
  | bytes => exact Int.natCast_nonneg _
  | string => exact Int.natCast_nonneg _
  | fill => exact hMeasured.1
  | origin hAhead => exact Int.sub_nonneg.2 hAhead
  | use => exact Int.le_refl 0

theorem Effect.laid {location : Location} {program after : Program} {command : Command}
    (h : Effect location program command after) (hMeasured : command.Measured)
    (hLaid : program.Laid) : after.Laid := by
  cases h with
  | blank | endInclude | sectionMark => exact hLaid
  | label _ hLow hHigh => exact hLaid.bind ⟨hLow, hHigh⟩
  | place hContent hFits => exact hLaid.append (hContent.size_nonneg hMeasured location) hFits
  | @constant name nameLocation value _ hLow hHigh hFits =>
    have hBound : (program.bind ⟨name, value, some nameLocation, true⟩).Laid :=
      hLaid.bind ⟨hLow, hHigh⟩
    refine hBound.append (Int.le_refl 0) ?_
    exact Int.le_trans (Int.le_of_eq (Int.add_zero _)) hFits

/-- A statement adds at most one item, after all others. -/
theorem Effect.items_prefix {location : Location} {program after : Program} {command : Command}
    (h : Effect location program command after) : program.items <+: after.items := by
  cases h with
  | blank | endInclude | sectionMark | label => exact List.prefix_refl _
  | place => exact ⟨_, (Program.items_append _ _).symm⟩
  | constant => exact ⟨_, (Program.items_append (program.bind _) _).symm⟩

/-- A statement defines at most one symbol, after all others; a label gets the current address. -/
theorem Effect.symbols_cases {location : Location} {program after : Program} {command : Command}
    (h : Effect location program command after) :
    after.symbols = program.symbols ∨
      ∃ symbol, after.symbols.symbols = program.symbols.symbols ++ [symbol] ∧
        (symbol.isConstant = false → symbol.value = program.location) := by
  cases h with
  | blank | endInclude | sectionMark | place => exact .inl rfl
  | label =>
    refine .inr ⟨_, Program.symbols_bind _ _, ?_⟩
    intro _
    rfl
  | constant =>
    refine .inr ⟨_, Program.symbols_bind _ _, ?_⟩
    intro hLabel
    cases hLabel

/-- Whatever is defined has a value of 16 bits. -/
theorem Effect.value_range {location : Location} {program after : Program} {command : Command}
    (h : Effect location program command after)
    (hRange : ∀ symbol ∈ program.symbols.symbols, 0 ≤ symbol.value ∧ symbol.value ≤ maxAddress) :
    ∀ symbol ∈ after.symbols.symbols, 0 ≤ symbol.value ∧ symbol.value ≤ maxAddress := by
  have hBind {name : String} {value : Int} {location : Option Location} {isConstant : Bool}
      (hLow : 0 ≤ value) (hHigh : value ≤ maxAddress) :
      ∀ symbol ∈ (program.bind ⟨name, value, location, isConstant⟩).symbols.symbols,
        0 ≤ symbol.value ∧ symbol.value ≤ maxAddress := by
    rw [Program.symbols_bind]
    exact List.forall_mem_append.2 ⟨hRange, List.forall_mem_singleton.2 ⟨hLow, hHigh⟩⟩
  cases h with
  | blank | endInclude | sectionMark | place => exact hRange
  | label _ hLow hHigh => exact hBind hLow hHigh
  | constant _ hLow hHigh _ => exact hBind hLow hHigh

/-! ## Other items in the same places -/

theorem split_of_map_eq {α β : Type} {f : α → β} {items others before after : List α} {item : α}
    (h : items.map f = others.map f) (hSplit : items = before ++ item :: after) :
    ∃ before' item' after', others = before' ++ item' :: after' ∧
      before.map f = before'.map f ∧ f item = f item' := by
  rw [hSplit, List.map_append, List.map_cons] at h
  obtain ⟨before', tail, rfl, hBefore, hTail⟩ := List.map_eq_append_iff.1 h.symm
  obtain ⟨item', after', rfl, hItem, -⟩ := List.map_eq_cons_iff.1 hTail
  exact ⟨before', item', after', rfl, hBefore.symm, hItem.symm⟩

/-- The layout depends on the places and sizes of the items only. -/
theorem Program.Laid.of_extents {program other : Program} (h : program.Laid)
    (hExtents : other.items.map Item.extent = program.items.map Item.extent)
    (hLocation : other.location = program.location) (hSymbols : other.symbols = program.symbols) :
    other.Laid where
  location_eq := by
    rw [hLocation, totalSize_eq_of_extents hExtents]
    exact h.location_eq
  location_le := by
    rw [hLocation]
    exact h.location_le
  address_eq := by
    intro before item after hItems
    obtain ⟨before', item', after', hSplit, hBefore, hItem⟩ := split_of_map_eq hExtents hItems
    calc item.address = item'.address := congrArg Prod.fst hItem
      _ = totalSize before' := h.address_eq before' item' after' hSplit
      _ = totalSize before := (totalSize_eq_of_extents hBefore).symm
  size_nonneg := by
    intro item hMem
    have hExtent := List.mem_map_of_mem (f := Item.extent) hMem
    rw [hExtents] at hExtent
    obtain ⟨item', hMem', hSame⟩ := List.mem_map.1 hExtent
    have hSize : item'.size = item.size := congrArg Prod.snd hSame
    rw [← hSize]
    exact h.size_nonneg item' hMem'
  value_range := by
    rw [hSymbols]
    exact h.value_range

namespace Assembly
variable {surroundings : Surroundings}

/-! ## Runs -/

theorem start_laid {source : Source} {first : State} (h : start surroundings source = .ok first) :
    first.program.Laid := by
  obtain ⟨-, hPlaced, hLocation, hSymbols⟩ := start_ok h
  have hItems : first.program.items = [] := by rw [Program.items, hPlaced]; rfl
  obtain ⟨hEntries, -, hTable⟩ := predefine_ok_iff.1 hSymbols
  refine ⟨?_, ?_, ?_, ?_, ?_⟩
  · rw [hLocation, hItems, totalSize_nil]
  · rw [hLocation]
    decide
  · intro before item after hSplit
    rw [hItems] at hSplit
    exact absurd hSplit.symm (by simp)
  · intro item hMem
    rw [hItems] at hMem
    exact absurd hMem List.not_mem_nil
  · intro symbol hMem
    rw [hTable, SymbolTable.symbols, List.mem_reverse, SymbolTable.empty, List.append_nil,
      List.mem_reverse] at hMem
    obtain ⟨entry, hEntry, rfl⟩ := List.mem_map.1 hMem
    exact (hEntries entry hEntry).2

theorem Step.laid {state after : State} (h : Step surroundings state after) (hLive : state.Live)
    (hLaid : state.program.Laid) : after.program.Laid := by
  obtain ⟨location, command, rest, hReads, hEffect⟩ := h.effect
  exact hEffect.laid (hReads.measured hLive) hLaid

theorem Reaches.laid {state after : State} (h : Reaches surroundings state after)
    (hLive : state.Live) (hLaid : state.program.Laid) : after.program.Laid := by
  induction h with
  | refl => exact hLaid
  | tail hReaches hStep ih => exact hStep.laid (Reaches.live hReaches hLive) ih

theorem Reaches.value_range {state after : State} (h : Reaches surroundings state after)
    (hRange : ∀ symbol ∈ state.program.symbols.symbols,
      0 ≤ symbol.value ∧ symbol.value ≤ maxAddress) :
    ∀ symbol ∈ after.program.symbols.symbols, 0 ≤ symbol.value ∧ symbol.value ≤ maxAddress := by
  induction h with
  | refl => exact hRange
  | tail _ hStep ih =>
    obtain ⟨location, command, rest, -, hEffect⟩ := hStep.effect
    exact hEffect.value_range ih

theorem Reaches.items_prefix {state after : State} (h : Reaches surroundings state after) :
    state.program.items <+: after.program.items := by
  induction h with
  | refl => exact List.prefix_refl _
  | tail _ hStep ih =>
    obtain ⟨_, _, _, -, hEffect⟩ := hStep.effect
    exact ih.trans hEffect.items_prefix

/-- Every label of a reached state was bound by one of the statements before, at the address that
the program had then. -/
theorem Reaches.label {first state : State} (h : Reaches surroundings first state)
    (hFirst : ∀ symbol ∈ first.program.symbols.symbols, symbol.isConstant = true) :
    ∀ symbol ∈ state.program.symbols.symbols, symbol.isConstant = false →
      ∃ before after, Reaches surroundings first before ∧ Step surroundings before after ∧
        after.program.symbols.symbols = before.program.symbols.symbols ++ [symbol] ∧
        symbol.value = before.program.location ∧
        before.program.items <+: state.program.items := by
  induction h with
  | refl =>
    intro symbol hMem hLabel
    rw [hFirst symbol hMem] at hLabel
    cases hLabel
  | @tail middle state hReaches hStep ih =>
    intro symbol hMem hLabel
    obtain ⟨_, _, _, -, hEffect⟩ := hStep.effect
    have hPrefix := hEffect.items_prefix
    -- the symbol was there before the last statement, or it is the one that this defined
    have hCases : symbol ∈ middle.program.symbols.symbols ∨
        (state.program.symbols.symbols = middle.program.symbols.symbols ++ [symbol] ∧
          symbol.value = middle.program.location) := by
      rcases hEffect.symbols_cases with hSame | ⟨new, hNew, hValue⟩
      · rw [hSame] at hMem
        exact .inl hMem
      · rw [hNew] at hMem
        rcases List.mem_append.1 hMem with hMem | hMem
        · exact .inl hMem
        · rw [← List.mem_singleton.1 hMem] at hNew hValue
          exact .inr ⟨hNew, hValue hLabel⟩
    rcases hCases with hOld | ⟨hSymbols, hValue⟩
    · obtain ⟨before, after, hBefore, hBind, hSymbols, hValue, hItems⟩ := ih symbol hOld hLabel
      exact ⟨before, after, hBefore, hBind, hSymbols, hValue, hItems.trans hPrefix⟩
    · exact ⟨middle, state, hReaches, hStep, hSymbols, hValue, hPrefix⟩

/-- The states that are reached are those in which the loop stops under some budget. -/
theorem Reaches.run {first before after : State} (h : Reaches surroundings first before)
    (hStep : Step surroundings before after) :
    ∃ count, (run surroundings count first).state = before ∧
      (run surroundings (count + 1) first).state = after := by
  have hOne : ∀ state, (Assembly.run surroundings 0 state).state = state := by
    intro state
    cases hTokens : state.tokens with
    | nil => rw [run_nil 0 hTokens]
    | cons token rest => rw [run_zero hTokens]
  -- from the front, since a step more at the front is a unit of budget more
  induction h using Relation.ReflTransGen.head_induction_on with
  | refl =>
    obtain ⟨token, rest, hTokens, hAfter⟩ := hStep
    refine ⟨0, hOne before, ?_⟩
    rw [run_succ 0 hTokens, hAfter]
    exact hOne after
  | head hHead _ ih =>
    obtain ⟨count, hBefore, hAfter⟩ := ih
    obtain ⟨token, rest, hTokens, hNext⟩ := hHead
    refine ⟨count + 1, ?_, ?_⟩
    · rw [run_succ count hTokens, hNext]
      exact hBefore
    · rw [run_succ (count + 1) hTokens, hNext]
      exact hAfter

/-! ## Resolution -/

theorem resolveItems_extents {symbols : SymbolTable} {lineAt : Location → Option String}
    {items resolved : List Item} (h : Resolving symbols lineAt items resolved) :
    resolved.map Item.extent = items.map Item.extent := by
  induction h with
  | nil => rfl
  | cons hItem _ ih =>
    obtain ⟨-, hAddress, hSize⟩ := resolveItem_frame hItem
    rw [List.map_cons, List.map_cons, ih, Item.extent, Item.extent, hAddress, hSize]

/-- The program of a state with some of its items resolved, in their order. -/
def PartlyResolved (state : State) (program : Program) : Prop :=
  ∃ items resolved waiting, state.program.items = items ++ waiting ∧
    resolveItems state.program.symbols state.lineAt [] items = .ok resolved ∧
    program = state.program.withItems (resolved ++ waiting)

theorem PartlyResolved.frame {state : State} {program : Program}
    (h : PartlyResolved state program) :
    program.items.map Item.extent = state.program.items.map Item.extent ∧
      program.location = state.program.location ∧ program.symbols = state.program.symbols := by
  obtain ⟨items, resolved, waiting, hItems, hResolve, rfl⟩ := h
  obtain ⟨_, hResolved, rfl⟩ := resolveItems_ok_iff.1 hResolve
  refine ⟨?_, rfl, rfl⟩
  rw [Program.items_withItems, hItems, List.map_append, List.map_append,
    resolveItems_extents hResolved]

/-- Resolution ends with all items resolved. -/
theorem resolve_partlyResolved {state after : State} (h : state.resolve = .ok after) :
    PartlyResolved state after.program := by
  obtain ⟨items, hItems, hProgram⟩ := resolve_ok_iff.1 ⟨after, h, rfl⟩
  refine ⟨state.program.items, items, [], (List.append_nil _).symm,
    resolveItems_ok_iff.2 ⟨items, hItems, rfl⟩, ?_⟩
  rw [List.append_nil]
  exact hProgram

/-! ## The layout of every program on the way -/

/-- The programs that a run passes from its first state: those between statements, up to where the
run stops, whether it succeeds or not; inside a definition of a constant, those whose symbol is
defined and whose item is not yet placed; and those in which some of the items are resolved. -/
inductive Passes (surroundings : Surroundings) (first : State) : Program → Prop
  | between (count : Nat) : Passes surroundings first (run surroundings count first).state.program
  | inside {count : Nat} {name : String} {nameLocation : Location} {value : Int}
    {rest : List Token} {middle : State} :
    Statement.Reads (run surroundings count first).state.tokens
      (.constant name nameLocation value) rest →
    (run surroundings count first).state.define name value nameLocation true = .ok middle →
    Passes surroundings first middle.program
  | resolving {count : Nat} {last : State} {program : Program} :
    run surroundings count first = ⟨last, none⟩ → PartlyResolved last program →
    Passes surroundings first program

/-- A statement of the run bound a label, after some of the items of a program were placed and
before the others, to the number of bytes that those take. -/
def BoundBetween (surroundings : Surroundings) (first : State) (program : Program)
    (label : Symbol) : Prop :=
  ∃ count before after, run surroundings count first = before ∧
    run surroundings (count + 1) first = after ∧
    after.state.program.symbols.symbols = before.state.program.symbols.symbols ++ [label] ∧
    before.state.program.items.map Item.extent <+: program.items.map Item.extent ∧
    label.value = totalSize before.state.program.items ∧ label.value ≤ maxAddress

/-- Each program that a run passes has the items, up to resolution, and the symbols of a state that
the run reaches, or one more constant. -/
theorem Passes.reached {first : State} {program : Program} (h : Passes surroundings first program) :
    ∃ state, Reaches surroundings first state ∧
      program.items.map Item.extent = state.program.items.map Item.extent ∧
      ∀ symbol ∈ program.symbols.symbols, symbol.isConstant = false →
        symbol ∈ state.program.symbols.symbols := by
  cases h with
  | between count =>
    exact ⟨_, run_reaches surroundings count first, rfl, fun symbol hMem _ => hMem⟩
  | @inside count _ _ _ _ _ _ hDefine =>
    obtain ⟨-, -, rfl⟩ := State.define_ok_iff.1 hDefine
    refine ⟨_, run_reaches surroundings count first, rfl, ?_⟩
    -- the one symbol more is a constant, so every label was there before
    intro symbol hMem hLabel
    rw [Program.symbols_bind] at hMem
    rcases List.mem_append.1 hMem with hMem | hMem
    · exact hMem
    · rw [List.mem_singleton.1 hMem] at hLabel
      cases hLabel
  | @resolving count last _ hRun hPartly =>
    have hReaches := run_reaches surroundings count first
    rw [hRun] at hReaches
    obtain ⟨hExtents, -, hSymbols⟩ := hPartly.frame
    refine ⟨last, hReaches, hExtents, ?_⟩
    intro symbol hMem _
    rw [hSymbols] at hMem
    exact hMem

theorem Passes.laid {first : State} {program : Program} (h : Passes surroundings first program)
    (hLive : first.Live) (hLaid : first.program.Laid) : program.Laid := by
  cases h with
  | between count => exact (run_reaches surroundings count first).laid hLive hLaid
  | @inside count _ _ _ _ _ _ hDefine =>
    obtain ⟨-, hRange, rfl⟩ := State.define_ok_iff.1 hDefine
    exact ((run_reaches surroundings count first).laid hLive hLaid).bind hRange
  | @resolving count last _ hRun hPartly =>
    have hReaches := run_reaches surroundings count first
    rw [hRun] at hReaches
    obtain ⟨hExtents, hLocation, hSymbols⟩ := hPartly.frame
    exact (hReaches.laid hLive hLaid).of_extents hExtents hLocation hSymbols

theorem Passes.boundBetween {first : State} {program : Program}
    (h : Passes surroundings first program) (hLive : first.Live) (hLaid : first.program.Laid)
    (hFirst : ∀ symbol ∈ first.program.symbols.symbols, symbol.isConstant = true) {label : Symbol}
    (hMem : label ∈ program.symbols.symbols) (hLabel : label.isConstant = false) :
    BoundBetween surroundings first program label := by
  obtain ⟨state, hReaches, hExtents, hOld⟩ := h.reached
  obtain ⟨before, after, hBefore, hStep, hSymbols, hValue, hPrefix⟩ :=
    hReaches.label hFirst label (hOld label hMem hLabel) hLabel
  obtain ⟨count, rfl, rfl⟩ := hBefore.run hStep
  refine ⟨count, _, _, rfl, rfl, hSymbols, ?_, ?_, ?_⟩
  · rw [hExtents]
    exact hPrefix.map Item.extent
  · rw [hValue]
    exact (hBefore.laid hLive hLaid).location_eq
  · exact ((h.laid hLive hLaid).value_range label hMem).2

theorem start_constants {source : Source} {first : State}
    (h : start surroundings source = .ok first) :
    ∀ symbol ∈ first.program.symbols.symbols, symbol.isConstant = true := by
  intro symbol hMem
  obtain ⟨-, -, -, hSymbols⟩ := start_ok h
  obtain ⟨-, -, hTable⟩ := predefine_ok_iff.1 hSymbols
  rw [hTable, SymbolTable.symbols, List.mem_reverse, SymbolTable.empty, List.append_nil,
    List.mem_reverse] at hMem
  obtain ⟨entry, -, rfl⟩ := List.mem_map.1 hMem
  rfl

/-- In every program that a run of a scanned text passes, the items follow one another from address
zero up to the location counter and padding ends at its target; labels are bound to the sizes of
what stands before them; and resolution changes no place, no size and no symbol. -/
theorem passes_laid {text file : String} {source : Source} {first : State}
    (hScan : scan text file = .ok source.tokens) (hStart : start surroundings source = .ok first) :
    (∀ program, Passes surroundings first program →
      program.Laid ∧
        (∀ before item after target value, program.items = before ++ item :: after →
          item.content = .pad target value → totalSize (before ++ [item]) = target) ∧
        ∀ label ∈ program.symbols.symbols, label.isConstant = false →
          BoundBetween surroundings first program label) ∧
      ∀ count last, run surroundings count first = ⟨last, none⟩ → ∀ program,
        (PartlyResolved last program ∨ ∃ after, last.resolve = .ok after ∧ after.program = program) →
          program.items.map Item.extent = last.program.items.map Item.extent ∧
            program.location = last.program.location ∧ program.symbols = last.program.symbols := by
  have hLive := start_live (scan_scanned hScan) hStart
  have hFirst := start_laid hStart
  refine ⟨?_, ?_⟩
  · intro program hPasses
    have hLaid := hPasses.laid hLive hFirst
    refine ⟨hLaid, ?_, ?_⟩
    · intro before item after target value hItems hPad
      exact hLaid.origin_eq hItems hPad
    · intro label hMem hLabel
      exact hPasses.boundBetween hLive hFirst (start_constants hStart) hMem hLabel
  · rintro count last - program (hPartly | ⟨after, hResolve, rfl⟩)
    · exact hPartly.frame
    · exact (resolve_partlyResolved hResolve).frame

/-- A run over a jump and padding, up to where an unknown mnemonic stops it. -/
theorem passes_laid_stopped :
    ∃ tokens first, scan "start: jr end\nend: .org 8\n oops\n" "<input>" = .ok tokens ∧
      start ⟨.empty, [], none⟩ ⟨tokens, "<input>", none, .empty⟩ = .ok first ∧
      (run ⟨.empty, [], none⟩ 9 first).state.program.items.map Item.extent = [(0, 2), (2, 6)] ∧
      (run ⟨.empty, [], none⟩ 9 first).state.program.Laid := by
  have hRun : ((scan "start: jr end\nend: .org 8\n oops\n" "<input>").toOption.map fun tokens =>
      (start ⟨.empty, [], none⟩ ⟨tokens, "<input>", none, .empty⟩).toOption.map fun first =>
        (run ⟨.empty, [], none⟩ 9 first).state.program.items.map Item.extent) =
      some (some [(0, 2), (2, 6)]) := by decide +kernel
  obtain ⟨tokens, hScan, hRun⟩ := Option.map_eq_some_iff.1 hRun
  obtain ⟨first, hStart, hItems⟩ := Option.map_eq_some_iff.1 hRun
  have hScan := eq_ok_of_toOption hScan
  have hStart := eq_ok_of_toOption hStart
  exact ⟨tokens, first, hScan, hStart, hItems,
    ((passes_laid hScan hStart).1 _ (.between 9)).1⟩

end Assembly
end Lr35902
