import Lr35902.Proofs.Effect
import Lr35902.Proofs.Files
import Lr35902.Proofs.Measured
import Mathlib.Logic.Relation

/-!
Runs: statement after statement, and resolution at the end. `Step` is one statement and `Reaches`
any number of them; the budgeted loop only goes along these steps (`run_reaches`, `run_induction`),
and the steps are determined, so that every state a successful run passes lies on the way to its
end (`Reaches.onto`). A step reads a command and has its effect, and keeps the tokens ahead live
(`Step.inv`, `Step.live`). Resolution replaces items one by one (`resolveItems_ok_iff`).
-/
namespace Lr35902.Assembly

/-! ## Steps -/

/-- One statement leads from a state to another. -/
def Step (surroundings : Surroundings) (state after : State) : Prop :=
  ∃ token rest, state.tokens = token :: rest ∧ state.step surroundings token rest = .ok after

/-- Some statements lead from a state to another. -/
abbrev Reaches (surroundings : Surroundings) : State → State → Prop :=
  Relation.ReflTransGen (Step surroundings)

/-- Every token ahead is one that a run can meet. -/
def State.Live (state : State) : Prop := ∀ token ∈ state.tokens, token.Live

variable {surroundings : Surroundings}

theorem Step.inv {state after : State} (h : Step surroundings state after) :
    ∃ statement rest, Statement.Reads state.tokens statement.command rest ∧
      State.perform surroundings { state with tokens := rest } statement = .ok after := by
  obtain ⟨token, tokens, hTokens, hStep⟩ := h
  unfold State.step at hStep
  split at hStep
  · cases hStep
  · next statement rest hRead =>
    obtain ⟨-, hReads⟩ := Statement.read_ok_iff.1 hRead
    exact ⟨statement, rest, by rw [hTokens]; exact hReads, hStep⟩

/-- What a step does to the program. -/
theorem Step.effect {state after : State} (h : Step surroundings state after) :
    ∃ location command rest, Statement.Reads state.tokens command rest ∧
      Effect location state.program command after.program := by
  obtain ⟨statement, rest, hReads, hPerform⟩ := h.inv
  have hEffect := State.perform_effect hPerform
  exact ⟨statement.location, statement.command, rest, hReads, hEffect⟩

/-- What a step does to the tokens ahead and to the open files. -/
theorem Step.fileEffect {state after : State} (h : Step surroundings state after) :
    ∃ command rest brought, Statement.Reads state.tokens command rest ∧
      FileEffect surroundings state.openFiles command brought after.openFiles ∧
      after.tokens = brought ++ rest := by
  obtain ⟨statement, rest, hReads, hPerform⟩ := h.inv
  obtain ⟨brought, hFiles, hTokens⟩ := State.perform_fileEffect hPerform
  exact ⟨statement.command, rest, brought, hReads, hFiles, hTokens⟩

/-- What a command brings in are the tokens of a file and its mark. -/
theorem FileEffect.live {openFiles others : List Spot} {command : Command} {brought : List Token}
    (h : FileEffect surroundings openFiles command brought others) :
    ∀ token ∈ brought, token.Live := by
  cases h with
  | none _ _ => exact List.forall_mem_nil _
  | endInclude _ => exact List.forall_mem_nil _
  | @use _ _ _ spot _ _ _ _ _ hScan =>
    intro token hMem
    rcases List.mem_append.1 hMem with hFile | hMark
    · exact .inl (scanText_scanned hScan token hFile)
    · obtain rfl := List.mem_singleton.1 hMark
      exact .inr ⟨spot, rfl⟩

theorem Step.live {state after : State} (h : Step surroundings state after) (hLive : state.Live) :
    after.Live := by
  obtain ⟨command, rest, brought, hReads, hFiles, hTokens⟩ := h.fileEffect
  unfold State.Live
  rw [hTokens]
  refine List.forall_mem_append.2 ⟨hFiles.live, ?_⟩
  intro token hMem
  exact hLive token (hReads.rest_subset hMem)

theorem Reaches.live {state after : State} (h : Reaches surroundings state after)
    (hLive : state.Live) : after.Live := by
  induction h with
  | refl => exact hLive
  | tail _ hStep ih => exact hStep.live ih

/-! ## The loop -/

theorem run_nil (budget : Nat) {state : State} (h : state.tokens = []) :
    run surroundings budget state = ⟨state, none⟩ := by
  unfold run
  simp only [h]

theorem run_zero {state : State} {token : Token} {rest : List Token}
    (h : state.tokens = token :: rest) :
    run surroundings 0 state = ⟨state, some .exhausted⟩ := by
  unfold run
  simp only [h]

theorem run_succ (budget : Nat) {state : State} {token : Token} {rest : List Token}
    (h : state.tokens = token :: rest) :
    run surroundings (budget + 1) state =
      match state.step surroundings token rest with
      | .error fault => ⟨state, some fault⟩
      | .ok after => run surroundings budget after := by
  rw [run]
  cases hStep : state.step surroundings token rest with
  | error fault => simp only [h, hStep]
  | ok after => simp only [h, hStep]

theorem run_reaches (surroundings : Surroundings) (budget : Nat) (state : State) :
    Reaches surroundings state (run surroundings budget state).state := by
  induction budget generalizing state with
  | zero =>
    cases hTokens : state.tokens with
    | nil => rw [run_nil 0 hTokens]
    | cons token rest => rw [run_zero hTokens]
  | succ budget ih =>
    cases hTokens : state.tokens with
    | nil => rw [run_nil _ hTokens]
    | cons token rest =>
      rw [run_succ budget hTokens]
      split
      · exact .refl
      · next after hStep => exact .head ⟨token, rest, hTokens, hStep⟩ (ih after)

/-- Induction along a run that succeeds, from the state in which it ends. -/
theorem run_induction {last : State} {motive : State → Prop}
    (done : last.tokens = [] → motive last)
    (step : ∀ {state after token rest}, state.tokens = token :: rest →
      state.step surroundings token rest = .ok after → motive after → motive state)
    {budget : Nat} {state : State} (h : run surroundings budget state = ⟨last, none⟩) :
    motive state := by
  induction budget generalizing state with
  | zero =>
    cases hTokens : state.tokens with
    | nil =>
      rw [run_nil 0 hTokens] at h
      cases h
      exact done hTokens
    | cons token rest =>
      rw [run_zero hTokens] at h
      cases h
  | succ budget ih =>
    cases hTokens : state.tokens with
    | nil =>
      rw [run_nil _ hTokens] at h
      cases h
      exact done hTokens
    | cons token rest =>
      rw [run_succ budget hTokens] at h
      split at h
      · cases h
      · next after hStep => exact step hTokens hStep (ih h)

theorem run_finished {budget : Nat} {state last : State}
    (h : run surroundings budget state = ⟨last, none⟩) : last.tokens = [] :=
  run_induction (motive := fun _ => last.tokens = []) id (fun _ _ hLast => hLast) h

theorem step_rightUnique : Relator.RightUnique (Step surroundings) := by
  rintro state after other ⟨token, rest, hTokens, hAfter⟩ ⟨token', rest', hTokens', hOther⟩
  rw [hTokens] at hTokens'
  cases hTokens'
  rw [hAfter] at hOther
  cases hOther
  rfl

/-- Every state that is reached before a run is over lies on the way to its end. -/
theorem Reaches.onto {state middle last : State} (hMiddle : Reaches surroundings state middle)
    (hLast : Reaches surroundings state last) (hDone : last.tokens = []) :
    Reaches surroundings middle last := by
  -- of two states on one way one comes first, and nothing comes after the end
  rcases hMiddle.total_of_right_unique step_rightUnique hLast with hOn | hBack
  · exact hOn
  · rcases Relation.ReflTransGen.cases_head hBack with rfl | ⟨next, hStep, -⟩
    · exact .refl
    · obtain ⟨token, rest, hTokens, -⟩ := hStep
      rw [hDone] at hTokens
      cases hTokens

/-! ## Resolution -/

section Resolution
variable {symbols : SymbolTable} {lineAt : Location → Option String}

/-- Items, and what they are with all symbols resolved. -/
def Resolving (symbols : SymbolTable) (lineAt : Location → Option String)
    (items resolved : List Item) : Prop :=
  List.Forall₂ (fun item other => resolveItem symbols lineAt item = .ok other) items resolved

theorem resolveItems_ok_iff {done items after : List Item} :
    resolveItems symbols lineAt done items = .ok after ↔
      ∃ resolved, Resolving symbols lineAt items resolved ∧ after = done.reverse ++ resolved := by
  unfold Resolving
  induction items generalizing done with
  | nil => simp [resolveItems, eq_comm]
  | cons item rest ih =>
    rw [resolveItems]
    split
    · next diagnostic hItem => simp [List.forall₂_cons_left_iff, hItem]
    · next other hItem =>
      rw [ih]
      simp only [List.forall₂_cons_left_iff, hItem, Except.ok.injEq]
      constructor
      · rintro ⟨resolved, hRest, rfl⟩
        exact ⟨other :: resolved, ⟨other, resolved, rfl, hRest, rfl⟩, by simp⟩
      · rintro ⟨_, ⟨_, resolved, rfl, hRest, rfl⟩, rfl⟩
        exact ⟨resolved, hRest, by simp⟩

theorem Resolving.split {first more resolved : List Item}
    (h : Resolving symbols lineAt (first ++ more) resolved) :
    ∃ front back, resolved = front ++ back ∧ Resolving symbols lineAt first front ∧
      Resolving symbols lineAt more back :=
  ⟨resolved.take first.length, resolved.drop first.length,
    (List.take_append_drop _ _).symm, (List.forall₂_take_append _ _ _ h.flip).flip,
    (List.forall₂_drop_append _ _ _ h.flip).flip⟩

/-- Resolution keeps an item in its place, and keeps everything but the operands of
instructions. -/
theorem resolveItem_frame {item other : Item} (h : resolveItem symbols lineAt item = .ok other) :
    other.location = item.location ∧ other.address = item.address ∧ other.size = item.size := by
  unfold resolveItem at h
  split at h
  · next hContent =>
    split at h
    · cases h
      simp only [Item.size, hContent, and_self]
    · cases h
  · cases h
    exact ⟨rfl, rfl, rfl⟩

end Resolution

theorem resolve_ok_iff {state : State} {program : Program} :
    (∃ after, state.resolve = .ok after ∧ after.program = program) ↔
      ∃ items, Resolving state.program.symbols state.lineAt state.program.items items ∧
        program = state.program.withItems items := by
  unfold State.resolve
  simp only
  split
  · next diagnostic hItems =>
    constructor
    · rintro ⟨after, hAfter, -⟩
      cases hAfter
    · rintro ⟨items, hResolved, -⟩
      rw [resolveItems_ok_iff.2 ⟨items, hResolved, rfl⟩] at hItems
      cases hItems
  · next found hItems =>
    constructor
    · rintro ⟨after, hAfter, rfl⟩
      obtain ⟨resolved, hResolved, hFound⟩ := resolveItems_ok_iff.1 hItems
      rw [List.reverse_nil, List.nil_append] at hFound
      cases hAfter
      refine ⟨found, by rw [hFound]; exact hResolved, ?_⟩
      split <;> rfl
    · rintro ⟨items, hResolved, rfl⟩
      rw [resolveItems_ok_iff.2 ⟨items, hResolved, rfl⟩] at hItems
      cases hItems
      refine ⟨_, rfl, ?_⟩
      -- whether anything was resolved is reported, and makes no difference to the program
      split <;> rfl

/-! ## Whole assemblies -/

theorem assemble_ok_iff {source : Source} {program : Program} :
    (assemble surroundings source).result = .ok program ↔
      ∃ first last after, start surroundings source = .ok first ∧
        run surroundings (budgetFor surroundings first) first = ⟨last, none⟩ ∧
        last.resolve = .ok after ∧ after.program = program := by
  unfold assemble
  split
  · next fault hStart => simp [hStart]
  · next first hStart =>
    split
    · next last fault hRun =>
      simp only [hStart, Except.ok.injEq, reduceCtorEq, false_iff, not_exists]
      rintro _ last' after ⟨rfl, hRun', -⟩
      rw [hRun] at hRun'
      cases hRun'
    · next last hRun =>
      split
      · next fault hResolve =>
        simp only [hStart, Except.ok.injEq, reduceCtorEq, false_iff, not_exists]
        rintro _ last' after ⟨rfl, hRun', hResolve', -⟩
        rw [hRun] at hRun'
        cases hRun'
        rw [hResolve] at hResolve'
        cases hResolve'
      · next after hResolve =>
        constructor
        · intro h
          cases h
          exact ⟨first, last, after, hStart, hRun, hResolve, rfl⟩
        · rintro ⟨first', last', after', hStart', hRun', hResolve', rfl⟩
          rw [hStart] at hStart'
          cases hStart'
          rw [hRun] at hRun'
          cases hRun'
          rw [hResolve] at hResolve'
          cases hResolve'
          rfl

/-- A constant that is defined before the source is read. -/
def predefined (entry : String × Int) : Symbol := ⟨entry.1, entry.2, none, true⟩

theorem predefine_ok_iff {table after : SymbolTable} {entries : List (String × Int)} :
    predefine table entries = .ok after ↔
      (∀ entry ∈ entries, table.lookup? entry.1 = none ∧ 0 ≤ entry.2 ∧ entry.2 ≤ maxAddress) ∧
        (entries.map Prod.fst).Nodup ∧
        after = ⟨(entries.map predefined).reverse ++ table.defined⟩ := by
  induction entries generalizing table with
  | nil => simp [predefine, eq_comm]
  | cons entry rest ih =>
    obtain ⟨name, value⟩ := entry
    rw [predefine]
    split
    · next extended hDefine =>
      obtain ⟨hNew, hRange, rfl⟩ := SymbolTable.define_ok_iff.1 hDefine
      -- a name that is new to the longer table is new to the table, and not the one just defined
      have hLookup (other : String) :
          SymbolTable.lookup? ⟨⟨name, value, none, true⟩ :: table.defined⟩ other = none ↔
            name ≠ other ∧ table.lookup? other = none := by
        rw [SymbolTable.lookup?_cons]
        split <;> simp_all
      rw [ih]
      simp only [List.forall_mem_cons, List.map_cons, List.nodup_cons, List.mem_map, hLookup]
      constructor
      · rintro ⟨hRest, hNodup, rfl⟩
        refine ⟨⟨⟨hNew, hRange⟩, fun entry hMem => ⟨(hRest entry hMem).1.2, (hRest entry hMem).2⟩⟩,
          ⟨?_, hNodup⟩, by simp [predefined]⟩
        rintro ⟨entry, hMem, hSame⟩
        exact (hRest entry hMem).1.1 hSame.symm
      · rintro ⟨⟨-, hRest⟩, ⟨hFresh, hNodup⟩, rfl⟩
        refine ⟨fun entry hMem => ⟨⟨?_, (hRest entry hMem).1⟩, (hRest entry hMem).2⟩, hNodup,
          by simp [predefined]⟩
        intro hSame
        exact hFresh ⟨entry, hMem, hSame.symm⟩
    · next diagnostic hDefine =>
      constructor
      · intro h
        cases h
      · rintro ⟨hAll, -, -⟩
        have hFirst := hAll (name, value) List.mem_cons_self
        rw [SymbolTable.define_ok_iff.2 ⟨hFirst.1, hFirst.2, rfl⟩] at hDefine
        cases hDefine

/-- A run starts with the tokens of its source, no item, and constants only. -/
theorem start_ok {source : Source} {first : State} (h : start surroundings source = .ok first) :
    first.tokens = source.tokens ∧ first.program.placed = [] ∧ first.program.location = 0 ∧
      predefine .empty source.defines.entries = .ok first.program.symbols := by
  unfold start at h
  split at h
  · cases h
  · split at h
    · cases h
    · next symbols hSymbols =>
      cases h
      exact ⟨rfl, rfl, rfl, hSymbols⟩

theorem start_live {source : Source} {first : State}
    (hScanned : ∀ token ∈ source.tokens, token.lexeme.Scanned)
    (h : start surroundings source = .ok first) : first.Live := by
  intro token hMem
  rw [(start_ok h).1] at hMem
  exact .inl (hScanned token hMem)

end Lr35902.Assembly
