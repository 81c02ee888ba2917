import Lr35902.Proofs.Effect
import Lr35902.Proofs.NameMaps

/-!
Histories of a symbol table. Definitions are proposed to a table one after the other, and some are
refused (`SymbolTable.Proposal`, `afterAll`). Of the proposals whose values fit in 16 bits, the
first one of each name is accepted and no other (`firsts`), so a table never overwrites: it lists
exactly the accepted proposals in order, a name keeps what it was given, and what the next proposal
meets follows from the accepted ones alone (`never_overwrites`).
-/
namespace Lr35902

/-- Whether the value of a symbol fits in 16 bits. -/
def Symbol.Fits (symbol : Symbol) : Prop := 0 ≤ symbol.value ∧ symbol.value ≤ 0xFFFF

instance (symbol : Symbol) : Decidable symbol.Fits := inferInstanceAs (Decidable (_ ∧ _))

namespace SymbolTable

/-- A definition that is asked for, and the line to quote if it is refused. -/
structure Proposal where
  symbol : Symbol
  sourceLine : Option String

/-- The table after a proposal. One that is refused leaves it as it is. -/
def after (table : SymbolTable) (proposal : Proposal) : SymbolTable :=
  match table.define proposal.symbol proposal.sourceLine with
  | .ok extended => extended
  | .error _ => table

def afterAll (table : SymbolTable) (proposals : List Proposal) : SymbolTable :=
  proposals.foldl after table

/-- The answers to proposals that are made one after the other. -/
def answers (table : SymbolTable) : List Proposal → List (Except Diagnostic Symbol)
  | [] => []
  | proposal :: rest =>
    ((table.define proposal.symbol proposal.sourceLine).map fun _ => proposal.symbol) ::
      (table.after proposal).answers rest

/-- Of the proposals that fit, the first one of each name. -/
def firsts (proposals : List Proposal) : List Symbol :=
  ((proposals.map Proposal.symbol).filter fun symbol => decide symbol.Fits).eraseDupsBy
    fun symbol other => symbol.name == other.name

/-- A table tells of some symbols and of no others, in their order: one by one, by their number, as
maps of all values and of the labels, and by name. -/
structure Lists (table : SymbolTable) (listed : List Symbol) : Prop where
  symbols_eq : table.symbols = listed
  size_eq : table.size = listed.length
  values_eq : table.values = .ofList (listed.map fun symbol => (symbol.name, symbol.value))
  labels_eq : table.labels = .ofList ((listed.filter fun symbol => !symbol.isConstant).map
    fun symbol => (symbol.name, symbol.value))
  lookup?_iff : ∀ name symbol,
    table.lookup? name = some symbol ↔ symbol ∈ listed ∧ symbol.name = name

/-- What a proposal meets where some symbols are defined: it is accepted exactly if its name is new
and its value fits. A known name is refused with the place of its definition, whatever the value; a
new one is refused for its value only. -/
structure Judged (known : List Symbol) (proposal : Proposal)
    (answer : Except Diagnostic SymbolTable) : Prop where
  accepted_iff : (∃ extended, answer = .ok extended) ↔
    (∀ symbol ∈ known, symbol.name ≠ proposal.symbol.name) ∧ proposal.symbol.Fits
  known_name : ∀ symbol ∈ known, symbol.name = proposal.symbol.name →
    answer = .error (.duplicate proposal.symbol.name proposal.symbol.location symbol.location
      proposal.sourceLine)
  wide_value : (∀ symbol ∈ known, symbol.name ≠ proposal.symbol.name) → ¬proposal.symbol.Fits →
    answer = .error ⟨.wideSymbol proposal.symbol.name proposal.symbol.value,
      proposal.symbol.location, none, proposal.sourceLine⟩

/-! ## One proposal -/

section
variable {table : SymbolTable} {proposal : Proposal} {name : String} {symbol : Symbol}

theorem lookup?_eq_none_iff_forall :
    table.lookup? name = none ↔ ∀ symbol ∈ table.symbols, symbol.name ≠ name := by
  simp [lookup?, symbols]

theorem mem_of_lookup? (h : table.lookup? name = some symbol) :
    symbol ∈ table.symbols ∧ symbol.name = name := by
  refine ⟨List.mem_reverse.2 (List.mem_of_find?_eq_some h), ?_⟩
  have hFound := List.find?_some h
  exact eq_of_beq hFound

theorem after_of_accepted (hNew : table.lookup? proposal.symbol.name = none)
    (hFits : proposal.symbol.Fits) :
    table.after proposal = ⟨proposal.symbol :: table.defined⟩ := by
  rw [after, define_ok_iff.2 ⟨hNew, hFits, rfl⟩]

theorem after_of_refused
    (h : ¬(table.lookup? proposal.symbol.name = none ∧ proposal.symbol.Fits)) :
    table.after proposal = table := by
  unfold after
  split
  · next extended hDefine =>
    obtain ⟨hNew, hFits, -⟩ := define_ok_iff.1 hDefine
    exact absurd ⟨hNew, hFits⟩ h
  · rfl

/-- A proposal leaves what a name was given before. -/
theorem lookup?_after (h : table.lookup? name = some symbol) (proposal : Proposal) :
    (table.after proposal).lookup? name = some symbol := by
  by_cases hAccepted : table.lookup? proposal.symbol.name = none ∧ proposal.symbol.Fits
  · have hOther : proposal.symbol.name ≠ name := by
      intro hSame
      rw [hSame, h] at hAccepted
      cases hAccepted.1
    rw [after_of_accepted hAccepted.1 hAccepted.2, lookup?_cons, if_neg hOther]
    exact h
  · rw [after_of_refused hAccepted]
    exact h

end

/-! ## Histories -/

section
variable {table : SymbolTable} {name : String} {symbol : Symbol}

theorem afterAll_append (table : SymbolTable) (proposals more : List Proposal) :
    table.afterAll (proposals ++ more) = (table.afterAll proposals).afterAll more :=
  List.foldl_append

theorem lookup?_afterAll (h : table.lookup? name = some symbol) (proposals : List Proposal) :
    (table.afterAll proposals).lookup? name = some symbol := by
  induction proposals generalizing table with
  | nil => exact h
  | cons proposal rest ih => exact ih (lookup?_after h proposal)

/-- Names stay distinct. -/
theorem nodup_after (h : (table.symbols.map Symbol.name).Nodup) (proposal : Proposal) :
    ((table.after proposal).symbols.map Symbol.name).Nodup := by
  by_cases hAccepted : table.lookup? proposal.symbol.name = none ∧ proposal.symbol.Fits
  · have hNew : proposal.symbol.name ∉ table.symbols.map Symbol.name := by
      rw [List.mem_map]
      rintro ⟨symbol, hMem, hSame⟩
      exact lookup?_eq_none_iff_forall.1 hAccepted.1 symbol hMem hSame
    rw [after_of_accepted hAccepted.1 hAccepted.2, symbols, List.reverse_cons, List.map_append,
      List.map_singleton, ← List.concat_eq_append]
    exact h.concat hNew
  · rw [after_of_refused hAccepted]
    exact h

theorem nodup_afterAll (h : (table.symbols.map Symbol.name).Nodup) (proposals : List Proposal) :
    ((table.afterAll proposals).symbols.map Symbol.name).Nodup := by
  induction proposals generalizing table with
  | nil => exact h
  | cons proposal rest ih => exact ih (nodup_after h proposal)

/-- A table has what it had and then the proposals that it accepted. -/
theorem symbols_afterAll (table : SymbolTable) (proposals : List Proposal) :
    (table.afterAll proposals).symbols =
      table.symbols ++ (table.answers proposals).filterMap Except.toOption := by
  induction proposals generalizing table with
  | nil => exact (List.append_nil _).symm
  | cons proposal rest ih =>
    have hRest := ih (table.after proposal)
    rw [afterAll, List.foldl_cons, answers]
    refine hRest.trans ?_
    cases hDefine : table.define proposal.symbol proposal.sourceLine with
    | error diagnostic =>
      rw [after, hDefine]
      rfl
    | ok extended =>
      rw [after, hDefine]
      dsimp only
      rw [symbols_define hDefine, List.append_assoc]
      rfl

/-- A table accepts what removing repeated names keeps: both look at what they have kept before. -/
theorem symbols_afterAll_loop (defined : List Symbol) (proposals : List Proposal) :
    (afterAll ⟨defined⟩ proposals).symbols =
      List.eraseDupsBy.loop (fun symbol other => symbol.name == other.name)
        ((proposals.map Proposal.symbol).filter fun symbol => decide symbol.Fits) defined := by
  induction proposals generalizing defined with
  | nil => rfl
  | cons proposal rest ih =>
    rw [afterAll, List.foldl_cons, List.map_cons]
    by_cases hFits : proposal.symbol.Fits
    · rw [List.filter_cons_of_pos (by simpa using hFits), List.eraseDupsBy.loop]
      cases hKnown : defined.any fun other => proposal.symbol.name == other.name with
      | true =>
        obtain ⟨other, hMem, hSame⟩ := List.any_eq_true.1 hKnown
        have hFound : lookup? ⟨defined⟩ proposal.symbol.name ≠ none := by
          intro hNew
          exact lookup?_eq_none_iff_forall.1 hNew other (List.mem_reverse.2 hMem)
            (eq_of_beq hSame).symm
        rw [after_of_refused (fun h => hFound h.1)]
        exact ih defined
      | false =>
        have hNew : lookup? ⟨defined⟩ proposal.symbol.name = none := by
          refine lookup?_eq_none_iff_forall.2 ?_
          intro other hMem hSame
          refine List.any_eq_false.1 hKnown other (List.mem_reverse.1 hMem) ?_
          exact beq_iff_eq.2 hSame.symm
        rw [after_of_accepted hNew hFits]
        exact ih (proposal.symbol :: defined)
    · rw [List.filter_cons_of_neg (by simpa using hFits), after_of_refused (fun h => hFits h.2)]
      exact ih defined

theorem symbols_afterAll_empty (proposals : List Proposal) :
    (empty.afterAll proposals).symbols = firsts proposals :=
  symbols_afterAll_loop [] proposals

end

/-! ## What a table tells -/

section
variable {table : SymbolTable}

theorem lookup?_eq_some_iff_of_nodup (h : (table.symbols.map Symbol.name).Nodup) {name : String}
    {symbol : Symbol} :
    table.lookup? name = some symbol ↔ symbol ∈ table.symbols ∧ symbol.name = name := by
  constructor
  · exact mem_of_lookup?
  · rintro ⟨hMem, rfl⟩
    cases hFound : table.lookup? symbol.name with
    | none => exact absurd rfl (lookup?_eq_none_iff_forall.1 hFound symbol hMem)
    | some other =>
      obtain ⟨hOther, hSame⟩ := mem_of_lookup? hFound
      rw [List.inj_on_of_nodup_map h hOther hMem hSame]

theorem lists_symbols (h : (table.symbols.map Symbol.name).Nodup) : table.Lists table.symbols where
  symbols_eq := rfl
  size_eq := (List.length_reverse).symm
  values_eq := by
    refine (NameMap.ofList_eq_of_nodup ?_).symm
    rw [List.map_map]
    exact h
  labels_eq := by
    refine (NameMap.ofList_eq_of_nodup ?_).symm
    rw [List.map_map]
    exact (List.filter_sublist.map Symbol.name).nodup h
  lookup?_iff _ _ := lookup?_eq_some_iff_of_nodup h

/-- What a proposal meets follows from the symbols that are defined. -/
theorem judged_define (h : (table.symbols.map Symbol.name).Nodup) (proposal : Proposal) :
    Judged table.symbols proposal (table.define proposal.symbol proposal.sourceLine) where
  accepted_iff := by
    simp only [define_ok_iff, lookup?_eq_none_iff_forall, exists_and_left, exists_eq, and_true]
    rfl
  known_name symbol hMem hSame := by
    rw [define, (lookup?_eq_some_iff_of_nodup h).2 ⟨hMem, hSame⟩]
  wide_value hNew hWide := by
    rw [define, lookup?_eq_none_iff_forall.2 hNew]
    exact if_neg hWide

end

/-- A table never overwrites. Whatever was proposed to it, it lists exactly the proposals that it
accepted, in their order, and these are the first ones of their names that fit. The next proposal is
judged by them, and if it is refused it leaves the table as it is. A name that is defined keeps its
symbol, whatever is proposed afterwards. -/
theorem never_overwrites (proposals : List Proposal) :
    (empty.afterAll proposals).Lists (firsts proposals) ∧
      (empty.answers proposals).filterMap Except.toOption = firsts proposals ∧
      (∀ proposal, Judged (firsts proposals) proposal
          ((empty.afterAll proposals).define proposal.symbol proposal.sourceLine) ∧
        ∀ diagnostic, (empty.afterAll proposals).define proposal.symbol proposal.sourceLine =
            .error diagnostic →
          empty.afterAll (proposals ++ [proposal]) = empty.afterAll proposals) ∧
      ∀ name symbol more, (empty.afterAll proposals).lookup? name = some symbol →
        (empty.afterAll (proposals ++ more)).lookup? name = some symbol := by
  have hEmpty : (empty.symbols.map Symbol.name).Nodup := List.nodup_nil
  have hNames := nodup_afterAll hEmpty proposals
  have hSymbols := symbols_afterAll_empty proposals
  refine ⟨hSymbols ▸ lists_symbols hNames, ?_, ?_, ?_⟩
  · rw [← hSymbols, symbols_afterAll]
    rfl
  · intro proposal
    refine ⟨hSymbols ▸ judged_define hNames proposal, ?_⟩
    intro diagnostic hRefused
    rw [afterAll_append]
    show (empty.afterAll proposals).after proposal = _
    rw [after, hRefused]
  · intro name symbol more hFound
    rw [afterAll_append]
    exact lookup?_afterAll hFound more

/-- A value that does not fit leaves its name free for the next proposal, and that one keeps it. -/
example :
    let proposals : List Proposal := [⟨⟨"x", 0x10000, none, true⟩, none⟩,
      ⟨⟨"x", 1, some ⟨"a.asm", 1, 1⟩, false⟩, none⟩, ⟨⟨"y", 2, none, true⟩, none⟩,
      ⟨⟨"x", -1, none, true⟩, none⟩]
    firsts proposals = [⟨"x", 1, some ⟨"a.asm", 1, 1⟩, false⟩, ⟨"y", 2, none, true⟩] := by
  decide

end SymbolTable
end Lr35902
