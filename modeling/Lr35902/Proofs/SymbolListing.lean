import Lr35902.Proofs.LibraryOutput.Sessions
import Lr35902.Proofs.Listing.Spelling

/-!
The symbol listing as an image of the table. A line of the listing is read back from its words: a
name, an equals sign, a number and perhaps a mark (`SymbolTable.readLine?`). Names that are
identifiers and values of 16 bits survive this, however far the name is filled up
(`readLine?_lineOf`), and what the listing shows is the table in order of value and name
(`SymbolTable.Shows`). A table without repeated names has only one such order, so equal listings
come from equal sets of definitions and from no others (`Attempt.listing_faithful`).
-/
namespace Lr35902

open TwoPass (Definition definitionOf definitionsOf)

namespace SymbolTable

/-- The words of a line: what stands between spaces. -/
def wordsOf (line : List Char) : List (List Char) :=
  (line.splitOn ' ').filter fun word => !word.isEmpty

/-- A dollar sign and hexadecimal digits, read as a number. -/
def readValue? : List Char → Option Int
  | '$' :: digits =>
    if !digits.isEmpty && digits.all fun c => decide (Text.digitValue c < 16) then
      some (Text.valueOf 16 digits)
    else none
  | _ => none

/-- The mark of a constant. -/
def constantMark : List Char := "(equ)".toList

/-- The definition that a line shows. -/
def readLine? (line : List Char) : Option Definition :=
  match wordsOf line with
  | [name, ['='], value] =>
    (readValue? value).map fun value => ⟨String.ofList name, value, false⟩
  | [name, ['='], value, mark] =>
    if mark = constantMark then
      (readValue? value).map fun value => ⟨String.ofList name, value, true⟩
    else none
  | _ => none

/-- By value, and by name, code point by code point, where values are equal. -/
def Precedes (first second : Definition) : Prop :=
  first.value < second.value ∨ first.value = second.value ∧ first.name ≤ second.name

/-- A text shows some definitions: after the heading it has one line for each and no more, the lines
read back as the definitions, and these come in order. -/
def Shows (text : String) (shown : List Definition) : Prop :=
  shown.Pairwise Precedes ∧
    ∃ lines, text.toList.splitOn '\n' = "; symbol table".toList :: lines ++ [[]] ∧
      lines.map readLine? = shown.map some

/-! ## Words -/

section
variable {word rest : List Char}

theorem wordsOf_word (hSome : word ≠ []) (hWord : ' ' ∉ word) (rest : List Char) :
    wordsOf (word ++ ' ' :: rest) = word :: wordsOf rest := by
  rw [wordsOf, List.splitOn_append_cons_self_of_not_mem hWord,
    List.filter_cons_of_pos (by simpa using hSome)]
  rfl

theorem wordsOf_last (hSome : word ≠ []) (hWord : ' ' ∉ word) : wordsOf word = [word] := by
  rw [wordsOf, List.splitOn_eq_singleton hWord, List.filter_cons_of_pos (by simpa using hSome)]
  rfl

theorem wordsOf_space (rest : List Char) : wordsOf (' ' :: rest) = wordsOf rest := by
  rw [wordsOf, ← List.nil_append (' ' :: rest),
    List.splitOn_append_cons_self_of_not_mem List.not_mem_nil]
  rfl

theorem wordsOf_fill (count : Nat) (rest : List Char) :
    wordsOf (List.replicate count ' ' ++ rest) = wordsOf rest := by
  induction count with
  | zero => rfl
  | succ count ih => rw [List.replicate_succ, List.cons_append, wordsOf_space, ih]

end

/-! ## Numbers -/

section
variable {value : Int}

/-- A number that is not negative is filled up with zeros. -/
theorem toList_hex (width : Nat) (h : 0 ≤ value) :
    ∃ zeros, (Text.hex width value).toList =
      List.replicate zeros '0' ++ Text.digits 16 value.natAbs := by
  refine ⟨width - (Text.digits 16 value.natAbs).length, ?_⟩
  simp [Text.hex, Int.not_lt.2 h]

theorem valueOf_zeros (base zeros : Nat) (digits : List Char) :
    Text.valueOf base (List.replicate zeros '0' ++ digits) = Text.valueOf base digits := by
  induction zeros with
  | zero => rfl
  | succ zeros ih =>
    rw [← ih, List.replicate_succ]
    simp [Text.valueOf, Text.digitValue]

theorem digitValue_of_mem_hex (width : Nat) (h : 0 ≤ value) :
    ∀ c ∈ (Text.hex width value).toList, Text.digitValue c < 16 := by
  obtain ⟨zeros, hHex⟩ := toList_hex width h
  rw [hHex]
  refine List.forall_mem_append.2 ⟨?_, Text.digitValue_of_mem_digits (by decide) (by decide) _⟩
  intro c hMem
  rw [List.eq_of_mem_replicate hMem]
  decide

theorem readValue?_hex (width : Nat) (h : 0 ≤ value) :
    readValue? ('$' :: (Text.hex width value).toList) = some value := by
  have hDigits := digitValue_of_mem_hex width h
  obtain ⟨zeros, hHex⟩ := toList_hex width h
  have hSome : (Text.hex width value).toList ≠ [] := by
    rw [hHex]
    exact List.append_ne_nil_of_right_ne_nil _ (Text.digits_ne_nil 16 _)
  have hValue : Text.valueOf 16 (Text.hex width value).toList = value.natAbs := by
    rw [hHex, valueOf_zeros, Text.valueOf_digits (by decide) (by decide)]
  have hAll : ((Text.hex width value).toList.all fun c => decide (Text.digitValue c < 16)) = true :=
    List.all_eq_true.2 fun c hMem => decide_eq_true (hDigits c hMem)
  rw [readValue?, hAll, hValue, Int.natAbs_of_nonneg h]
  simp [hSome]

end

/-! ## Lines -/

/-- The line of a definition. -/
def lineOf (definition : Definition) : List Char :=
  (listingLine ⟨definition.name, definition.value, none, definition.isConstant⟩).toList

/-- Whether a definition has an identifier for its name and a value that is not negative. -/
structure Legible (definition : Definition) : Prop where
  name : Scan.isWordText definition.name.toList = true
  value : 0 ≤ definition.value

section
variable {definition : Definition}

theorem lineOf_eq (definition : Definition) :
    lineOf definition =
      definition.name.toList ++ ' ' ::
        (List.replicate (nameWidth - definition.name.length) ' ' ++
          '=' :: ' ' :: '$' :: ((Text.hex 4 definition.value).toList ++
            if definition.isConstant then ' ' :: ' ' :: constantMark else [])) := by
  have hFill (count : Nat) (rest : List Char) :
      List.replicate count ' ' ++ ' ' :: rest = ' ' :: (List.replicate count ' ' ++ rest) := by
    rw [List.append_cons, ← List.replicate_succ', List.replicate_succ, List.cons_append]
  rw [← hFill]
  cases hConstant : definition.isConstant <;>
    simp [lineOf, listingLine, hConstant, constantMark]

/-- What has no digit and is no identifier does not occur in a name or a number. -/
theorem Legible.not_mem (h : Legible definition) {c : Char}
    (hName : Scan.isIdentifierChar c = false) (hValue : Text.digitValue c = 16) :
    c ∉ definition.name.toList ∧ c ∉ (Text.hex 4 definition.value).toList := by
  constructor
  · intro hMem
    rw [Scan.isIdentifierChar_of_isWordText h.name c hMem] at hName
    cases hName
  · intro hMem
    have hDigit := digitValue_of_mem_hex 4 h.value c hMem
    omega

theorem Legible.readLine?_lineOf (h : Legible definition) :
    readLine? (lineOf definition) = some definition := by
  obtain ⟨hName, hHex⟩ := h.not_mem (c := ' ') rfl rfl
  have hSome : definition.name.toList ≠ [] := by
    intro hNil
    have hWord := h.name
    rw [hNil] at hWord
    cases hWord
  have hEquals (rest : List Char) : wordsOf ('=' :: ' ' :: rest) = ['='] :: wordsOf rest :=
    @wordsOf_word ['='] (List.cons_ne_nil _ _) (by decide) rest
  have hMark : wordsOf constantMark = [constantMark] := wordsOf_last (by decide) (by decide)
  have hNumber : ' ' ∉ '$' :: (Text.hex 4 definition.value).toList := by simpa using hHex
  have hValue := readValue?_hex 4 h.value
  unfold readLine?
  rw [lineOf_eq, wordsOf_word hSome hName, wordsOf_fill, hEquals, ← List.cons_append]
  cases hConstant : definition.isConstant with
  | false =>
    rw [if_neg (by decide), List.append_nil, wordsOf_last (List.cons_ne_nil _ _) hNumber]
    simp only [hValue, Option.map_some, String.ofList_toList, ← hConstant]
  | true =>
    rw [if_pos rfl, wordsOf_word (List.cons_ne_nil _ _) hNumber, wordsOf_space, hMark]
    simp only [hValue, Option.map_some, String.ofList_toList, ← hConstant, if_true]

theorem Legible.not_lineEnd (h : Legible definition) : '\n' ∉ lineOf definition := by
  obtain ⟨hName, hHex⟩ := h.not_mem (c := '\n') rfl rfl
  have hMark : '\n' ∉ if definition.isConstant then ' ' :: ' ' :: constantMark else [] := by
    cases definition.isConstant <;> decide
  simp [lineOf_eq, hName, hHex, hMark]

end

/-! ## The order -/

section
variable {first second third : Definition}

theorem Precedes.trans (h : Precedes first second) (hNext : Precedes second third) :
    Precedes first third := by
  rcases h with hLess | ⟨hSame, hName⟩
  · rcases hNext with hNextLess | ⟨hNextSame, -⟩
    · exact .inl (by omega)
    · exact .inl (by omega)
  · rcases hNext with hNextLess | ⟨hNextSame, hNextName⟩
    · exact .inl (by omega)
    · exact .inr ⟨hSame.trans hNextSame, String.le_trans hName hNextName⟩

theorem precedes_total (first second : Definition) :
    Precedes first second ∨ Precedes second first := by
  rcases Int.lt_trichotomy first.value second.value with hLess | hSame | hGreater
  · exact .inl (.inl hLess)
  · rcases String.le_total first.name second.name with hName | hName
    · exact .inl (.inr ⟨hSame, hName⟩)
    · exact .inr (.inr ⟨hSame.symm, hName⟩)
  · exact .inr (.inl hGreater)

theorem Precedes.name_eq (h : Precedes first second) (hBack : Precedes second first) :
    first.name = second.name := by
  rcases h with hLess | ⟨hSame, hName⟩
  · rcases hBack with hMore | ⟨hSame, -⟩ <;> omega
  · rcases hBack with hMore | ⟨-, hBackName⟩
    · omega
    · exact String.le_antisymm hName hBackName

end

theorem listingLE_iff {symbol other : Symbol} :
    listingLE symbol other = true ↔ Precedes (definitionOf symbol) (definitionOf other) := by
  simp [listingLE, Precedes, definitionOf]

/-- The definitions of a table in the order of its listing. -/
def ordered (table : SymbolTable) : List Definition :=
  (table.symbols.mergeSort listingLE).map definitionOf

theorem ordered_perm (table : SymbolTable) :
    table.ordered.Perm (table.symbols.map definitionOf) :=
  (List.mergeSort_perm _ _).map definitionOf

theorem ordered_pairwise (table : SymbolTable) : table.ordered.Pairwise Precedes := by
  rw [ordered, List.pairwise_map]
  refine (List.pairwise_mergeSort ?_ ?_ table.symbols).imp listingLE_iff.1
  · intro first second third hFirst hSecond
    exact listingLE_iff.2 ((listingLE_iff.1 hFirst).trans (listingLE_iff.1 hSecond))
  · intro first second
    rw [Bool.or_eq_true, listingLE_iff, listingLE_iff]
    exact precedes_total _ _

/-- Definitions without a repeated name can be ordered in one way only. -/
theorem eq_of_perm_of_pairwise {shown others : List Definition} (hPerm : shown.Perm others)
    (hDistinct : (others.map Definition.name).Nodup) (hShown : shown.Pairwise Precedes)
    (hOthers : others.Pairwise Precedes) : shown = others := by
  refine hPerm.eq_of_pairwise ?_ hShown hOthers
  intro first second hFirst hSecond hLess hMore
  exact List.inj_on_of_nodup_map hDistinct (hPerm.subset hFirst) hSecond (hLess.name_eq hMore)

/-! ## The listing -/

theorem intercalate_concat {x : Char} {lines : List (List Char)} (h : lines ≠ []) :
    [x].intercalate lines ++ [x] = [x].intercalate (lines ++ [[]]) := by
  induction lines with
  | nil => exact absurd rfl h
  | cons line rest ih =>
    cases rest with
    | nil => simp [List.intercalate_cons_cons]
    | cons next rest =>
      have hRest := ih (List.cons_ne_nil _ _)
      rw [List.intercalate_cons_cons, List.append_assoc, hRest]
      simp [List.intercalate_cons_cons]

theorem toList_listing (table : SymbolTable) :
    table.listing.toList =
      ['\n'].intercalate ("; symbol table".toList :: table.ordered.map lineOf ++ [[]]) := by
  have hLines : ((table.symbols.mergeSort listingLE).map fun symbol =>
      (listingLine symbol).toList) = table.ordered.map lineOf := by
    rw [ordered, List.map_map]
    rfl
  rw [← intercalate_concat (List.cons_ne_nil _ _), ← hLines]
  simp [listing, String.toList_intercalate, Function.comp_def]

theorem shows_listing {table : SymbolTable}
    (h : ∀ definition ∈ table.symbols.map definitionOf, Legible definition) :
    Shows table.listing table.ordered := by
  have hLegible : ∀ definition ∈ table.ordered, Legible definition := by
    intro definition hMem
    exact h definition (table.ordered_perm.subset hMem)
  refine ⟨table.ordered_pairwise, table.ordered.map lineOf, ?_, ?_⟩
  · rw [toList_listing]
    refine List.splitOn_intercalate '\n' ?_ (List.cons_ne_nil _ _)
    refine List.forall_mem_append.2 ⟨List.forall_mem_cons.2 ⟨by decide, ?_⟩, ?_⟩
    · intro line hMem
      obtain ⟨definition, hDefinition, rfl⟩ := List.mem_map.1 hMem
      exact (hLegible definition hDefinition).not_lineEnd
    · exact List.forall_mem_singleton.2 List.not_mem_nil
  · rw [List.map_map]
    refine List.map_congr_left ?_
    intro definition hMem
    exact (hLegible definition hMem).readLine?_lineOf

theorem Shows.unique {text : String} {shown others : List Definition} (h : Shows text shown)
    (hOther : Shows text others) : shown = others := by
  obtain ⟨-, lines, hLines, hShown⟩ := h
  obtain ⟨-, otherLines, hOtherLines, hOthers⟩ := hOther
  have hSame : lines = otherLines :=
    (List.cons.inj (List.append_cancel_right (hLines.symm.trans hOtherLines))).2
  subst hSame
  exact List.map_injective_iff.2 (Option.some_injective Definition) (hShown.symm.trans hOthers)

/-- The listing tells exactly which definitions a table holds, but not in which order they came. -/
theorem listing_eq_iff {table other : SymbolTable}
    (h : ∀ definition ∈ table.symbols.map definitionOf, Legible definition)
    (hOther : ∀ definition ∈ other.symbols.map definitionOf, Legible definition)
    (hDistinct : ((table.symbols.map definitionOf).map Definition.name).Nodup)
    (hOtherDistinct : ((other.symbols.map definitionOf).map Definition.name).Nodup) :
    table.listing = other.listing ↔ ∀ definition,
      definition ∈ table.symbols.map definitionOf ↔
        definition ∈ other.symbols.map definitionOf := by
  constructor
  · intro hSame definition
    have hShows := shows_listing h
    rw [hSame] at hShows
    rw [← table.ordered_perm.mem_iff, ← other.ordered_perm.mem_iff,
      hShows.unique (shows_listing hOther)]
  · intro hSame
    have hPerm : (table.symbols.map definitionOf).Perm (other.symbols.map definitionOf) :=
      (List.perm_ext_iff_of_nodup hDistinct.of_map hOtherDistinct.of_map).2 hSame
    have hNames : (other.ordered.map Definition.name).Nodup :=
      (other.ordered_perm.map Definition.name).nodup_iff.2 hOtherDistinct
    have hOrdered : table.ordered = other.ordered :=
      eq_of_perm_of_pairwise
        ((table.ordered_perm.trans hPerm).trans other.ordered_perm.symm) hNames
        table.ordered_pairwise other.ordered_pairwise
    rw [← String.toList_inj, toList_listing, toList_listing, hOrdered]

end SymbolTable

/-- An attempt succeeds, and its program has identifiers for names. -/
structure Attempt.Names (attempt : Attempt) (program : Program) : Prop where
  succeeds : ∃ code, attempt.answer.result = .ok code
  program_eq : attempt.answer.session.program = .ok program
  identifiers : ∀ symbol ∈ program.symbols.symbols, Scan.isWordText symbol.name.toList = true

namespace Attempt

theorem Names.definitions {attempt : Attempt} {program : Program} (h : attempt.Names program) :
    attempt.answer.session.listing = .ok program.symbols.listing ∧
      (∀ definition ∈ definitionsOf program, SymbolTable.Legible definition) ∧
      ((definitionsOf program).map Definition.name).Nodup := by
  obtain ⟨⟨code, hCode⟩, hProgram, hNames⟩ := h
  obtain ⟨_, _, _, _, _, _, found, -, -, -, -, hRange, hAccount, hOutput⟩ := output_of_answer hCode
  have hFound : attempt.answer.session.program = .ok found := congrArg Account.program hAccount
  obtain rfl : found = program := Except.ok.inj (hFound.symm.trans hProgram)
  refine ⟨congrArg Account.listing hAccount, ?_, hOutput.distinct⟩
  intro definition hMem
  obtain ⟨symbol, hSymbol, rfl⟩ := List.mem_map.1 hMem
  exact ⟨hNames symbol hSymbol, (hRange symbol hSymbol).1⟩

/-- The symbol listing is a faithful image of the table. It shows all definitions of the program, in
order of value and name, and each line reads back as its definition. Two programs have the same
listing exactly if they hold the same definitions, whatever the order in which these came. -/
theorem listing_faithful {attempt other : Attempt} {program otherProgram : Program}
    (h : attempt.Names program) (hOther : other.Names otherProgram) :
    ∃ text otherText shown,
      attempt.answer.session.listing = .ok text ∧ other.answer.session.listing = .ok otherText ∧
      shown.Perm (definitionsOf program) ∧ SymbolTable.Shows text shown ∧
      (text = otherText ↔ ∀ definition,
        definition ∈ definitionsOf program ↔ definition ∈ definitionsOf otherProgram) := by
  obtain ⟨hListing, hLegible, hDistinct⟩ := h.definitions
  obtain ⟨hOtherListing, hOtherLegible, hOtherDistinct⟩ := hOther.definitions
  exact ⟨_, _, program.symbols.ordered, hListing, hOtherListing, program.symbols.ordered_perm,
    SymbolTable.shows_listing hLegible,
    SymbolTable.listing_eq_iff hLegible hOtherLegible hDistinct hOtherDistinct⟩

theorem names_of_definitions {attempt : Attempt} {code : Bytes} {definitions : List Definition}
    (hRun : (attempt.answer.result.toOption,
      attempt.answer.session.program.toOption.map definitionsOf) = (some code, some definitions))
    (hNames : (definitions.all fun entry => Scan.isWordText entry.name.toList) = true) :
    ∃ program, attempt.Names program ∧ definitionsOf program = definitions := by
  obtain ⟨hCode, hProgram⟩ := Prod.mk.inj hRun
  obtain ⟨program, hFound, rfl⟩ := Option.map_eq_some_iff.1 hProgram
  refine ⟨program, ⟨⟨code, eq_ok_of_toOption hCode⟩,
    eq_ok_of_toOption hFound, ?_⟩, rfl⟩
  intro symbol hMem
  exact List.all_eq_true.1 hNames (definitionOf symbol) (List.mem_map_of_mem hMem)

/-- Two texts define the same names in another order, one of them wider than the column of names and
two of them with the same value. -/
theorem listing_faithful_reordered :
    let attempt : Attempt := ⟨.plain .standard false, .empty,
      .text ".equ SPEED, 1\nstart: nop\na_name_beyond_the_column_of_names:" "<input>"⟩
    let other : Attempt := ⟨.plain .standard false, .empty,
      .text "start: nop\na_name_beyond_the_column_of_names:\n.equ SPEED, 1" "<input>"⟩
    ∃ program otherProgram text shown, attempt.Names program ∧ other.Names otherProgram ∧
      attempt.answer.session.listing = .ok text ∧ other.answer.session.listing = .ok text ∧
      shown.Perm (definitionsOf program) ∧ SymbolTable.Shows text shown := by
  intro attempt other
  obtain ⟨program, hNames, hDefinitions⟩ := @names_of_definitions attempt [0]
    [⟨"SPEED", 1, true⟩, ⟨"start", 0, false⟩, ⟨"a_name_beyond_the_column_of_names", 1, false⟩]
    (by decide +kernel) (by decide)
  obtain ⟨otherProgram, hOtherNames, hOtherDefinitions⟩ := @names_of_definitions other [0]
    [⟨"start", 0, false⟩, ⟨"a_name_beyond_the_column_of_names", 1, false⟩, ⟨"SPEED", 1, true⟩]
    (by decide +kernel) (by decide)
  obtain ⟨text, otherText, shown, hListing, hOtherListing, hPerm, hShows, hSame⟩ :=
    listing_faithful hNames hOtherNames
  obtain rfl : text = otherText := by
    rw [hSame, hDefinitions, hOtherDefinitions]
    intro definition
    exact List.Perm.mem_iff (by decide)
  exact ⟨program, otherProgram, text, shown, hNames, hOtherNames, hListing, hOtherListing, hPerm,
    hShows⟩

end Attempt
end Lr35902
