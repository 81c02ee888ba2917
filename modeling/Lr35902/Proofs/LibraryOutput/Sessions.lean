import Lr35902.Proofs.Container.Canonical
import Lr35902.Proofs.LibraryOutput.Names
import Lr35902.Proofs.SessionResults
import Lr35902.Proofs.TwoPass.Tables

/-!
The library of an assembly. A library publishes clauses when it has their code and, for every label
among them and nothing else, the address at which the label stands (`Library.Publishes`). The names
of labels are distinct, within 16 bits, and as few and short as the text and the files allow, so the
library of an assembly can be stored (`storable_ofLabels`); hence whatever assembles has a library
that is read back and publishes what was assembled (`Attempt.publishes`).
-/
namespace Lr35902

open TwoPass
open FileSystem (byteLength)

/-! ## Labels of clauses -/

namespace TwoPass

section
variable {defines : List (String × Int)} {placed : List (Int × Clause)} {name : String}
  {address : Int}

theorem definition?_label_iff {clause : Clause} {place : Int} :
    clause.definition? place = some ⟨name, address, false⟩ ↔
      place = address ∧ clause = .label name := by
  cases clause with
  | label other => simp [Clause.definition?, and_comm]
  | _ => simp [Clause.definition?]

/-- The labels of a table are those of its clauses, at their addresses. -/
theorem mem_labelsOf_definitions :
    (name, address) ∈ (labelsOf (definitions defines placed)).entries ↔
      (address, .label name) ∈ placed := by
  have hTable : (name, address) ∈ (labelsOf (definitions defines placed)).entries ↔
      ⟨name, address, false⟩ ∈ definitions defines placed := by
    simp only [labelsOf, List.mem_map, List.mem_filter]
    constructor
    · rintro ⟨⟨_, _, isConstant⟩, ⟨hMem, hLabel⟩, hEntry⟩
      cases hEntry
      cases isConstant with
      | false => exact hMem
      | true => cases hLabel
    · intro hMem
      exact ⟨_, ⟨hMem, rfl⟩, rfl⟩
  rw [hTable, definitions, List.mem_append, definedIn, List.mem_filterMap]
  constructor
  · rintro (hBefore | ⟨place, hPlace, hDefinition⟩)
    · -- what is defined beforehand is no label
      obtain ⟨entry, -, hEntry⟩ := List.mem_map.1 hBefore
      cases hEntry
    · obtain ⟨rfl, hLabel⟩ := definition?_label_iff.1 hDefinition
      rw [← hLabel]
      exact hPlace
  · intro hPlace
    exact .inr ⟨_, hPlace, definition?_label_iff.2 ⟨rfl, rfl⟩⟩

/-- The labels of a table have distinct names if the table has. -/
theorem labelsOf_distinct {table : List Definition} (h : (table.map Definition.name).Nodup) :
    (labelsOf table).Distinct := by
  have hSublist : ((table.filter fun entry => !entry.isConstant).map Definition.name).Nodup :=
    (List.filter_sublist.map _).nodup h
  rw [NameMap.Distinct, NameMap.names, labelsOf, List.map_map]
  exact hSublist

/-- A name that is defined as a constant is none of the labels. -/
theorem not_mem_labelsOf {table : List Definition} (h : (table.map Definition.name).Nodup)
    {value : Int} (hConstant : ⟨name, value, true⟩ ∈ table) :
    name ∉ (labelsOf table).names := by
  intro hName
  obtain ⟨label, hLabel, rfl⟩ := List.mem_map.1 hName
  obtain ⟨entry, hEntry, rfl⟩ := List.mem_map.1 hLabel
  obtain ⟨hMem, hNot⟩ := List.mem_filter.1 hEntry
  have hSame : entry = ⟨entry.name, value, true⟩ :=
    List.inj_on_of_nodup_map h hMem hConstant rfl
  rw [hSame] at hNot
  cases hNot

end
end TwoPass

/-! ## Libraries of clauses -/

/-- A library has the code of some clauses, and exactly their labels: each at its address, no
constant, nothing that was defined beforehand, and no address beyond the code. -/
structure Library.Publishes (library : Library) (defines : NameMap Int) (clauses : List Clause)
    (code : Bytes) : Prop where
  code_eq : library.code = code
  label_iff : ∀ name address, library.symbols.find? name = some address ↔
    ((address : Int), .label name) ∈ addressed 0 clauses
  constant : ∀ place name value, (place, .constant name value) ∈ addressed 0 clauses →
    library.symbols.find? name = none
  predefined : ∀ entry ∈ defines.entries, library.symbols.find? entry.1 = none
  address_le : ∀ name address, library.symbols.find? name = some address → address ≤ code.length

namespace Library

section
variable {code : Bytes} {labels : NameMap Int}

theorem symbols_ofLabels (h : labels.Distinct) :
    (ofLabels code labels).symbols =
      ⟨labels.entries.map fun label => (label.1, label.2.toNat)⟩ := by
  refine NameMap.ofList_eq_of_nodup ?_
  rw [List.map_map]
  exact h

/-- The symbols of a library are the labels that it is made of, which are not negative. -/
theorem find?_ofLabels (h : labels.Distinct) (hRange : ∀ label ∈ labels.entries, 0 ≤ label.2)
    {name : String} {address : Nat} :
    (ofLabels code labels).symbols.find? name = some address ↔
      (name, (address : Int)) ∈ labels.entries := by
  have hSymbols : (ofLabels code labels).symbols.Distinct := NameMap.distinct_ofList _
  rw [hSymbols.find?_eq_some_iff, symbols_ofLabels h, List.mem_map]
  constructor
  · rintro ⟨⟨other, value⟩, hMem, hEntry⟩
    cases hEntry
    rw [Int.toNat_of_nonneg (hRange _ hMem)]
    exact hMem
  · intro hMem
    exact ⟨_, hMem, rfl⟩

theorem find?_ofLabels_eq_none (h : labels.Distinct)
    (hRange : ∀ label ∈ labels.entries, 0 ≤ label.2) {name : String} (hName : name ∉ labels.names) :
    (ofLabels code labels).symbols.find? name = none := by
  rw [Option.eq_none_iff_forall_ne_some]
  intro address hFound
  exact hName (List.mem_map_of_mem ((find?_ofLabels h hRange).1 hFound))

/-- Code of at most the address space, with labels that are few and short enough, can be stored. -/
theorem storable_ofLabels (h : labels.Distinct) (hCode : code.length ≤ 0x10000)
    (hRange : ∀ label ∈ labels.entries, 0 ≤ label.2 ∧ label.2 ≤ 0xFFFF)
    (hCount : labels.size < lengthLimit)
    (hNames : ∀ name ∈ labels.names, byteLength name < lengthLimit) :
    (ofLabels code labels).Storable where
  magic := rfl
  distinct := NameMap.distinct_ofList _
  version_fits := by
    show byteLength standardVersion < lengthLimit
    decide
  code_fits := Nat.lt_of_le_of_lt hCode (by decide)
  count_fits := by
    rw [symbols_ofLabels h, NameMap.size, List.length_map]
    exact hCount
  symbols_fit := by
    rw [symbols_ofLabels h]
    refine List.forall_mem_map.2 ?_
    intro label hMem
    have hAddress := hRange label hMem
    refine ⟨hNames label.1 (List.mem_map_of_mem hMem), ?_⟩
    show label.2.toNat ≤ 0xFFFF
    omega

end

/-- The library of clauses with some output publishes them. -/
theorem publishes_ofLabels {defines : NameMap Int} {statements : List Statement} {code : Bytes}
    {table : List Definition} (h : Output defines.entries (clausesOf statements) code table)
    (hMeasured : ∀ statement ∈ statements, statement.command.Measured)
    (hRange : ∀ label ∈ (labelsOf table).entries, 0 ≤ label.2) :
    (ofLabels code (labelsOf table)).Publishes defines (clausesOf statements) code := by
  have hDistinct := labelsOf_distinct h.distinct
  have hLabels (name : String) (address : Nat) :
      (ofLabels code (labelsOf table)).symbols.find? name = some address ↔
        ((address : Int), .label name) ∈ addressed 0 (clausesOf statements) := by
    rw [find?_ofLabels hDistinct hRange, h.table_eq, mem_labelsOf_definitions]
  have hConstant {name : String} {value : Int}
      (hMem : ⟨name, value, true⟩ ∈
        definitions defines.entries (addressed 0 (clausesOf statements))) :
      (ofLabels code (labelsOf table)).symbols.find? name = none := by
    rw [← h.table_eq] at hMem
    exact find?_ofLabels_eq_none hDistinct hRange (not_mem_labelsOf h.distinct hMem)
  refine ⟨rfl, hLabels, ?_, ?_, ?_⟩
  · intro place name value hPlace
    exact hConstant (List.mem_append_right _ (List.mem_filterMap.2 ⟨_, hPlace, rfl⟩))
  · intro entry hEntry
    exact hConstant (List.mem_append_left _ (List.mem_map_of_mem hEntry))
  · intro name address hFound
    exact Int.ofNat_le.1 ((h.address_le hMeasured).2 _ ((hLabels name address).1 hFound))

theorem Publishes.of_same {library found : Library} {defines : NameMap Int} {clauses : List Clause}
    {code : Bytes} (h : library.Publishes defines clauses code) (hSame : found.Same library) :
    found.Publishes defines clauses code := by
  obtain ⟨hCode, hLabel, hConstant, hPredefined, hAddress⟩ := h
  have hFind (name : String) : found.symbols.find? name = library.symbols.find? name :=
    hSame.symbols name
  constructor
  · exact hSame.code.trans hCode
  all_goals simpa only [hFind]

end Library

/-! ## Assemblies -/

namespace Attempt

/-- An upper limit for what an attempt can read: the characters of its text, if it is given one, and
the bytes of all files. -/
def size (attempt : Attempt) : Nat :=
  match attempt.input with
  | .text source _ => source.length + attempt.files.size
  | .file _ => attempt.files.size

/-- The clauses that an attempt reads, from its text and from the files that this includes. -/
def Unfolds (attempt : Attempt) (clauses : List Clause) : Prop :=
  ∃ text file tokens openFiles others, attempt.source = .ok (text, file) ∧
    scan text file = .ok tokens ∧
    Assembly.initiallyOpen (attempt.session.surroundings attempt.files) file = .ok openFiles ∧
    TwoPass.Unfolds (attempt.session.surroundings attempt.files) tokens openFiles clauses others

/-- The identifiers that an attempt can read are no more than it has characters and bytes, and none
of them is longer. -/
theorem identifiers_bounded {attempt : Attempt} {text file : String}
    (h : attempt.source = .ok (text, file)) :
    ∃ names, Text.identifiers text.toList ⊆ names ∧ attempt.files.identifiers ⊆ names ∧
      names.length ≤ attempt.size ∧ ∀ name ∈ names, byteLength name ≤ attempt.size := by
  obtain ⟨session, files, input⟩ := attempt
  cases input with
  | text source other =>
    cases h
    have hSize : size ⟨session, files, .text text file⟩ = text.toList.length + files.size := by
      rw [String.length_toList]
      rfl
    refine ⟨Text.identifiers text.toList ++ files.identifiers, List.subset_append_left _ _,
      List.subset_append_right _ _, ?_, ?_⟩
    · rw [List.length_append, hSize]
      exact Nat.add_le_add (Text.length_identifiers _) files.length_identifiers
    · intro name hName
      rw [hSize]
      rcases List.mem_append.1 hName with hText | hFile
      · exact Nat.le_add_right_of_le (Text.byteLength_identifier hText)
      · exact Nat.le_add_left_of_le (FileSystem.byteLength_identifier hFile)
  | file path =>
    simp only [source] at h
    split at h
    · next found hRead =>
      cases h
      rw [String.toList_ofList]
      exact ⟨files.identifiers, FileSystem.identifiers_readText hRead, List.Subset.refl _,
        files.length_identifiers, fun name hName => FileSystem.byteLength_identifier hName⟩
    · cases h

/-- An attempt that gives code has read a trace whose clauses have that code as their output, and
its session tells of a program with their definitions. -/
theorem output_of_answer {attempt : Attempt} {code : Bytes}
    (h : attempt.answer.result = .ok code) :
    ∃ text file tokens openFiles others statements program,
      attempt.source = .ok (text, file) ∧ scan text file = .ok tokens ∧
      Assembly.initiallyOpen (attempt.session.surroundings attempt.files) file = .ok openFiles ∧
      Assembly.Trace (attempt.session.surroundings attempt.files) tokens openFiles statements
        others ∧
      (∀ symbol ∈ program.symbols.symbols, 0 ≤ symbol.value ∧ symbol.value ≤ maxAddress) ∧
      attempt.answer.session.account = .ofAssembled ⟨program, code⟩ ∧
      Output attempt.session.defines.entries (clausesOf statements) code
        (definitionsOf program) := by
  obtain ⟨⟨text, file⟩, hSource⟩ := eq_ok_of_isOk (readable_of_answer h)
  obtain ⟨hResult, hSession⟩ := answer_of_source hSource
  rw [hResult] at h
  obtain ⟨program, made, event, hProgram, hMade, hAnswer, hLast⟩ | ⟨error, hAnswer, -⟩ :=
    attempt.session.assembleString_cases attempt.files text file
  · rw [h] at hAnswer
    cases hAnswer
    have hRange := assembleText_value_range hProgram
    unfold assembleText at hProgram
    split at hProgram
    · cases hProgram
    · next tokens hScan =>
      have hLive : ∀ token ∈ tokens, token.Live :=
        fun token hMem => .inl (scan_scanned hScan token hMem)
      obtain ⟨first, statements, others, other, _, hStart, hTrace, hOther, hOutput⟩ :=
        output_of_assemble hLive hProgram attempt.session.chunk
      rw [hMade] at hOther
      cases hOther
      refine ⟨text, file, tokens, first.openFiles, others, statements, program, hSource, hScan,
        Assembly.start_openFiles hStart, hTrace, hRange, ?_, hOutput⟩
      rw [hSession]
      exact Session.account_of_some hLast hRange
  · rw [h] at hAnswer
    cases hAnswer

/-- The labels that an attempt can read are as few and as short as what it reads. -/
theorem labels_bounded {attempt : Attempt} {text file : String} {tokens : List Token}
    {openFiles others : List Spot} {statements : List Statement} {code : Bytes}
    {table : List Definition} (hSource : attempt.source = .ok (text, file))
    (hScan : scan text file = .ok tokens)
    (hTrace : Assembly.Trace (attempt.session.surroundings attempt.files) tokens openFiles
      statements others)
    (hOutput : Output attempt.session.defines.entries (clausesOf statements) code table) :
    (labelsOf table).size ≤ attempt.size ∧
      ∀ name ∈ (labelsOf table).names, byteLength name ≤ attempt.size := by
  obtain ⟨names, hText, hFiles, hCount, hLength⟩ := identifiers_bounded hSource
  have hSubset : (labelsOf table).names ⊆ names := by
    intro name hName
    obtain ⟨⟨_, address⟩, hLabel, rfl⟩ := List.mem_map.1 hName
    rw [hOutput.table_eq, mem_labelsOf_definitions] at hLabel
    rcases label_mem_identifiers rfl hTrace (mem_of_addressed hLabel) with hToken | hFile
    · rw [← String.ofList_toList (s := text)] at hScan
      rw [← Text.identifiers_of_scan hScan] at hToken
      exact hText hToken
    · exact hFiles hFile
  refine ⟨?_, fun name hName => hLength name (hSubset hName)⟩
  -- no name comes twice, so they are no more than the identifiers
  have hNames := (List.subperm_of_subset (labelsOf_distinct hOutput.distinct) hSubset).length_le
  rw [NameMap.names, List.length_map] at hNames
  exact Nat.le_trans hNames hCount

/-- Whatever assembles has a library that can be stored, and what is read back publishes the clauses
of the source. -/
theorem publishes {attempt : Attempt} {code : Bytes} (h : attempt.answer.result = .ok code)
    (hSize : attempt.size < Library.lengthLimit) :
    ∃ clauses library found, attempt.Unfolds clauses ∧
      attempt.answer.session.code = .ok code ∧ attempt.answer.session.library = .ok library ∧
      library.Storable ∧ Library.read library.write = .ok found ∧
      found.Publishes attempt.session.defines clauses code := by
  obtain ⟨text, file, tokens, openFiles, others, statements, program, hSource, hScan, hOpen,
    hTrace, hRange, hAccount, hOutput⟩ := output_of_answer h
  have hMeasured : ∀ statement ∈ statements, statement.command.Measured :=
    trace_measured hTrace fun token hMem => .inl (scan_scanned hScan token hMem)
  have hLabels := SymbolTable.labels_range hRange
  rw [labels_eq] at hLabels
  have hStorable : (Library.ofLabels code (labelsOf (definitionsOf program))).Storable := by
    obtain ⟨hCount, hNames⟩ := labels_bounded hSource hScan hTrace hOutput
    refine Library.storable_ofLabels (labelsOf_distinct hOutput.distinct)
      (hOutput.address_le hMeasured).1 hLabels (Nat.lt_of_le_of_lt hCount hSize) ?_
    intro name hName
    exact Nat.lt_of_le_of_lt (hNames name hName) hSize
  obtain ⟨found, hRead, hSame, -⟩ := hStorable.read_write
  have hLibrary : attempt.answer.session.library =
      .ok (Library.ofLabels code (labelsOf (definitionsOf program))) := by
    rw [← labels_eq]
    exact congrArg Account.library hAccount
  have hPublishes := Library.publishes_ofLabels hOutput hMeasured
    fun label hMem => (hLabels label hMem).1
  exact ⟨clausesOf statements, _, found,
    ⟨text, file, tokens, openFiles, others, hSource, hScan, hOpen, statements, hTrace, rfl⟩,
    congrArg Account.code hAccount, hLibrary, hStorable, hRead, hPublishes.of_same hSame⟩

end Attempt
end Lr35902
