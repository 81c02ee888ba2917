import Lr35902.Proofs.Container.Contents

/-!
Writing and reading containers. A storable library is written as the container of its symbols in
increasing order (`Storable.write_eq`), so that it is read back, and libraries are written alike
exactly when they hold the same, in whatever order their symbols were added (`write_canonical`).
What reading accepts is written back as it was exactly when its names increase
(`write_eq_iff_increasing`).
-/
namespace Lr35902.Library

open FileSystem (byteLength)

/-! ## Libraries that hold the same -/

/-- The libraries hold the same, their symbols taken as maps. -/
structure Same (library other : Library) : Prop where
  magic : library.magic = other.magic
  version : library.version = other.version
  code : library.code = other.code
  symbols : library.symbols.Same other.symbols

/-- A library that has a container: its magic text is the standard one, every name has one address,
addresses have 16 bits, and all lengths stay below the limit. -/
structure Storable (library : Library) : Prop where
  magic : library.magic = standardMagic
  distinct : library.symbols.Distinct
  version_fits : byteLength library.version < lengthLimit
  code_fits : library.code.length < lengthLimit
  count_fits : library.symbols.size < lengthLimit
  symbols_fit : ∀ symbol ∈ library.symbols.entries, SymbolFits symbol

theorem Same.symm {library other : Library} (h : library.Same other) : other.Same library :=
  ⟨h.magic.symm, h.version.symm, h.code.symm, fun name => (h.symbols name).symm⟩

theorem Same.trans {library other third : Library} (h : library.Same other)
    (hOther : other.Same third) : library.Same third :=
  ⟨h.magic.trans hOther.magic, h.version.trans hOther.version, h.code.trans hOther.code,
    fun name => (h.symbols name).trans (hOther.symbols name)⟩

theorem agrees_iff_same {library other : Library} (h : library.symbols.Distinct)
    (hOther : other.symbols.Distinct) : library.agrees other = true ↔ library.Same other := by
  unfold agrees
  simp only [Bool.and_eq_true, beq_iff_eq, NameMap.agrees_iff_same h hOther]
  constructor
  · rintro ⟨⟨⟨hMagic, hVersion⟩, hCode⟩, hSymbols⟩
    exact ⟨hMagic, hVersion, hCode, hSymbols⟩
  · rintro ⟨hMagic, hVersion, hCode, hSymbols⟩
    exact ⟨⟨⟨hMagic, hVersion⟩, hCode⟩, hSymbols⟩

/-! ## Increasing names -/

/-- The names increase strictly, code point by code point. -/
def Increasing (symbols : List (String × Nat)) : Prop :=
  symbols.Pairwise fun symbol other => symbol.1 < other.1

/-- Names increase when they are in order and none comes again. -/
theorem increasing_iff {symbols : List (String × Nat)} :
    Increasing symbols ↔
      (symbols.Pairwise fun symbol other => symbol.1 ≤ other.1) ∧ (symbols.map Prod.fst).Nodup := by
  have hLess (name other : String) : name < other ↔ name ≤ other ∧ name ≠ other := by
    constructor
    · intro h
      refine ⟨String.not_lt.1 (String.lt_asymm h), ?_⟩
      rintro rfl
      exact String.lt_irrefl name h
    · rintro ⟨hLE, hNe⟩
      exact String.not_le.1 fun hGE => hNe (String.le_antisymm hLE hGE)
  rw [List.nodup_iff_pairwise_ne, List.pairwise_map, ← List.pairwise_and_iff]
  unfold Increasing
  simp only [hLess]

theorem Increasing.nodup {symbols : List (String × Nat)} (h : Increasing symbols) :
    (symbols.map Prod.fst).Nodup := (increasing_iff.1 h).2

/-- There is one increasing order of some symbols. -/
theorem Increasing.eq_of_perm {symbols others : List (String × Nat)} (h : Increasing symbols)
    (hOthers : Increasing others) (hPerm : symbols.Perm others) : symbols = others := by
  refine hPerm.eq_of_pairwise ?_ h hOthers
  intro symbol other _ _ hLess hGreater
  exact absurd hGreater (String.lt_asymm hLess)

/-- Symbols in increasing order form the map with just these entries. -/
theorem Increasing.ofList_eq {symbols : List (String × Nat)} (h : Increasing symbols) :
    NameMap.ofList symbols = ⟨symbols⟩ :=
  NameMap.ofList_eq_of_nodup h.nodup

theorem sortedSymbols_perm (library : Library) :
    library.sortedSymbols.Perm library.symbols.entries :=
  List.mergeSort_perm _ _

theorem sortedSymbols_increasing {library : Library} (h : library.symbols.Distinct) :
    Increasing library.sortedSymbols := by
  rw [increasing_iff]
  constructor
  · have hSorted :
        library.sortedSymbols.Pairwise fun symbol other => nameLE symbol other = true := by
      apply List.pairwise_mergeSort
      · intro a b c hFirst hSecond
        simp only [nameLE, decide_eq_true_eq] at hFirst hSecond ⊢
        exact String.le_trans hFirst hSecond
      · intro a b
        simp only [nameLE, Bool.or_eq_true, decide_eq_true_eq]
        exact String.le_total a.1 b.1
    simpa only [nameLE, decide_eq_true_eq] using hSorted
  · exact ((library.sortedSymbols_perm.map Prod.fst).nodup_iff).2 h

/-! ## The container of a library -/

/-- What the container of a storable library holds. -/
def Storable.contents {library : Library} (h : library.Storable) : Contents where
  version := library.version
  code := library.code
  symbols := library.sortedSymbols
  version_fits := h.version_fits
  code_fits := h.code_fits
  count_fits := by
    rw [library.sortedSymbols_perm.length_eq]
    exact h.count_fits
  symbols_fit := by
    intro symbol hMem
    exact h.symbols_fit symbol (library.sortedSymbols_perm.mem_iff.1 hMem)

theorem Storable.write_eq {library : Library} (h : library.Storable) :
    library.write = h.contents.bytes := by
  have hCount : library.sortedSymbols.length = library.symbols.size :=
    library.sortedSymbols_perm.length_eq
  unfold write Contents.bytes contents
  rw [h.magic, hCount]

theorem Storable.contents_same {library : Library} (h : library.Storable) :
    h.contents.library.Same library := by
  refine ⟨h.magic.symm, rfl, rfl, ?_⟩
  have hSymbols : h.contents.library.symbols = ⟨library.sortedSymbols⟩ :=
    (sortedSymbols_increasing h.distinct).ofList_eq
  have hDistinct : (⟨library.sortedSymbols⟩ : NameMap Nat).Distinct :=
    (sortedSymbols_increasing h.distinct).nodup
  rw [hSymbols, NameMap.same_iff_perm hDistinct h.distinct]
  exact library.sortedSymbols_perm

/-- A storable library is read back from its container. -/
theorem Storable.read_write {library : Library} (h : library.Storable) :
    ∃ found, read library.write = .ok found ∧ found.Same library ∧ found.agrees library = true := by
  have hDistinct : h.contents.library.symbols.Distinct := NameMap.distinct_ofList _
  refine ⟨h.contents.library, read_ok_iff.2 ⟨h.contents, h.write_eq, rfl⟩, h.contents_same, ?_⟩
  exact (agrees_iff_same hDistinct h.distinct).2 h.contents_same

theorem Storable.write_eq_of_same {library other : Library} (h : library.Storable)
    (hOther : other.Storable) (hSame : library.Same other) : library.write = other.write := by
  have hPerm : library.sortedSymbols.Perm other.sortedSymbols :=
    library.sortedSymbols_perm.trans
      (((NameMap.same_iff_perm h.distinct hOther.distinct).1 hSame.symbols).trans
        other.sortedSymbols_perm.symm)
  have hSorted : library.sortedSymbols = other.sortedSymbols :=
    (sortedSymbols_increasing h.distinct).eq_of_perm
      (sortedSymbols_increasing hOther.distinct) hPerm
  have hContents : h.contents = hOther.contents := Contents.ext hSame.version hSame.code hSorted
  rw [h.write_eq, hOther.write_eq, hContents]

/-- A storable library is read back from what is written, and two of them are written alike exactly
when they hold the same, so that the order in which symbols were added leaves no trace. -/
theorem write_canonical {library other : Library} (h : library.Storable)
    (hOther : other.Storable) :
    (∃ found, read library.write = .ok found ∧ found.Same library ∧
      found.agrees library = true) ∧
      (library.write = other.write ↔ library.Same other) := by
  refine ⟨h.read_write, ?_, h.write_eq_of_same hOther⟩
  intro hWrite
  obtain ⟨found, hRead, hFound, -⟩ := h.read_write
  obtain ⟨found', hRead', hFound', -⟩ := hOther.read_write
  -- both are read back from the same bytes
  rw [hWrite, hRead'] at hRead
  cases hRead
  exact hFound.symm.trans hFound'

/-- The same two symbols in two orders: one container, from which both are read back. -/
theorem write_canonical_reordered :
    let library : Library := ⟨standardMagic, "1.0.0", [0x76], ⟨[("stärt", 1), ("end", 0xFFFF)]⟩⟩
    let other : Library := ⟨standardMagic, "1.0.0", [0x76], ⟨[("end", 0xFFFF), ("stärt", 1)]⟩⟩
    library.Storable ∧ other.Storable ∧ library ≠ other ∧ library.write = other.write ∧
      ∃ found, read library.write = .ok found ∧ found.Same library := by
  intro library other
  have h : library.Storable := ⟨rfl, by decide, by decide, by decide, by decide, by decide⟩
  have hOther : other.Storable := ⟨rfl, by decide, by decide, by decide, by decide, by decide⟩
  have hSame : library.Same other := (agrees_iff_same h.distinct hOther.distinct).1 (by decide)
  obtain ⟨⟨found, hRead, hFound, -⟩, hWrite⟩ := write_canonical h hOther
  exact ⟨h, hOther, by decide, hWrite.2 hSame, found, hRead, hFound⟩

/-! ## Writing what was read -/

theorem Contents.library_storable (contents : Contents) : contents.library.Storable where
  magic := rfl
  distinct := NameMap.distinct_ofList _
  version_fits := contents.version_fits
  code_fits := contents.code_fits
  count_fits := by
    have hSize := NameMap.size_insertAll_le .empty contents.symbols
    have hCount := contents.count_fits
    simp only [NameMap.size, NameMap.empty, List.length_nil, Nat.zero_add] at hSize
    exact Nat.lt_of_le_of_lt hSize hCount
  symbols_fit := by
    intro symbol hMem
    exact contents.symbols_fit symbol (NameMap.mem_of_mem_ofList hMem)

/-- Contents are written back as they were exactly when their names increase. -/
theorem Contents.write_eq_iff (contents : Contents) :
    contents.library.write = contents.bytes ↔ Increasing contents.symbols := by
  have hStorable := contents.library_storable
  rw [hStorable.write_eq]
  constructor
  · intro hBytes
    -- the containers are equal, so the contents are, and those of a library increase
    have hContents := Contents.bytes_injective hBytes
    rw [← hContents]
    exact sortedSymbols_increasing hStorable.distinct
  · intro hIncreasing
    have hEntries : contents.library.symbols.entries = contents.symbols :=
      congrArg NameMap.entries hIncreasing.ofList_eq
    have hPerm : contents.library.sortedSymbols.Perm contents.symbols :=
      hEntries ▸ contents.library.sortedSymbols_perm
    have hSorted := (sortedSymbols_increasing hStorable.distinct).eq_of_perm hIncreasing hPerm
    exact congrArg Contents.bytes (Contents.ext rfl rfl hSorted)

/-- What is read can be written and read again. It is written as it was exactly when the names in
the container increase; otherwise they are out of order or come again, and of a name that comes
again the last address counts. -/
theorem write_eq_iff_increasing {bytes : Bytes} {library : Library} (h : read bytes = .ok library) :
    (∃ found, read library.write = .ok found ∧ found.Same library ∧
      found.agrees library = true) ∧
      ∃ contents : Contents, (∀ other : Contents, other.bytes = bytes ↔ other = contents) ∧
        library = contents.library ∧
        (library.write = bytes ↔ Increasing contents.symbols) ∧
        (library.write ≠ bytes ↔
          ¬(contents.symbols.Pairwise fun symbol other => symbol.1 ≤ other.1) ∨
            ¬(contents.symbols.map Prod.fst).Nodup) ∧
        ∀ name, library.symbols.find? name = contents.symbols.reverse.lookup name := by
  obtain ⟨contents, rfl, rfl⟩ := read_ok_iff.1 h
  refine ⟨contents.library_storable.read_write, contents, fun other => ?_, rfl,
    contents.write_eq_iff, ?_, NameMap.find?_ofList contents.symbols⟩
  · exact Contents.bytes_injective.eq_iff
  · rw [ne_eq, contents.write_eq_iff, increasing_iff, not_and_or]

/-- A name that comes again, out of order: the last address counts, and the container is written
differently. -/
theorem write_eq_iff_increasing_repeated :
    let contents : Contents := ⟨"1.0.0", [0x76], [("b", 1), ("a", 2), ("b", 3)],
      by decide, by decide, by decide, by decide⟩
    read contents.bytes = .ok contents.library ∧ contents.library.write ≠ contents.bytes ∧
      contents.library.symbols.find? "b" = some 3 := by
  intro contents
  have hRead : read contents.bytes = .ok contents.library := read_ok_iff.2 ⟨contents, rfl, rfl⟩
  obtain ⟨-, stored, hStored, -, -, hDiffers, hFind⟩ := write_eq_iff_increasing hRead
  obtain rfl := (hStored contents).1 rfl
  exact ⟨hRead, hDiffers.2 (.inr (by decide)), (hFind "b").trans rfl⟩

end Lr35902.Library
