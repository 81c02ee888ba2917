import Lr35902.NameMap
import Mathlib.Data.List.Nodup
import Mathlib.Data.List.Perm.Subperm

/-!
Name maps as maps. An insertion changes the value of its own name only (`find?_insert`), and of
several insertions the last one of a name counts (`find?_insertAll`). Where every name occurs once,
an entry is what its name finds (`Distinct.find?_eq_some_iff`), two maps give the same values
exactly when their entries are the same in some order (`same_iff_perm`), and this is what comparing
them tests (`agrees_iff_same`).
-/
namespace Lr35902.NameMap

variable {α : Type}

/-- The names in order. -/
def names (map : NameMap α) : List String := map.entries.map Prod.fst

/-- Every name occurs once. -/
def Distinct (map : NameMap α) : Prop := map.names.Nodup

instance (map : NameMap α) : Decidable map.Distinct :=
  inferInstanceAs (Decidable (List.Nodup _))

/-- The maps give every name the same value. -/
def Same (map other : NameMap α) : Prop := ∀ name, map.find? name = other.find? name

/-- The map after several insertions. -/
def insertAll (map : NameMap α) (entries : List (String × α)) : NameMap α :=
  entries.foldl (fun map entry => map.insert entry.1 entry.2) map

/-! ## Insertions -/

theorem lookup_cons (entry : String × α) (rest : List (String × α)) (name : String) :
    (entry :: rest).lookup name = if name = entry.1 then some entry.2 else rest.lookup name := by
  rw [List.lookup_cons]
  by_cases hName : name = entry.1
  · simp [hName]
  · simp [hName, beq_false_of_ne hName]

theorem lookup_insertInto (name other : String) (value : α) (entries : List (String × α)) :
    (insertInto name value entries).lookup other =
      if other = name then some value else entries.lookup other := by
  induction entries with
  | nil => exact lookup_cons (name, value) [] other
  | cons entry rest ih =>
    unfold insertInto
    by_cases hKnown : entry.1 = name
    · -- the new entry stands where the old one stood, which the name hides
      rw [if_pos hKnown, lookup_cons, lookup_cons, hKnown]
      by_cases hOther : other = name
      · rw [if_pos hOther, if_pos hOther]
      · rw [if_neg hOther, if_neg hOther, if_neg hOther]
    · rw [if_neg hKnown, lookup_cons, lookup_cons, ih]
      by_cases hFirst : other = entry.1
      · rw [if_pos hFirst, if_pos hFirst, if_neg (hFirst ▸ hKnown)]
      · rw [if_neg hFirst, if_neg hFirst]

theorem find?_insert (map : NameMap α) (name other : String) (value : α) :
    (map.insert name value).find? other = if other = name then some value else map.find? other :=
  lookup_insertInto name other value map.entries

theorem map_fst_insertInto (name : String) (value : α) (entries : List (String × α)) :
    (insertInto name value entries).map Prod.fst =
      if name ∈ entries.map Prod.fst then entries.map Prod.fst
      else entries.map Prod.fst ++ [name] := by
  induction entries with
  | nil => rfl
  | cons entry rest ih =>
    unfold insertInto
    by_cases hKnown : entry.1 = name
    · simp [hKnown]
    · rw [if_neg hKnown, List.map_cons, ih, List.map_cons]
      have hCons : name ∈ entry.1 :: rest.map Prod.fst ↔ name ∈ rest.map Prod.fst := by
        rw [List.mem_cons]
        exact or_iff_right (Ne.symm hKnown)
      by_cases hRest : name ∈ rest.map Prod.fst
      · rw [if_pos hRest, if_pos (hCons.2 hRest)]
      · rw [if_neg hRest, if_neg (mt hCons.1 hRest), List.cons_append]

theorem names_insert (map : NameMap α) (name : String) (value : α) :
    (map.insert name value).names = if name ∈ map.names then map.names else map.names ++ [name] :=
  map_fst_insertInto name value map.entries

theorem Distinct.insert {map : NameMap α} (h : map.Distinct) (name : String) (value : α) :
    (map.insert name value).Distinct := by
  unfold Distinct
  rw [names_insert]
  by_cases hKnown : name ∈ map.names
  · rw [if_pos hKnown]
    exact h
  · rw [if_neg hKnown, ← List.concat_eq_append]
    exact List.Nodup.concat hKnown h

theorem size_insert_le (map : NameMap α) (name : String) (value : α) :
    (map.insert name value).size ≤ map.size + 1 := by
  have hLength : (map.insert name value).size = (map.insert name value).names.length :=
    (List.length_map _).symm
  have hNames : map.names.length = map.size := List.length_map _
  rw [hLength, names_insert]
  by_cases hKnown : name ∈ map.names
  · rw [if_pos hKnown]
    omega
  · rw [if_neg hKnown, List.length_append, List.length_singleton]
    omega

/-- A new name comes last. -/
theorem entries_insert_of_not_mem {map : NameMap α} {name : String} (h : name ∉ map.names)
    (value : α) : (map.insert name value).entries = map.entries ++ [(name, value)] := by
  obtain ⟨entries⟩ := map
  simp only [insert, names] at h ⊢
  induction entries with
  | nil => rfl
  | cons entry rest ih =>
    rw [List.map_cons, List.mem_cons, not_or] at h
    rw [insertInto, if_neg (Ne.symm h.1), ih h.2, List.cons_append]

/-! ## Several insertions -/

theorem insertAll_cons (map : NameMap α) (entry : String × α) (rest : List (String × α)) :
    map.insertAll (entry :: rest) = (map.insert entry.1 entry.2).insertAll rest := rfl

/-- The last insertion of a name counts, and a name that is not inserted keeps its value. -/
theorem find?_insertAll (map : NameMap α) (entries : List (String × α)) (name : String) :
    (map.insertAll entries).find? name = (entries.reverse.lookup name).or (map.find? name) := by
  induction entries generalizing map with
  | nil => rfl
  | cons entry rest ih =>
    rw [insertAll_cons, ih, find?_insert, List.reverse_cons, List.lookup_append, Option.or_assoc]
    congr 1
    rw [lookup_cons]
    by_cases hName : name = entry.1
    · rw [if_pos hName, if_pos hName, Option.some_or]
    · rw [if_neg hName, if_neg hName, List.lookup_nil, Option.none_or]

theorem Distinct.insertAll {map : NameMap α} (h : map.Distinct) (entries : List (String × α)) :
    (map.insertAll entries).Distinct := by
  induction entries generalizing map with
  | nil => exact h
  | cons entry rest ih => exact ih (h.insert entry.1 entry.2)

theorem distinct_ofList (entries : List (String × α)) : (ofList entries).Distinct := by
  have hEmpty : (empty : NameMap α).Distinct := List.nodup_nil
  exact hEmpty.insertAll entries

theorem find?_ofList (entries : List (String × α)) (name : String) :
    (ofList entries).find? name = entries.reverse.lookup name :=
  (find?_insertAll empty entries name).trans Option.or_none

theorem size_insertAll_le (map : NameMap α) (entries : List (String × α)) :
    (map.insertAll entries).size ≤ map.size + entries.length := by
  induction entries generalizing map with
  | nil => exact Nat.le_refl _
  | cons entry rest ih =>
    have hRest := ih (map.insert entry.1 entry.2)
    have hFirst := map.size_insert_le entry.1 entry.2
    rw [insertAll_cons, List.length_cons]
    omega

/-- Entries with new names that occur once are added as they stand. -/
theorem entries_insertAll {map : NameMap α} {entries : List (String × α)}
    (h : (map.names ++ entries.map Prod.fst).Nodup) :
    (map.insertAll entries).entries = map.entries ++ entries := by
  induction entries generalizing map with
  | nil => exact (List.append_nil _).symm
  | cons entry rest ih =>
    have hNew : entry.1 ∉ map.names := by
      intro hKnown
      exact List.disjoint_of_nodup_append h hKnown List.mem_cons_self
    have hNames : (map.insert entry.1 entry.2).names = map.names ++ [entry.1] := by
      rw [names_insert, if_neg hNew]
    rw [insertAll_cons, ih, entries_insert_of_not_mem hNew, List.append_assoc]
    · rfl
    · rw [hNames, List.append_assoc]
      exact h

/-- A list without repeated names is a map as it stands. -/
theorem ofList_eq_of_nodup {entries : List (String × α)} (h : (entries.map Prod.fst).Nodup) :
    ofList entries = ⟨entries⟩ := by
  have hEntries : (ofList entries).entries = [] ++ entries :=
    entries_insertAll (by simpa [names, empty] using h)
  exact congrArg NameMap.mk hEntries

/-! ## Maps in which every name occurs once -/

theorem Distinct.find?_eq_some_iff {map : NameMap α} (h : map.Distinct) {name : String}
    {value : α} :
    map.find? name = some value ↔ (name, value) ∈ map.entries := by
  unfold find?
  rw [List.lookup_eq_some_iff]
  constructor
  · rintro ⟨before, after, hEntries, -⟩
    rw [hEntries]
    exact List.mem_append_right _ List.mem_cons_self
  · intro hMem
    obtain ⟨before, after, hEntries⟩ := List.append_of_mem hMem
    refine ⟨before, after, hEntries, ?_⟩
    intro entry hBefore
    have hNodup := h
    rw [Distinct, names, hEntries, List.map_append, List.map_cons] at hNodup
    rw [bne_iff_ne]
    rintro rfl
    exact List.disjoint_of_nodup_append hNodup (List.mem_map_of_mem hBefore) List.mem_cons_self

/-- A list brings no entries into its map but its own. -/
theorem mem_of_mem_ofList {entries : List (String × α)} {entry : String × α}
    (h : entry ∈ (ofList entries).entries) : entry ∈ entries := by
  have hFound := (distinct_ofList entries).find?_eq_some_iff.2 h
  rw [find?_ofList] at hFound
  obtain ⟨before, after, hEntries, -⟩ := List.lookup_eq_some_iff.1 hFound
  rw [← List.mem_reverse, hEntries]
  exact List.mem_append_right _ List.mem_cons_self

theorem same_iff_perm {map other : NameMap α} (h : map.Distinct) (hOther : other.Distinct) :
    map.Same other ↔ map.entries.Perm other.entries := by
  rw [List.perm_ext_iff_of_nodup (.of_map _ h) (.of_map _ hOther)]
  constructor
  · rintro hSame ⟨name, value⟩
    rw [← h.find?_eq_some_iff, ← hOther.find?_eq_some_iff, hSame]
  · intro hEntries name
    ext value
    rw [h.find?_eq_some_iff, hOther.find?_eq_some_iff, hEntries]

/-- Comparing two maps, by their sizes and by what the second finds of the first, tells whether they
give every name the same value. -/
theorem agrees_iff_same [BEq α] [LawfulBEq α] {map other : NameMap α} (h : map.Distinct)
    (hOther : other.Distinct) : map.agrees other = true ↔ map.Same other := by
  rw [same_iff_perm h hOther]
  unfold agrees size
  simp only [Bool.and_eq_true, beq_iff_eq, List.all_eq_true]
  constructor
  · rintro ⟨hSize, hFound⟩
    have hSubset : map.entries ⊆ other.entries := by
      rintro ⟨name, value⟩ hMem
      exact hOther.find?_eq_some_iff.1 (hFound _ hMem)
    exact (List.subperm_of_subset (.of_map _ h) hSubset).perm_of_length_le (Nat.le_of_eq hSize.symm)
  · intro hPerm
    refine ⟨hPerm.length_eq, ?_⟩
    rintro ⟨name, value⟩ hMem
    exact hOther.find?_eq_some_iff.2 (hPerm.subset hMem)

end Lr35902.NameMap
