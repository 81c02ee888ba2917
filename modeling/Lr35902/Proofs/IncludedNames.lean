import Lr35902.Proofs.Termination

/-!
The names of included files. A path that is written as text is read back from its text
(`Path.Normal.ofString_text`), so files that go by one name are the same file. The file of a source
stays open, and therefore no file is included under its name (`Surroundings.spares_initiallyOpen`).
-/
namespace Lr35902

/-! ## Paths and their texts -/

namespace Path

/-- A path as a text writes it: no part is empty, a dot, or has a slash. -/
structure Normal (path : Path) : Prop where
  root : path.root ∈ ["", "/", "//"]
  parts : ∀ part ∈ path.parts, part.toList ≠ [] ∧ part.toList ≠ ['.'] ∧ '/' ∉ part.toList

theorem not_mem_components {text part : List Char} (h : part ∈ components text) : '/' ∉ part := by
  fun_induction components text generalizing part with
  | case1 =>
    rw [List.mem_singleton.1 h]
    exact List.not_mem_nil
  | case2 rest ih =>
    rcases List.mem_cons.1 h with rfl | hMem
    · exact List.not_mem_nil
    · exact ih hMem
  | case3 c rest hOther hNone ih =>
    rw [List.mem_singleton.1 h]
    simpa using Ne.symm hOther
  | case4 c rest hOther first parts hParts ih =>
    rw [hParts] at ih
    rcases List.mem_cons.1 h with rfl | hMem
    · rw [List.mem_cons, not_or]
      exact ⟨Ne.symm hOther, ih List.mem_cons_self⟩
    · exact ih (List.mem_cons_of_mem _ hMem)

theorem components_part {part : List Char} (h : '/' ∉ part) : components part = [part] := by
  induction part with
  | nil => rfl
  | cons c part ih =>
    rw [List.mem_cons, not_or] at h
    rw [components, if_neg (Ne.symm h.1), ih h.2]

theorem components_slash {part : List Char} (h : '/' ∉ part) (rest : List Char) :
    components (part ++ '/' :: rest) = part :: components rest := by
  induction part with
  | nil => rfl
  | cons c part ih =>
    rw [List.mem_cons, not_or] at h
    rw [List.cons_append, components, if_neg (Ne.symm h.1), ih h.2]

theorem components_intercalate {first : List Char} {more : List (List Char)}
    (h : ∀ part ∈ first :: more, '/' ∉ part) :
    components (['/'].intercalate (first :: more)) = first :: more := by
  induction more generalizing first with
  | nil =>
    rw [List.intercalate_singleton]
    exact components_part (h first List.mem_cons_self)
  | cons second more ih =>
    rw [List.intercalate_cons_cons, List.append_assoc, List.singleton_append,
      components_slash (h first List.mem_cons_self), ih fun part hMem => h part (.tail _ hMem)]

theorem normal_ofString (text : String) : (ofString text).Normal := by
  refine ⟨?_, ?_⟩
  · show rootOf text.toList ∈ _
    unfold rootOf
    split <;> decide
  · intro part hMem
    obtain ⟨piece, hPiece, rfl⟩ := List.mem_map.1 hMem
    obtain ⟨hFound, hKept⟩ := List.mem_filter.1 hPiece
    have hKept : piece ≠ [] ∧ piece ≠ ['.'] := by simpa using hKept
    rw [String.toList_ofList]
    exact ⟨hKept.1, hKept.2, not_mem_components hFound⟩

theorem Normal.parent {path : Path} (h : path.Normal) : path.parent.Normal :=
  ⟨h.root, fun part hMem => h.parts part (List.mem_of_mem_dropLast hMem)⟩

theorem Normal.join {directory path : Path} (hDirectory : directory.Normal) (hPath : path.Normal) :
    (directory.join path).Normal := by
  unfold Path.join
  split
  · refine ⟨hDirectory.root, List.forall_mem_append.2 ⟨hDirectory.parts, hPath.parts⟩⟩
  · exact hPath

theorem rootOf_append {root : String} (hRoot : root ∈ ["", "/", "//"]) {c : Char} (hc : c ≠ '/')
    (rest : List Char) : rootOf (root.toList ++ c :: rest) = root := by
  simp only [List.mem_cons, List.not_mem_nil, or_false] at hRoot
  rcases hRoot with rfl | rfl | rfl <;> simp [rootOf, hc]

theorem filter_components_append {root : String} (hRoot : root ∈ ["", "/", "//"])
    (text : List Char) :
    ((components (root.toList ++ text)).filter fun part => !part.isEmpty && part != ['.']) =
      (components text).filter fun part => !part.isEmpty && part != ['.'] := by
  simp only [List.mem_cons, List.not_mem_nil, or_false] at hRoot
  rcases hRoot with rfl | rfl | rfl <;> simp [components]

/-- A path is read back from its text. -/
theorem Normal.ofString_text {path : Path} (h : path.Normal) : ofString path.text = path := by
  obtain ⟨root, parts⟩ := path
  obtain ⟨hRoot, hParts⟩ := h
  cases parts with
  | nil =>
    have hAll : ∀ root ∈ ["", "/", "//"], ofString (text ⟨root, []⟩) = ⟨root, []⟩ := by decide
    exact hAll root hRoot
  | cons first more =>
    have hPieces : ∀ part ∈ first.toList :: more.map String.toList,
        part ≠ [] ∧ part ≠ ['.'] ∧ '/' ∉ part := by
      rw [← List.map_cons]
      exact List.forall_mem_map.2 hParts
    have hText : (text ⟨root, first :: more⟩).toList =
        root.toList ++ ['/'].intercalate (first.toList :: more.map String.toList) := by
      simp [text, String.toList_append, String.toList_intercalate]
    have hBody : components (['/'].intercalate (first.toList :: more.map String.toList)) =
        first.toList :: more.map String.toList :=
      components_intercalate fun part hMem => (hPieces part hMem).2.2
    have hKept : ((first.toList :: more.map String.toList).filter fun part =>
        !part.isEmpty && part != ['.']) = first.toList :: more.map String.toList := by
      apply List.filter_eq_self.2
      intro part hMem
      obtain ⟨hSome, hDot, -⟩ := hPieces part hMem
      simp [hSome, hDot]
    obtain ⟨hSome, -, hSlash⟩ := hPieces first.toList List.mem_cons_self
    obtain ⟨c, rest, hFirst⟩ := List.exists_cons_of_ne_nil hSome
    have hHead :
        rootOf (root.toList ++ ['/'].intercalate (first.toList :: more.map String.toList)) =
          root := by
      have hc : c ≠ '/' := fun hSame => hSlash (by simp [hFirst, hSame])
      rw [hFirst]
      cases more with
      | nil => exact rootOf_append hRoot hc _
      | cons second more =>
        rw [List.map_cons, List.intercalate_cons_cons]
        exact rootOf_append hRoot hc _
    rw [ofString, hText, hHead, filter_components_append hRoot, hBody, hKept]
    simp

end Path

/-! ## Included files and the name of the source -/

namespace Surroundings
variable {surroundings : Surroundings} {includer name : String}

/-- The include paths are written as text. -/
def Written (surroundings : Surroundings) : Prop :=
  ∀ directory ∈ surroundings.includePaths, ∃ text, directory = Path.ofString text

theorem Written.normal (h : surroundings.Written) :
    ∀ path ∈ surroundings.candidates includer name, path.Normal := by
  have hName := Path.normal_ofString name
  refine List.forall_mem_cons.2 ⟨hName, List.forall_mem_append.2 ⟨?_, List.forall_mem_map.2 ?_⟩⟩
  · split
    · exact List.forall_mem_nil _
    · exact List.forall_mem_singleton.2 ((Path.normal_ofString includer).parent.join hName)
  · intro directory hMem
    obtain ⟨text, rfl⟩ := h directory hMem
    exact (Path.normal_ofString text).join hName

/-- No file goes by the name of a source that came from no file. -/
def LeavesName (surroundings : Surroundings) (file : String) : Prop :=
  file = Location.input →
    ∀ spot, surroundings.files.fileSpot? (.ofString file) ≠ .ok (some spot)

/-- Whatever can be included while some files are open goes by another name. -/
def Spares (surroundings : Surroundings) (file : String) (openFiles : List Spot) : Prop :=
  ∀ includer name path spot, surroundings.find includer name = .found path spot →
    spot ∉ openFiles → path.text ≠ file

theorem Spares.mono {file : String} {openFiles others : List Spot}
    (h : surroundings.Spares file openFiles) (hSubset : openFiles ⊆ others) :
    surroundings.Spares file others := by
  intro includer name path spot hFind hClosed
  exact h includer name path spot hFind fun hOpen => hClosed (hSubset hOpen)

/-- A file that goes by the name of the source is the file of the source, which is open. -/
theorem spares_initiallyOpen {file : String} {spots : List Spot} (hWritten : surroundings.Written)
    (hName : surroundings.LeavesName file)
    (hOpen : Assembly.initiallyOpen surroundings file = .ok spots) :
    surroundings.Spares file spots := by
  rintro includer name path spot hFind hClosed rfl
  obtain ⟨hMem, hSpot⟩ := find_found hFind
  have hPath := (hWritten.normal path hMem).ofString_text
  rw [LeavesName, hPath] at hName
  unfold Assembly.initiallyOpen at hOpen
  split at hOpen
  · next hInput => exact hName hInput spot hSpot
  · simp only [hPath, hSpot] at hOpen
    cases hOpen
    exact hClosed (List.mem_singleton_self spot)

end Surroundings
end Lr35902
