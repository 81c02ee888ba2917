import Lr35902.File.System

/-!
What writing and removing does to files, whatever links lead to them and at however many places they
stand. What a path leads to is found where it stands (`locate_stands`). A write changes a file or
fills a vacant place, its `Target`, and two paths lead to one file exactly if they have the same
target, before and after (`target?_store`). So a path reads what was written if it has the target of
the write, and otherwise what it read before (`read_store`, `read_store_of_ne`). Removing a file
that was written takes away what the last name of the path stands for: if nothing stood there, all
is as it was before the write, and otherwise it is not (`remove_of_write`).
-/
namespace Lr35902

theorem eq_ok_of_toOption {ε α : Type} {result : Except ε α} {a : α}
    (h : result.toOption = some a) : result = .ok a := by
  cases result with
  | error error => cases h
  | ok b =>
    cases h
    rfl

/-- What a write changes: a file that exists, wherever it stands, or a vacant place. -/
inductive Target where
  | file (number : Nat)
  | vacant (spot : Spot)
  deriving DecidableEq

namespace Found

/-- The target that a path has led to; a directory is none. -/
def target? : Found → Option Target
  | .file _ number _ => some (.file number)
  | .vacant spot => some (.vacant spot)
  | .directory _ => none

/-- What a path has led to is there. -/
def Stands (fs : FileSystem) : Found → Prop
  | .file spot number data => fs.entryAt? spot = some (.file number data)
  | .vacant spot => fs.entryAt? spot = none
  | .directory _ => True

/-- The place that a path has led to. -/
def spot : Found → Spot
  | .file spot _ _ | .vacant spot | .directory spot => spot

end Found

/-- A place that is to be filled is vacant. -/
def Target.Stands (fs : FileSystem) : Target → Prop
  | .file _ => True
  | .vacant spot => fs.entryAt? spot = none

namespace FileSystem

/-! ## What stands at a place -/

/-- The target of a write to the file at a place. -/
def targetAt? (fs : FileSystem) (spot : Spot) : Option Target :=
  match fs.entryAt? spot with
  | some (.file number _) => some (.file number)
  | some .directory | some (.link _) => none
  | none => some (.vacant spot)

/-- The target of a write to a path. -/
def target? (fs : FileSystem) (path : Path) : Option Target :=
  (fs.locate path).toOption.bind Found.target?

/-- The file system after a write to a target. -/
def store (fs : FileSystem) (target : Target) (data : Bytes) : FileSystem :=
  match target with
  | .file number => fs.overwrite number data
  | .vacant spot => fs.add spot data

/-- The number that the file of a target has after a write. -/
def numberOf (fs : FileSystem) : Target → Nat
  | .file number => number
  | .vacant _ => fs.newNumber

end FileSystem

/-- What a path has led to, after a write to a target. -/
def Found.store (fs : FileSystem) (target : Target) (data : Bytes) (found : Found) : Found :=
  if found.target? = some target then .file found.spot (fs.numberOf target) data else found

namespace FileSystem

section
variable {fs : FileSystem} {spot other : Spot} {number : Nat} {data : Bytes}

theorem entryAt?_eq_lookup (h : spot.leadsTo fs.here = false) :
    fs.entryAt? spot = fs.entries.lookup spot := by
  rw [entryAt?, h]
  rfl

theorem leadsTo_eq_false (h : fs.entryAt? spot ≠ some .directory) :
    spot.leadsTo fs.here = false := by
  rw [← Bool.not_eq_true]
  intro hLeads
  exact h (if_pos hLeads)

theorem lookup_of_vacant (h : fs.entryAt? spot = none) :
    spot.leadsTo fs.here = false ∧ fs.entries.lookup spot = none := by
  have hHere : spot.leadsTo fs.here = false := leadsTo_eq_false (by simp [h])
  exact ⟨hHere, (entryAt?_eq_lookup hHere).symm.trans h⟩

theorem lookup_map (f : Entry → Entry) (entries : List (Spot × Entry)) (spot : Spot) :
    (entries.map fun known => (known.1, f known.2)).lookup spot = (entries.lookup spot).map f := by
  induction entries with
  | nil => rfl
  | cons known rest ih =>
    rw [List.map_cons, List.lookup_cons, List.lookup_cons, ih]
    cases spot == known.1 <;> rfl

theorem entryAt?_overwrite (fs : FileSystem) (number : Nat) (data : Bytes) (spot : Spot) :
    (fs.overwrite number data).entryAt? spot =
      (fs.entryAt? spot).map (Entry.overwrite number data) := by
  unfold entryAt? overwrite
  split
  · rfl
  · exact lookup_map _ fs.entries spot

theorem entryAt?_add (h : fs.entryAt? spot = none) (data : Bytes) (other : Spot) :
    (fs.add spot data).entryAt? other =
      if other = spot then some (.file fs.newNumber data) else fs.entryAt? other := by
  obtain ⟨hHere, hNone⟩ := lookup_of_vacant h
  have hBoth : (fs.add spot data).entries.lookup other =
      (fs.entries.lookup other).or ([(spot, .file fs.newNumber data)].lookup other) :=
    List.lookup_append
  by_cases hSame : other = spot
  · subst hSame
    have hAdded : (fs.add other data).entryAt? other = (fs.add other data).entries.lookup other :=
      entryAt?_eq_lookup hHere
    rw [if_pos rfl, hAdded, hBoth, hNone]
    simp
  · have hOther : (other == spot) = false := beq_eq_false_iff_ne.2 hSame
    rw [if_neg hSame, entryAt?, hBoth]
    simp [entryAt?, List.lookup_cons, hOther, add]

theorem entryAt?_without (h : fs.entryAt? spot ≠ some .directory) :
    (fs.without spot).entryAt? spot = none := by
  have hNone : (fs.without spot).entries.lookup spot = none := by
    rw [List.lookup_eq_none_iff]
    intro known hMem
    have hKept := (List.mem_filter.1 hMem).2
    rwa [bne_comm]
  have hHere : spot.leadsTo fs.here = false := leadsTo_eq_false h
  exact (@entryAt?_eq_lookup (fs.without spot) spot hHere).trans hNone

/-- A file that is added at a vacant place and taken away again leaves nothing. -/
theorem without_add (h : fs.entryAt? spot = none) (data : Bytes) :
    (fs.add spot data).without spot = fs := by
  have hNone := List.lookup_eq_none_iff.1 (lookup_of_vacant h).2
  have hEntries : (fs.entries ++ [(spot, Entry.file fs.newNumber data)]).filter
      (fun known => known.1 != spot) = fs.entries := by
    rw [List.filter_append, List.filter_eq_self.2]
    · simp
    · intro known hMem
      rw [bne_comm]
      exact hNone known hMem
  unfold add without
  rw [hEntries]

theorem mem_entries (h : fs.entryAt? spot = some (.file number data)) :
    (spot, .file number data) ∈ fs.entries := by
  rw [entryAt?_eq_lookup (leadsTo_eq_false (by simp [h]))] at h
  obtain ⟨before, after, hEntries, -⟩ := List.lookup_eq_some_iff.1 h
  rw [hEntries]
  exact List.mem_append_cons_self

theorem number_lt_newNumber (h : (spot, Entry.file number data) ∈ fs.entries) :
    number < fs.newNumber := by
  unfold newNumber
  generalize fs.entries = entries at h
  induction entries with
  | nil => cases h
  | cons known rest ih =>
    rw [List.foldr_cons]
    rcases List.mem_cons.1 h with rfl | hMem
    · exact Nat.le_max_left _ _
    · have hRest := ih hMem
      split
      · exact Nat.lt_of_lt_of_le hRest (Nat.le_max_right _ _)
      · exact hRest

end

/-! ## What paths lead to -/

section
variable {fs : FileSystem} {follow : Spot → Path → List String → Except FileFault Found}
  {links : Nat} {spot : Spot} {names : List String} {found : Found} {path : Path}

theorem walkWith_stands
    (hFollow : ∀ spot target rest found, follow spot target rest = .ok found → found.Stands fs)
    (h : fs.walkWith follow spot names = .ok found) : found.Stands fs := by
  fun_induction walkWith fs follow spot names with
  | case1 =>
    cases h
    trivial
  | case2 _ _ ih => exact ih h
  | case3 => cases h
  | case4 _ _ _ _ _ _ ih => exact ih h
  | case5 _ _ _ _ _ _ _ hEntry =>
    cases h
    exact hEntry
  | case6 => cases h
  | case7 => exact hFollow _ _ _ _ h
  | case8 _ _ _ _ _ hEntry =>
    cases h
    exact hEntry
  | case9 => cases h

theorem walk_stands (h : fs.walk links spot names = .ok found) : found.Stands fs := by
  induction links generalizing spot names found with
  | zero => exact walkWith_stands (fun _ _ _ _ hFollow => by cases hFollow) h
  | succ links ih => exact walkWith_stands (fun _ _ _ _ hFollow => ih hFollow) h

theorem locate_ok_iff :
    fs.locate path = .ok found ↔
      pathFault? path = none ∧ fs.walk linkLimit (origin fs.here path) path.parts = .ok found := by
  unfold locate
  cases pathFault? path <;> simp

/-- What a path leads to is there. -/
theorem locate_stands (h : fs.locate path = .ok found) : found.Stands fs :=
  walk_stands (locate_ok_iff.1 h).2

end

/-! ## Writing -/

section
variable {fs after : FileSystem} {target : Target} {spot : Spot} {names : List String}
  {path other : Path} {data : Bytes}

theorem entryAt?_store (h : target.Stands fs) (data : Bytes) (spot : Spot) :
    (fs.store target data).entryAt? spot =
      if fs.targetAt? spot = some target then some (.file (fs.numberOf target) data)
      else fs.entryAt? spot := by
  cases target with
  | file number =>
    rw [store, entryAt?_overwrite, targetAt?]
    cases hEntry : fs.entryAt? spot with
    | none => simp
    | some entry =>
      cases entry with
      | file other old =>
        by_cases hSame : other = number
        · simp [Entry.overwrite, hSame, numberOf]
        · simp [Entry.overwrite, hSame]
      | directory => simp [Entry.overwrite]
      | link path => simp [Entry.overwrite]
  | vacant place =>
    rw [store, entryAt?_add h]
    by_cases hSame : spot = place
    · subst hSame
      have hVacant : fs.entryAt? spot = none := h
      simp [targetAt?, hVacant, numberOf]
    · have hApart : fs.targetAt? spot ≠ some (.vacant place) := by
        unfold targetAt?
        split <;> simp [hSame]
      rw [if_neg hSame, if_neg hApart]

/-- A walk after a write finds the file that was written where it found the target of the write, and
otherwise what it found before. -/
theorem walkWith_store {follow followAfter : Spot → Path → List String → Except FileFault Found}
    (h : target.Stands fs)
    (hFollow : ∀ spot link rest, (followAfter spot link rest).toOption =
      (follow spot link rest).toOption.map (Found.store fs target data)) :
    ((fs.store target data).walkWith followAfter spot names).toOption =
      (fs.walkWith follow spot names).toOption.map (Found.store fs target data) := by
  fun_induction walkWith fs follow spot names with
  | case1 => rfl
  | case2 spot rest ih => simpa [walkWith] using ih
  | case3 spot name rest hName hLength => simp [walkWith, hName, hLength, Except.toOption]
  | case4 spot name rest hName hLength hEntry ih =>
    have hAfter : (fs.store target data).entryAt? (spot.child name) = some .directory := by
      rw [entryAt?_store h]
      simp [targetAt?, hEntry]
    simpa [walkWith, hName, hLength, hAfter] using ih
  | case5 spot name rest hName hLength number old hEntry hLast =>
    by_cases hSame : target = .file number
    · subst hSame
      simp [walkWith, hName, hLength, entryAt?_store h, targetAt?, hEntry, hLast, Except.toOption,
        Found.store, Found.target?, Found.spot]
    · simp [walkWith, hName, hLength, entryAt?_store h, targetAt?, hEntry, hLast, Except.toOption,
        Found.store, Found.target?, Ne.symm hSame]
  | case6 spot name rest hName hLength number old hEntry hMore =>
    by_cases hSame : target = .file number
    · subst hSame
      simp [walkWith, hName, hLength, entryAt?_store h, targetAt?, hEntry, hMore, Except.toOption]
    · simp [walkWith, hName, hLength, entryAt?_store h, targetAt?, hEntry, hMore, Except.toOption,
        Ne.symm hSame]
  | case7 spot name rest hName hLength link hEntry =>
    have hAfter : (fs.store target data).entryAt? (spot.child name) = some (.link link) := by
      rw [entryAt?_store h]
      simp [targetAt?, hEntry]
    simpa [walkWith, hName, hLength, hAfter] using hFollow spot link rest
  | case8 spot name rest hName hLength hEntry hLast =>
    by_cases hSame : target = .vacant (spot.child name)
    · subst hSame
      simp [walkWith, hName, hLength, entryAt?_store h, targetAt?, hEntry, hLast, Except.toOption,
        Found.store, Found.target?, Found.spot]
    · simp [walkWith, hName, hLength, entryAt?_store h, targetAt?, hEntry, hLast, Except.toOption,
        Found.store, Found.target?, Ne.symm hSame]
  | case9 spot name rest hName hLength hEntry hMore =>
    -- a file on the way is as good as none
    by_cases hSame : target = .vacant (spot.child name)
    · subst hSame
      simp [walkWith, hName, hLength, entryAt?_store h, targetAt?, hEntry, hMore, Except.toOption]
    · simp [walkWith, hName, hLength, entryAt?_store h, targetAt?, hEntry, hMore, Except.toOption,
        Ne.symm hSame]

theorem walk_store (h : target.Stands fs) (links : Nat) (spot : Spot) (names : List String) :
    ((fs.store target data).walk links spot names).toOption =
      (fs.walk links spot names).toOption.map (Found.store fs target data) := by
  induction links generalizing spot names with
  | zero => exact walkWith_store h fun _ _ _ => rfl
  | succ links ih => exact walkWith_store h fun _ _ _ => ih _ _

@[simp]
theorem here_store (fs : FileSystem) (target : Target) (data : Bytes) :
    (fs.store target data).here = fs.here := by
  cases target <;> rfl

theorem locate_store (h : target.Stands fs) (path : Path) :
    ((fs.store target data).locate path).toOption =
      (fs.locate path).toOption.map (Found.store fs target data) := by
  unfold locate
  cases pathFault? path with
  | some fault => rfl
  | none =>
    rw [here_store]
    exact walk_store h _ _ _

theorem target?_eq_some_iff :
    fs.target? path = some target ↔
      ∃ found, fs.locate path = .ok found ∧ found.target? = some target := by
  unfold target?
  cases fs.locate path <;> simp [Except.toOption]

theorem stands_of_target? (h : fs.target? path = some target) : target.Stands fs := by
  obtain ⟨found, hFound, hTarget⟩ := target?_eq_some_iff.1 h
  have hStands := locate_stands hFound
  cases found with
  | directory => cases hTarget
  | file =>
    cases hTarget
    trivial
  | vacant =>
    cases hTarget
    exact hStands

theorem write_ok_iff :
    fs.write path data = .ok after ↔
      ∃ target, fs.target? path = some target ∧ after = fs.store target data := by
  unfold write target?
  cases fs.locate path with
  | error fault => simp [Except.toOption]
  | ok found => cases found <;> simp [Except.toOption, Found.target?, store, eq_comm]

theorem read_ok_iff :
    fs.read path = .ok data ↔ ∃ spot number, fs.locate path = .ok (.file spot number data) := by
  unfold read
  cases fs.locate path with
  | error fault => simp
  | ok found => cases found <;> simp

/-- After a write the paths that led to its target lead to one file, and all others lead to what
they led to before. -/
theorem target?_store (h : target.Stands fs) (path : Path) :
    (fs.store target data).target? path = (fs.target? path).map fun known =>
      if known = target then .file (fs.numberOf target) else known := by
  unfold target?
  rw [locate_store h]
  cases (fs.locate path).toOption with
  | none => rfl
  | some found =>
    by_cases hSame : found.target? = some target
    · simp only [Option.map_some, Option.bind_some, Found.store, hSame, if_true]
      rfl
    · simp only [Option.map_some, Option.bind_some, Found.store, if_neg hSame]
      cases hTarget : found.target? with
      | none => rfl
      | some known =>
        have hOther : known ≠ target := fun hKnown => hSame (hKnown ▸ hTarget)
        simp [hOther]

theorem targetAt?_of_target? (h : fs.target? path = some target) :
    ∃ spot, fs.targetAt? spot = some target := by
  obtain ⟨found, hFound, hTarget⟩ := target?_eq_some_iff.1 h
  have hStands := locate_stands hFound
  cases found with
  | directory => cases hTarget
  | file spot number data =>
    have hEntry : fs.entryAt? spot = some (.file number data) := hStands
    exact ⟨spot, by rw [targetAt?, hEntry]; exact hTarget⟩
  | vacant spot =>
    have hEntry : fs.entryAt? spot = none := hStands
    exact ⟨spot, by rw [targetAt?, hEntry]; exact hTarget⟩

/-- The file that is written to a vacant place is a new one. -/
theorem numberOf_ne {known : Target} (hKnown : fs.targetAt? spot = some known)
    (hApart : known ≠ target) : known ≠ .file (fs.numberOf target) := by
  cases target with
  | file number => exact hApart
  | vacant place =>
    rintro rfl
    unfold targetAt? at hKnown
    split at hKnown
    · next hEntry =>
      cases hKnown
      exact absurd (number_lt_newNumber (mem_entries hEntry)) (Nat.lt_irrefl _)
    · cases hKnown
    · cases hKnown
    · cases hKnown

/-- A place with another target than a write keeps what stands there, and still has another target
than all paths from which it had one. -/
theorem targetAt?_store_ne (h : target.Stands fs) (hApart : fs.targetAt? spot ≠ some target)
    (hOther : fs.targetAt? spot ≠ fs.target? path) :
    (fs.store target data).targetAt? spot ≠ (fs.store target data).target? path := by
  have hKept : (fs.store target data).targetAt? spot = fs.targetAt? spot := by
    rw [targetAt?, entryAt?_store h, if_neg hApart]
    rfl
  rw [hKept, target?_store h]
  cases hPath : fs.target? path with
  | none =>
    rw [hPath] at hOther
    exact hOther
  | some known =>
    by_cases hKnown : known = target
    · intro hSame
      rw [Option.map_some, if_pos hKnown] at hSame
      refine numberOf_ne hSame ?_ rfl
      rintro hFile
      exact hApart (hSame.trans (congrArg some hFile))
    · rw [Option.map_some, if_neg hKnown, ← hPath]
      exact hOther

/-- Two paths have one target after a write exactly if they have one before. -/
theorem target?_store_eq_iff (hTarget : fs.target? path = some target) (first second : Path) :
    (fs.store target data).target? first = (fs.store target data).target? second ↔
      fs.target? first = fs.target? second := by
  have hStands := stands_of_target? hTarget
  rw [target?_store hStands, target?_store hStands]
  refine ⟨?_, fun hSame => by rw [hSame]⟩
  have hNew : ∀ path known, fs.target? path = some known → known ≠ target →
      known ≠ .file (fs.numberOf target) := by
    intro path known hKnown hApart
    obtain ⟨spot, hSpot⟩ := targetAt?_of_target? hKnown
    exact numberOf_ne hSpot hApart
  cases hFirst : fs.target? first with
  | none =>
    cases fs.target? second with
    | none => exact fun _ => rfl
    | some known => intro h; cases h
  | some known =>
    cases hSecond : fs.target? second with
    | none => intro h; cases h
    | some other =>
      intro h
      have hBoth := Option.some.inj h
      by_cases hKnown : known = target
      · by_cases hOther : other = target
        · rw [hKnown, hOther]
        · simp only [if_pos hKnown, if_neg hOther] at hBoth
          exact absurd hBoth.symm (hNew second other hSecond hOther)
      · by_cases hOther : other = target
        · simp only [if_neg hKnown, if_pos hOther] at hBoth
          exact absurd hBoth (hNew first known hFirst hKnown)
        · simp only [if_neg hKnown, if_neg hOther] at hBoth
          rw [hBoth]

/-- A path with the target of a write reads what was written. -/
theorem read_store (h : fs.target? path = some target) (data : Bytes) :
    (fs.store target data).read path = .ok data := by
  obtain ⟨found, hFound, hTarget⟩ := target?_eq_some_iff.1 h
  have hAfter := @locate_store fs target data (stands_of_target? h) path
  have hStored : found.store fs target data = .file found.spot (fs.numberOf target) data :=
    if_pos hTarget
  rw [hFound, Except.toOption, Option.map_some, hStored] at hAfter
  exact read_ok_iff.2 ⟨found.spot, fs.numberOf target, eq_ok_of_toOption hAfter⟩

/-- A path with another target than a write reads what it read before. -/
theorem read_store_of_ne (h : target.Stands fs) (hApart : fs.target? path ≠ some target)
    {old : Bytes} (hRead : fs.read path = .ok old) :
    (fs.store target data).read path = .ok old := by
  obtain ⟨spot, number, hFound⟩ := read_ok_iff.1 hRead
  have hAfter := @locate_store fs target data h path
  have hOther : Found.target? (.file spot number old) ≠ some target := by
    intro hSame
    exact hApart (target?_eq_some_iff.2 ⟨_, hFound, hSame⟩)
  rw [hFound, Except.toOption, Option.map_some, Found.store, if_neg hOther] at hAfter
  exact read_ok_iff.2 ⟨spot, number, eq_ok_of_toOption hAfter⟩

end

/-! ## Removing -/

section
variable {fs after : FileSystem} {target : Target} {spot : Spot} {names : List String}
  {name : String} {found : Found} {path : Path} {data : Bytes}

/-- What the last name of a path has led to: something that stands at that name in a directory, or
something that a link there leads to. -/
def EndsIn (fs : FileSystem) (name : String) (found : Found) (directory : Found) : Prop :=
  name ≠ ".." ∧ ¬nameLimit < byteLength name ∧ ∃ spot, directory = .directory spot ∧
    ((∃ link, fs.entryAt? (spot.child name) = some (.link link)) ∨
      found.target? = fs.targetAt? (spot.child name))

theorem walkWith_concat {follow : Spot → Path → List String → Except FileFault Found}
    (hFollow : ∀ spot link rest, follow spot link (rest ++ [name]) = .ok found →
      ∃ directory, follow spot link rest = .ok directory ∧ fs.EndsIn name found directory)
    (hFound : found.target? ≠ none)
    (h : fs.walkWith follow spot (names ++ [name]) = .ok found) :
    ∃ directory, fs.walkWith follow spot names = .ok directory ∧
      fs.EndsIn name found directory := by
  induction names generalizing spot with
  | nil =>
    refine ⟨.directory spot, rfl, ?_⟩
    rw [List.nil_append, walkWith] at h
    by_cases hName : name = ".."
    · rw [if_pos hName] at h
      cases h
      exact absurd rfl hFound
    by_cases hLength : nameLimit < byteLength name
    · rw [if_neg hName, if_pos hLength] at h
      cases h
    refine ⟨hName, hLength, spot, rfl, ?_⟩
    rw [if_neg hName, if_neg hLength] at h
    cases hEntry : fs.entryAt? (spot.child name) with
    | none =>
      simp only [hEntry, List.isEmpty_nil, if_true] at h
      cases h
      exact .inr (by simp [Found.target?, targetAt?, hEntry])
    | some entry =>
      cases entry with
      | directory =>
        simp only [hEntry] at h
        cases h
        exact absurd rfl hFound
      | file number data =>
        simp only [hEntry, List.isEmpty_nil, if_true] at h
        cases h
        exact .inr (by simp [Found.target?, targetAt?, hEntry])
      | link link => exact .inl ⟨link, rfl⟩
  | cons first rest ih =>
    rw [List.cons_append, walkWith] at h
    rw [walkWith]
    by_cases hName : first = ".."
    · rw [if_pos hName] at h ⊢
      exact ih h
    by_cases hLength : nameLimit < byteLength first
    · rw [if_neg hName, if_pos hLength] at h
      cases h
    rw [if_neg hName, if_neg hLength] at h ⊢
    cases hEntry : fs.entryAt? (spot.child first) with
    | none => simp [hEntry] at h
    | some entry =>
      cases entry with
      | directory =>
        simp only [hEntry] at h ⊢
        exact ih h
      | file number data => simp [hEntry] at h
      | link link =>
        simp only [hEntry] at h ⊢
        exact hFollow spot link rest h

theorem walk_concat {links : Nat} (hFound : found.target? ≠ none)
    (h : fs.walk links spot (names ++ [name]) = .ok found) :
    ∃ directory, fs.walk links spot names = .ok directory ∧ fs.EndsIn name found directory := by
  induction links generalizing spot names with
  | zero =>
    refine walkWith_concat ?_ hFound h
    intro spot link rest hFollow
    cases hFollow
  | succ links ih =>
    refine walkWith_concat ?_ hFound h
    intro spot link rest hFollow
    rw [← List.append_assoc] at hFollow
    exact ih hFollow

theorem locateName_ok_iff :
    fs.locateName path = .ok spot ↔
      pathFault? path = none ∧ ∃ front name directory, path.parts = front ++ [name] ∧
        name ≠ ".." ∧ ¬nameLimit < byteLength name ∧
        fs.walk linkLimit (origin fs.here path) front = .ok (.directory directory) ∧
        spot = directory.child name := by
  unfold locateName
  constructor
  · intro h
    split at h
    · cases h
    · cases h
    · cases h
    · next name hName hFault hLast =>
      obtain ⟨front, hParts⟩ := List.getLast?_eq_some_iff.1 hLast
      rw [hParts, List.dropLast_concat] at h
      split at h
      · next directory hWalk =>
        split at h
        · cases h
        · next hLength =>
          cases h
          exact ⟨hFault, front, name, directory, hParts, hName, hLength, hWalk, rfl⟩
      · cases h
      · cases h
      · cases h
  · rintro ⟨hFault, front, name, directory, hParts, hName, hLength, hWalk, rfl⟩
    rw [hFault, hParts, List.getLast?_concat, List.dropLast_concat, hWalk]
    split
    · next hNone => cases hNone
    · next hNone => cases hNone
    · next hDots => exact absurd (Option.some.inj hDots) hName
    · next hSame =>
      cases hSame
      exact if_neg hLength

/-- The last name of a path that can be written has a place. What stands there is a link, or it is
what is written. -/
theorem locateName_of_target? (h : fs.target? path = some target) :
    ∃ spot, fs.locateName path = .ok spot ∧
      ((∃ link, fs.entryAt? spot = some (.link link)) ∨ fs.targetAt? spot = some target) := by
  obtain ⟨found, hFound, hTarget⟩ := target?_eq_some_iff.1 h
  obtain ⟨hFault, hWalk⟩ := locate_ok_iff.1 hFound
  have hSome : found.target? ≠ none := by simp [hTarget]
  rcases List.eq_nil_or_concat path.parts with hNil | ⟨front, name, hParts⟩
  · rw [hNil] at hWalk
    cases hWalk
    exact absurd rfl hSome
  · rw [hParts, List.concat_eq_append] at hWalk
    obtain ⟨_, hDirectory, hName, hLength, spot, rfl, hEnd⟩ := walk_concat hSome hWalk
    refine ⟨spot.child name, locateName_ok_iff.2 ⟨hFault, front, name, spot, ?_, hName, hLength,
      hDirectory, rfl⟩, ?_⟩
    · rw [hParts, List.concat_eq_append]
    · rw [hTarget] at hEnd
      exact hEnd.imp_right Eq.symm

/-- A write does not move the last name of a path. -/
theorem locateName_store (h : target.Stands fs) (hName : fs.locateName path = .ok spot) :
    (fs.store target data).locateName path = .ok spot := by
  obtain ⟨hFault, front, name, directory, hParts, hDots, hLength, hWalk, rfl⟩ :=
    locateName_ok_iff.1 hName
  refine locateName_ok_iff.2 ⟨hFault, front, name, directory, hParts, hDots, hLength, ?_, rfl⟩
  have hAfter := @walk_store fs target data h linkLimit (origin fs.here path) front
  rw [hWalk] at hAfter
  rw [here_store]
  exact eq_ok_of_toOption hAfter

/-- What removing leaves of a file that was written: nothing at the last name of its path. If
nothing stood there before, all is as it was before the write, and otherwise it is not. -/
theorem remove_of_write (h : fs.write path data = .ok after) :
    ∃ spot, fs.locateName path = .ok spot ∧ after.remove path = .ok (after.without spot) ∧
      (after.without spot = fs ↔ fs.entryAt? spot = none) := by
  obtain ⟨target, hTarget, rfl⟩ := write_ok_iff.1 h
  have hStands := stands_of_target? hTarget
  obtain ⟨spot, hName, hEnd⟩ := locateName_of_target? hTarget
  have hAfter : (fs.store target data).entryAt? spot ≠ some .directory := by
    rw [entryAt?_store hStands]
    split
    · exact fun hSame => by cases hSame
    · next hOther =>
      obtain ⟨link, hLink⟩ := hEnd.resolve_right hOther
      simp [hLink]
  refine ⟨spot, hName, ?_, ?_⟩
  · unfold remove
    rw [locateName_store hStands hName]
    dsimp only
    split
    · next hDirectory => exact absurd hDirectory hAfter
    · rfl
  · constructor
    · intro hSame
      rw [← hSame]
      exact entryAt?_without hAfter
    · intro hVacant
      have hSpot : fs.targetAt? spot = some (.vacant spot) := by rw [targetAt?, hVacant]
      have hOwn : target = .vacant spot := by
        rcases hEnd with ⟨link, hLink⟩ | hSame
        · rw [hVacant] at hLink
          cases hLink
        · exact Option.some.inj (hSame.symm.trans hSpot)
      rw [hOwn]
      exact without_add hVacant data

end
end FileSystem
end Lr35902
