import Lr35902.CommandLine.Assemble
import Lr35902.Proofs.Files

/-!
What a failed assembler command leaves of the files. The command knows all that it has to write
before it writes anything (`plan`), and the ways of writing and removing files are only asked to do
either wholly or not at all (`Access.Whole`), so it can be left with a part of its work at one point
only: the output is there and the symbol listing cannot be written (`CutOff`). It then removes the
output, which restores the files if nothing stood at its place before (`remove_of_write`), but not
if the output has replaced a file (`files_eq_iff_of_failure`).
-/
namespace Lr35902

/-! ## Whole writes and removals -/

namespace FileSystem

/-- Whatever keeps a file from being written leaves all files as they are; a write that happens is
the whole of it. -/
def Writer.Whole (write : Writer) : Prop :=
  ∀ files path data after, write files path data = .ok after → files.write path data = .ok after

/-- Whatever keeps a file from being removed leaves all files as they are; a removal that happens is
the whole of it. -/
def Remover.Whole (remove : Remover) : Prop :=
  ∀ files path after, remove files path = .ok after → files.remove path = .ok after

/-- The way of writing that fails at one path only. -/
def Writer.refusing (path : Path) : Writer :=
  fun files place data =>
    if place = path then .error ⟨.isDirectory, path.text⟩ else files.write place data

theorem Writer.refusing_whole (path : Path) : (Writer.refusing path).Whole := by
  intro files place data after h
  unfold refusing at h
  split at h
  · cases h
  · exact h

/-- Nothing stands at the last name of a path, not even a link. -/
def Free (fs : FileSystem) (path : Path) : Prop :=
  ∃ spot, fs.locateName path = .ok spot ∧ fs.entryAt? spot = none

end FileSystem

/-! ## What a command has to write -/

namespace AssembleCommand

/-- Writing and removing never leave a part of their work. -/
structure Access.Whole (access : Access) : Prop where
  write : access.write.Whole
  remove : access.remove.Whole

/-- The files that a request has to write: the output and, if it is asked for, the symbol
listing. -/
def plan (files : FileSystem) (request : Request) : Except Error (List (Path × Bytes)) :=
  match (Session.plain .standard request.verbose).addIncludePaths files request.includePaths with
  | .error error => .error error
  | .ok (session, _) =>
    match defineAll session request.defines with
    | .error error => .error error
    | .ok session =>
      let answer := session.assembleFile files request.input
      match answer.result with
      | .error error => .error error
      | .ok code =>
        match outputData request answer.session code with
        | .error error => .error error
        | .ok (data, _) => .ok ((request.output, data) :: symbolsData request answer.session)

/-- The output is written, which gives `middle`, and then the symbol listing cannot be. -/
def CutOff (access : Access) (files : FileSystem) (request : Request) (middle : FileSystem) :
    Prop :=
  ∃ data symbols listing error,
    plan files request = .ok [(request.output, data), (symbols, listing)] ∧
      access.write files request.output data = .ok middle ∧
      access.write middle symbols listing = .error error

section
variable {access : Access} {files middle : FileSystem} {request : Request}

@[simp] theorem fail_files (printed : Printed) (error : Error) :
    (fail printed request files error).files = files := rfl

theorem fail_exitCode_ne_zero (printed : Printed) (error : Error) :
    (fail printed request files error).exitCode ≠ 0 := by
  show error.sort.exitCode ≠ 0
  cases error.sort <;> decide

theorem symbolsData_length_le (request : Request) (session : Session) :
    (symbolsData request session).length ≤ 1 := by
  unfold symbolsData
  split <;> simp

/-- A command with nothing to write fails and leaves all files; one with a plan writes it, and does
well exactly if that does. -/
theorem perform_cases (access : Access) (files : FileSystem) (request : Request) :
    ((∃ error, plan files request = .error error) ∧
        (perform access files request).exitCode ≠ 0 ∧
        (perform access files request).files = files) ∨
      ∃ data more,
        plan files request = .ok ((request.output, data) :: more) ∧ more.length ≤ 1 ∧
          (perform access files request).files =
            (writeOutputs access files [] ((request.output, data) :: more)).1 ∧
          ((perform access files request).exitCode = 0 ↔
            (writeOutputs access files [] ((request.output, data) :: more)).2 = .ok ()) := by
  unfold plan perform performWith deliver
  simp only
  cases (Session.plain .standard request.verbose).addIncludePaths files request.includePaths with
  | error error => exact .inl ⟨⟨error, rfl⟩, fail_exitCode_ne_zero _ _, rfl⟩
  | ok found =>
    simp only
    cases defineAll found.1 request.defines with
    | error error => exact .inl ⟨⟨error, rfl⟩, fail_exitCode_ne_zero _ _, rfl⟩
    | ok session =>
      simp only
      cases (session.assembleFile files request.input).result with
      | error error => exact .inl ⟨⟨error, rfl⟩, fail_exitCode_ne_zero _ _, rfl⟩
      | ok code =>
        simp only
        cases outputData request (session.assembleFile files request.input).session code with
        | error error => exact .inl ⟨⟨error, rfl⟩, fail_exitCode_ne_zero _ _, rfl⟩
        | ok made =>
          refine .inr ⟨made.1, _, rfl, symbolsData_length_le _ _, ?_⟩
          simp only
          split
          · next hWritten => simp [hWritten, fail_exitCode_ne_zero]
          · next hWritten => simp [hWritten]

/-- Removing one file leaves the files without it, or as they are. -/
theorem removeAll_one (access : Access) (files : FileSystem) (path : Path) :
    (removeAll access files [path]).1 = ((access.remove files path).toOption).getD files := by
  unfold removeAll
  cases access.remove files path <;> rfl

/-- What a request that fails leaves: all files, unless its writing was cut off. Then it has tried
to remove the output. -/
theorem perform_files_of_failure (hFail : (perform access files request).exitCode ≠ 0) :
    (∃ middle, CutOff access files request middle ∧
        (perform access files request).files =
          ((access.remove middle request.output).toOption).getD middle) ∨
      ((∀ middle, ¬CutOff access files request middle) ∧
        (perform access files request).files = files) := by
  obtain ⟨⟨error, hPlan⟩, -, hFiles⟩ | ⟨data, more, hPlan, hShort, hFiles, hCode⟩ :=
    perform_cases access files request
  · refine .inr ⟨?_, hFiles⟩
    rintro middle ⟨_, _, _, _, hPlanned, _⟩
    simp [hPlan] at hPlanned
  · rw [hFiles]
    rw [Ne, hCode] at hFail
    unfold writeOutputs at hFail ⊢
    cases hFirst : access.write files request.output data with
    | error error =>
      refine .inr ⟨?_, rfl⟩
      rintro middle ⟨data', _, _, _, hPlanned, hWritten, _⟩
      obtain ⟨rfl, -⟩ : data = data' ∧ _ := by simpa [hPlan] using hPlanned
      simp [hFirst] at hWritten
    | ok middle =>
      simp only [hFirst] at hFail ⊢
      match more, hShort with
      | [], _ => exact absurd rfl hFail
      | [(symbols, listing)], _ =>
        unfold writeOutputs at hFail ⊢
        cases hSecond : access.write middle symbols listing with
        | ok last => simp [hSecond, writeOutputs] at hFail
        | error error =>
          refine .inl ⟨middle, ⟨data, symbols, listing, error, hPlan, hFirst, hSecond⟩, ?_⟩
          rw [← removeAll_one]
          dsimp only [List.nil_append]
          split <;> simp [*]

/-- There is one way in which a command can be cut off. -/
theorem CutOff.unique {other : FileSystem} (h : CutOff access files request middle)
    (hOther : CutOff access files request other) : other = middle := by
  obtain ⟨data, _, _, _, hPlan, hWrite, _⟩ := h
  obtain ⟨data', _, _, _, hPlan', hWrite', _⟩ := hOther
  obtain ⟨rfl, -⟩ : data = data' ∧ _ := by simpa [hPlan] using hPlan'
  simpa [hWrite] using hWrite'.symm

/-- A command that is cut off removes whatever stands at the last name of the output's path. -/
theorem CutOff.remove_eq (hWrite : access.write.Whole) (h : CutOff access files request middle) :
    ∃ spot, files.locateName request.output = .ok spot ∧
      middle.remove request.output = .ok (middle.without spot) ∧
      (middle.without spot = files ↔ files.Free request.output) := by
  obtain ⟨data, _, _, _, _, hWritten, _⟩ := h
  obtain ⟨spot, hName, hRemove, hSame⟩ := FileSystem.remove_of_write (hWrite _ _ _ _ hWritten)
  refine ⟨spot, hName, hRemove, hSame.trans ?_⟩
  simp [FileSystem.Free, hName]

/-- A command that fails leaves all files as they were unless its writing was cut off after the
output was written. It then leaves them so if the output can be removed and nothing stood at its
place before, or if it cannot be removed and writing it has changed nothing. What a command that is
cut off leaves is the files with the output, or without what stands at its place. -/
theorem files_eq_iff_of_failure (hAccess : access.Whole)
    (hFail : (perform access files request).exitCode ≠ 0) :
    ((perform access files request).files = files ↔
        ∀ middle, CutOff access files request middle →
          match access.remove middle request.output with
          | .ok _ => files.Free request.output
          | .error _ => middle = files) ∧
      ∀ middle, CutOff access files request middle →
        match access.remove middle request.output with
        | .ok _ => ∃ spot, files.locateName request.output = .ok spot ∧
            (perform access files request).files = middle.without spot
        | .error _ => (perform access files request).files = middle := by
  obtain ⟨middle, hCut, hFiles⟩ | ⟨hWhole, hFiles⟩ := perform_files_of_failure hFail
  · rw [hFiles]
    have hOnly : ∀ other, CutOff access files request other ↔ other = middle := by
      intro other
      constructor
      · exact hCut.unique
      · rintro rfl
        exact hCut
    simp only [hOnly, forall_eq]
    obtain ⟨spot, hName, hRemove, hSame⟩ := hCut.remove_eq hAccess.write
    cases hRemoved : access.remove middle request.output with
    | error error => simp [Except.toOption]
    | ok after =>
      obtain rfl : middle.without spot = after := by
        simpa [hRemove] using hAccess.remove _ _ _ hRemoved
      exact ⟨hSame, spot, hName, rfl⟩
  · refine ⟨?_, ?_⟩
    · simp [hFiles, hWhole]
    · intro middle hCut
      exact absurd hCut (hWhole middle)

/-- A symbol listing that cannot be written takes a new output with it. -/
theorem files_eq_iff_of_failure_new_output :
    let access : Access := ⟨FileSystem.Writer.refusing ⟨"", ["game.sym"]⟩, FileSystem.remove⟩
    let files : FileSystem := ⟨⟨["work"]⟩, [(⟨["work", "game.asm"]⟩, .file 0 [0x6E, 0x6F, 0x70])]⟩
    let request : Request :=
      ⟨⟨"", ["game.asm"]⟩, ⟨"", ["out.gb"]⟩, .binary, [], [], some ⟨"", ["game.sym"]⟩, false⟩
    access.Whole ∧ (perform access files request).exitCode = 2 ∧
      (perform access files request).files = files := by
  intro access files request
  have hAccess : access.Whole :=
    ⟨FileSystem.Writer.refusing_whole _, fun _ _ _ hRemove => hRemove⟩
  have hCode : (perform access files request).exitCode = 2 := by decide +kernel
  have hFree : files.Free request.output := by
    refine ⟨⟨["work", "out.gb"]⟩, eq_ok_of_toOption ?_, ?_⟩ <;> decide +kernel
  refine ⟨hAccess, hCode, (files_eq_iff_of_failure hAccess (by rw [hCode]; decide)).1.2 ?_⟩
  intro middle hCut
  obtain ⟨spot, _, hRemove, _⟩ := hCut.remove_eq hAccess.write
  rw [show access.remove middle request.output = _ from hRemove]
  exact hFree

/-- A symbol listing in a missing directory takes a file with it that the output has replaced. -/
theorem replaced_output_lost :
    let files : FileSystem :=
      ⟨⟨["work"]⟩, [(⟨["work", "game.asm"]⟩, .file 0 [0x6E, 0x6F, 0x70, 0x0A]),
        (⟨["work", "out.gb"]⟩, .file 1 [0x6F, 0x6C, 0x64])]⟩
    let request : Request :=
      ⟨⟨"", ["game.asm"]⟩, ⟨"", ["out.gb"]⟩, .binary, [], [], some ⟨"", ["nodir", "game.sym"]⟩,
        false⟩
    (perform .standard files request).exitCode = 2 ∧
      (perform .standard files request).files.entries =
        [(⟨["work", "game.asm"]⟩, .file 0 [0x6E, 0x6F, 0x70, 0x0A])] := by
  decide +kernel

end
end AssembleCommand
end Lr35902
