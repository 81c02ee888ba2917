import Lr35902.CommandLine.Inspect
import Lr35902.Proofs.CommandFailure
import Lr35902.Proofs.LibraryOutput.Sessions

/-!
The two output formats of the assembler command. A write leaves two paths leading to one file if
they did before (`FileSystem.target?_store_eq_iff`), so whether some files can be written does not
depend on what they hold (`writeOutputs_ok_iff`), and of several outputs to one file the last one
stays (`read_writeOutputs`). Requests that differ in their format plan to write the code and a
library of it (`plan_formats`). Hence they succeed alike, and what is extracted from the library is
the flat binary (`library_agrees_with_binary`).
-/
namespace Lr35902

namespace AssembleCommand

/-! ## Writing the outputs -/

section
variable {files after : FileSystem} {outputs rest : List (Path × Bytes)} {written : List Path}
  {path : Path} {data : Bytes}

/-- Outputs that can all be written are written one after the other. -/
theorem writeOutputs_cons {access : Access} {output : Path × Bytes}
    (h : (writeOutputs access files written (output :: rest)).2 = .ok ()) :
    ∃ middle, access.write files output.1 output.2 = .ok middle ∧
      writeOutputs access files written (output :: rest) =
        writeOutputs access middle (written ++ [output.1]) rest := by
  obtain ⟨path, data⟩ := output
  rw [writeOutputs] at h ⊢
  cases hWrite : access.write files path data with
  | error error =>
    simp only [hWrite] at h
    split at h <;> cases h
  | ok middle => exact ⟨middle, rfl, rfl⟩

theorem writeOutputs_store {output : Path × Bytes}
    (h : (writeOutputs .standard files written (output :: rest)).2 = .ok ()) :
    ∃ target, files.target? output.1 = some target ∧
      writeOutputs .standard files written (output :: rest) =
        writeOutputs .standard (files.store target output.2) (written ++ [output.1]) rest := by
  obtain ⟨middle, hWrite, hRest⟩ := writeOutputs_cons h
  obtain ⟨target, hTarget, rfl⟩ := FileSystem.write_ok_iff.1 hWrite
  exact ⟨target, hTarget, hRest⟩

/-- Outputs can be written exactly if each path leads to a file or a vacant place, whatever is to be
written there. -/
theorem writeOutputs_ok_iff :
    (writeOutputs .standard files written outputs).2 = .ok () ↔
      ∀ output ∈ outputs, ∃ target, files.target? output.1 = some target := by
  induction outputs generalizing files written with
  | nil => simp [writeOutputs]
  | cons output rest ih =>
    obtain ⟨path, data⟩ := output
    rw [List.forall_mem_cons]
    constructor
    · intro h
      obtain ⟨target, hTarget, hRest⟩ := writeOutputs_store h
      rw [hRest, ih] at h
      refine ⟨⟨target, hTarget⟩, ?_⟩
      intro output hMem
      obtain ⟨later, hLater⟩ := h output hMem
      rw [FileSystem.target?_store (FileSystem.stands_of_target? hTarget)] at hLater
      obtain ⟨known, hKnown, -⟩ := Option.map_eq_some_iff.1 hLater
      exact ⟨known, hKnown⟩
    · rintro ⟨⟨target, hTarget⟩, hRest⟩
      have hWrite : Access.standard.write files path data = .ok (files.store target data) :=
        FileSystem.write_ok_iff.2 ⟨target, hTarget, rfl⟩
      rw [writeOutputs, hWrite]
      refine ih.2 ?_
      intro output hMem
      obtain ⟨known, hKnown⟩ := hRest output hMem
      rw [FileSystem.target?_store (FileSystem.stands_of_target? hTarget), hKnown]
      exact ⟨_, rfl⟩

/-- A path keeps what it reads if no output leads to the same file. -/
theorem read_writeOutputs_of_ne (h : (writeOutputs .standard files written outputs).2 = .ok ())
    (hApart : ∀ output ∈ outputs, files.target? output.1 ≠ files.target? path)
    (hRead : files.read path = .ok data) :
    (writeOutputs .standard files written outputs).1.read path = .ok data := by
  induction outputs generalizing files written with
  | nil => exact hRead
  | cons output rest ih =>
    obtain ⟨hOther, hRest⟩ := List.forall_mem_cons.1 hApart
    obtain ⟨target, hTarget, hNext⟩ := writeOutputs_store h
    rw [hNext] at h ⊢
    refine ih h ?_ ?_
    · intro output hMem
      rw [Ne, FileSystem.target?_store_eq_iff hTarget]
      exact hRest output hMem
    · refine FileSystem.read_store_of_ne (FileSystem.stands_of_target? hTarget) ?_ hRead
      intro hSame
      exact hOther (hTarget.trans hSame.symm)

/-- A path reads the last output that leads to the same file. -/
theorem read_writeOutputs {first : List (Path × Bytes)} {output : Path × Bytes}
    (h : (writeOutputs .standard files written (first ++ output :: rest)).2 = .ok ())
    (hSame : files.target? output.1 = files.target? path)
    (hRest : ∀ later ∈ rest, files.target? later.1 ≠ files.target? path) :
    (writeOutputs .standard files written (first ++ output :: rest)).1.read path =
      .ok output.2 := by
  induction first generalizing files written with
  | nil =>
    rw [List.nil_append] at h ⊢
    obtain ⟨target, hTarget, hNext⟩ := writeOutputs_store h
    rw [hNext] at h ⊢
    refine read_writeOutputs_of_ne h ?_ (FileSystem.read_store (hSame.symm.trans hTarget) _)
    intro later hMem
    rw [Ne, FileSystem.target?_store_eq_iff hTarget]
    exact hRest later hMem
  | cons known first ih =>
    rw [List.cons_append] at h ⊢
    obtain ⟨target, hTarget, hNext⟩ := writeOutputs_store h
    rw [hNext] at h ⊢
    refine ih h ((FileSystem.target?_store_eq_iff hTarget _ _).2 hSame) ?_
    intro later hMem
    rw [Ne, FileSystem.target?_store_eq_iff hTarget]
    exact hRest later hMem

/-- A place keeps what stands there if no output leads to it or to the file at it. -/
theorem entryAt?_writeOutputs (h : (writeOutputs .standard files written outputs).2 = .ok ())
    {spot : Spot} (hApart : ∀ output ∈ outputs, files.targetAt? spot ≠ files.target? output.1) :
    (writeOutputs .standard files written outputs).1.entryAt? spot = files.entryAt? spot := by
  induction outputs generalizing files written with
  | nil => rfl
  | cons output rest ih =>
    obtain ⟨hOther, hRest⟩ := List.forall_mem_cons.1 hApart
    obtain ⟨target, hTarget, hNext⟩ := writeOutputs_store h
    have hStands := FileSystem.stands_of_target? hTarget
    rw [hTarget] at hOther
    rw [hNext] at h ⊢
    rw [ih h, FileSystem.entryAt?_store hStands, if_neg hOther]
    intro output hMem
    exact FileSystem.targetAt?_store_ne hStands hOther (hRest output hMem)

end

section
variable {files : FileSystem} {request : Request}

theorem perform_exitCode_eq_zero_iff :
    (perform .standard files request).exitCode = 0 ↔
      ∃ outputs, plan files request = .ok outputs ∧
        ∀ output ∈ outputs, ∃ target, files.target? output.1 = some target := by
  obtain ⟨⟨error, hPlan⟩, hFails, -⟩ | ⟨data, more, hPlan, -, -, hCode⟩ :=
    perform_cases .standard files request
  · simp [hPlan, hFails]
  · rw [hCode, writeOutputs_ok_iff]
    simp only [hPlan, Except.ok.injEq, exists_eq_left']

/-- A command that does well leaves its output as it has planned it, unless the path of the symbol
listing leads to the same file. -/
theorem read_output {data : Bytes} {more : List (Path × Bytes)}
    (hPlan : plan files request = .ok ((request.output, data) :: more))
    (hCode : (perform .standard files request).exitCode = 0)
    (hApart : ∀ output ∈ more, files.target? output.1 ≠ files.target? request.output) :
    (perform .standard files request).files.read request.output = .ok data := by
  obtain ⟨⟨error, hError⟩, -⟩ | ⟨planned, others, hPlanned, -, hFiles, hExit⟩ :=
    perform_cases .standard files request
  · rw [hPlan] at hError
    cases hError
  · rw [hPlan] at hPlanned
    cases hPlanned
    rw [hExit] at hCode
    rw [hFiles]
    exact @read_writeOutputs _ _ _ _ [] _ hCode rfl hApart

end

/-! ## Plans in both formats -/

section
variable {files : FileSystem} {request : Request}

/-- Requests that differ in their format only plan nothing, or they plan to write what one assembly
gives. -/
theorem plan_cases (files : FileSystem) (request : Request) :
    (∃ error, ∀ format, plan files { request with format := format } = .error error) ∨
      ∃ (attempt : Attempt) (code : Bytes), attempt.files = files ∧
        attempt.input = .file request.input ∧ attempt.answer.result = .ok code ∧
        ∀ format data events,
          outputData { request with format := format } attempt.answer.session code =
              .ok (data, events) →
            plan files { request with format := format } =
              .ok ((request.output, data) :: symbolsData request attempt.answer.session) := by
  unfold plan
  dsimp only
  cases (Session.plain .standard request.verbose).addIncludePaths files request.includePaths with
  | error error => exact .inl ⟨error, fun _ => rfl⟩
  | ok found =>
    dsimp only
    cases defineAll found.1 request.defines with
    | error error => exact .inl ⟨error, fun _ => rfl⟩
    | ok session =>
      dsimp only
      cases hResult : (session.assembleFile files request.input).result with
      | error error => exact .inl ⟨error, fun _ => rfl⟩
      | ok code =>
        refine .inr ⟨⟨session, files, .file request.input⟩, code, rfl, rfl, hResult, ?_⟩
        intro format data events hData
        simp only [show outputData { request with format := format }
          (session.assembleFile files request.input).session code = _ from hData]
        rfl

/-- Requests that differ in their format only plan nothing, or they plan to write the code and a
library from which that code is read. -/
theorem plan_formats (hSize : files.size < Library.lengthLimit) (request : Request) :
    (∃ error, ∀ format, plan files { request with format := format } = .error error) ∨
      ∃ bytes library more,
        plan files { request with format := .library } = .ok ((request.output, bytes) :: more) ∧
        plan files { request with format := .binary } =
          .ok ((request.output, library.code) :: more) ∧
        Library.read bytes = .ok library ∧ ∀ output ∈ more, request.symbols = some output.1 := by
  rcases plan_cases files request with hError | ⟨attempt, code, hFiles, hInput, hResult, hPlan⟩
  · exact .inl hError
  · have hAttempt : attempt.size = files.size := by
      rw [Attempt.size, hInput, hFiles]
    obtain ⟨_, library, found, -, -, hLibrary, -, hRead, hPublishes⟩ :=
      Attempt.publishes hResult (hAttempt ▸ hSize)
    refine .inr ⟨library.write, found, symbolsData request attempt.answer.session, ?_, ?_, hRead,
      ?_⟩
    · refine hPlan .library library.write [library.writeEvent] ?_
      rw [outputData, hLibrary]
    · rw [hPublishes.code_eq]
      exact hPlan .binary code [] rfl
    · unfold symbolsData
      split
      · next path listing hPath _ =>
        rw [List.forall_mem_singleton]
        exact hPath
      · exact List.forall_mem_nil _

end
end AssembleCommand

/-! ## Extracting -/

namespace InspectCommand

/-- Extracting the file at a path writes some code, wherever that can be written. -/
def Extracts (files : FileSystem) (path : Path) (code : Bytes) : Prop :=
  ∀ output after, files.write output code = .ok after →
    (extract files path output).exitCode = 0 ∧ (extract files path output).files = after ∧
      after.read output = .ok code

theorem extracts_of_read {files : FileSystem} {path : Path} {bytes : Bytes} {library : Library}
    (h : files.read path = .ok bytes) (hRead : Library.read bytes = .ok library) :
    Extracts files path library.code := by
  intro output after hWrite
  obtain ⟨target, hTarget, hAfter⟩ := FileSystem.write_ok_iff.1 hWrite
  rw [extract, load, h]
  simp only [hRead, hWrite, true_and]
  rw [hAfter]
  exact FileSystem.read_store hTarget _

end InspectCommand

/-! ## Both formats -/

namespace AssembleCommand

/-- Libraries and flat binaries agree. Whatever assembles has a library that can be stored, and what
is read back has the code and, as a map, exactly the labels of the source, none beyond the code.
Requests that differ in the format only succeed alike, and what is extracted from the library is the
flat binary, unless the path of the symbol listing leads to the file of the output. The size of what
can be read stays below what lengths of 64 bits can count. -/
theorem library_agrees_with_binary :
    (∀ (attempt : Attempt) (code : Bytes), attempt.answer.result = .ok code →
      attempt.size < Library.lengthLimit →
      ∃ clauses library found, attempt.Unfolds clauses ∧
        attempt.answer.session.code = .ok code ∧ attempt.answer.session.library = .ok library ∧
        library.Storable ∧ Library.read library.write = .ok found ∧
        found.Publishes attempt.session.defines clauses code) ∧
    ∀ (files : FileSystem) (request : Request), files.size < Library.lengthLimit →
      ((perform .standard files { request with format := .library }).exitCode = 0 ↔
        (perform .standard files { request with format := .binary }).exitCode = 0) ∧
      ((perform .standard files { request with format := .binary }).exitCode = 0 →
        (∀ path, request.symbols = some path →
          files.target? path ≠ files.target? request.output) →
        ∃ code,
          (perform .standard files { request with format := .binary }).files.read request.output =
            .ok code ∧
          InspectCommand.Extracts
            (perform .standard files { request with format := .library }).files request.output
            code) := by
  refine ⟨fun attempt code hAnswer hSize => Attempt.publishes hAnswer hSize, ?_⟩
  intro files request hSize
  obtain ⟨error, hError⟩ | ⟨bytes, library, more, hBytes, hCode, hRead, hMore⟩ :=
    plan_formats hSize request
  · simp [perform_exitCode_eq_zero_iff, hError]
  · -- the same paths are written in both formats
    have hSame : (perform .standard files { request with format := .library }).exitCode = 0 ↔
        (perform .standard files { request with format := .binary }).exitCode = 0 := by
      simp only [perform_exitCode_eq_zero_iff, hBytes, hCode, Except.ok.injEq, exists_eq_left',
        List.forall_mem_cons]
    refine ⟨hSame, ?_⟩
    intro hExit hSymbols
    have hApart : ∀ output ∈ more, files.target? output.1 ≠ files.target? request.output :=
      fun output hMem => hSymbols output.1 (hMore output hMem)
    refine ⟨library.code, read_output hCode hExit hApart, ?_⟩
    exact InspectCommand.extracts_of_read (read_output hBytes (hSame.2 hExit) hApart) hRead

/-- A text with a label, whose constant is defined beforehand; and a file that is assembled in both
formats, from one of which its code is extracted. The symbol listing goes to another file, whose
path is absolute. -/
theorem library_agrees_with_binary_forward :
    let attempt : Attempt := ⟨⟨[], ⟨[("five", 5)]⟩, false, .standard, none⟩, .empty,
      .text "jr end\nend: ld a, five\n" "<input>"⟩
    let files : FileSystem := ⟨⟨["work"]⟩,
      [(⟨["work", "game.asm"]⟩, .file 0 (Utf8.encode "end: jp end\n".toList))]⟩
    let request : Request := ⟨⟨"", ["game.asm"]⟩, ⟨"", ["out.gb"]⟩, .binary, [], [],
      some ⟨"/", ["work", "game.sym"]⟩, false⟩
    let library := perform .standard files { request with format := .library }
    let binary := perform .standard files request
    let extracted := InspectCommand.extract library.files ⟨"", ["out.gb"]⟩ ⟨"", ["flat.gb"]⟩
    (attempt.answer.result.toOption = some [0x18, 0, 0x3E, 5] ∧
      ∃ stored found, attempt.answer.session.library = .ok stored ∧
        Library.read stored.write = .ok found ∧ found.code = [0x18, 0, 0x3E, 5] ∧
        found.symbols.find? "five" = none) ∧
    binary.exitCode = 0 ∧ library.exitCode = 0 ∧ extracted.exitCode = 0 ∧
      ∃ code, binary.files.read ⟨"", ["out.gb"]⟩ = .ok code ∧
        extracted.files.read ⟨"", ["flat.gb"]⟩ = .ok code := by
  intro attempt files request library binary extracted
  refine ⟨?_, ?_⟩
  · have hAnswer : attempt.answer.result.toOption = some [0x18, 0, 0x3E, 5] := by decide +kernel
    obtain ⟨clauses, stored, found, -, -, hStored, -, hRead, hPublishes⟩ :=
      library_agrees_with_binary.1 attempt _ (eq_ok_of_toOption hAnswer)
        (by decide +kernel)
    exact ⟨hAnswer, stored, found, hStored, hRead, hPublishes.code_eq,
      hPublishes.predefined ("five", 5) List.mem_cons_self⟩
  · obtain ⟨hSame, hCode⟩ := library_agrees_with_binary.2 files request (by decide +kernel)
    have hBinary : binary.exitCode = 0 := by decide +kernel
    have hApart : files.target? ⟨"/", ["work", "game.sym"]⟩ ≠ files.target? ⟨"", ["out.gb"]⟩ := by
      decide +kernel
    obtain ⟨code, hRead, hExtracts⟩ := hCode hBinary fun path hPath => by cases hPath; exact hApart
    have hTarget : library.files.target? ⟨"", ["flat.gb"]⟩ =
        some (.vacant ⟨["work", "flat.gb"]⟩) := by
      decide +kernel
    obtain ⟨hExit, hFiles, hFlat⟩ := hExtracts ⟨"", ["flat.gb"]⟩ _
      (FileSystem.write_ok_iff.2 ⟨_, hTarget, rfl⟩)
    refine ⟨hBinary, hSame.2 hBinary, hExit, code, hRead, ?_⟩
    rw [show extracted.files = _ from hFiles]
    exact hFlat

end AssembleCommand
end Lr35902
