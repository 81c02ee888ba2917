import Lr35902.Proofs.LibraryOutput.Commands

/-!
What an assembler command that does well leaves of the files. A request determines the program and
the code of its input (`Request.Assembles`), and what the command plans to write is made of these
two (`plan_assembles`). The symbol listing is written last, so it is always delivered, and the
output is delivered too unless the listing has taken its place; no other file changes
(`delivers_iff`).
-/
namespace Lr35902

namespace AssembleCommand

/-! ## What a request asks for -/

/-- Where a request finds included files: in the directories that it names, each once. -/
def Request.surroundings (files : FileSystem) (request : Request) : Surroundings :=
  ⟨files, (request.includePaths.filter fun path =>
    decide (files.isDirectory path = .ok true)).eraseDups, none⟩

/-- The input of a request, with the constants that it predefines, describes a program, and the
program has some code. -/
def Request.Assembles (files : FileSystem) (request : Request) (program : Program)
    (code : Bytes) : Prop :=
  ∃ text constants event, files.readText request.input = .ok text ∧
    List.Forall₂ (fun text constant => Define.parse text = .ok constant) request.defines
      constants ∧
    (assembleText (request.surroundings files) (String.ofList text) request.input.text
      (.ofList constants)).result = .ok program ∧
    MachineCode.generate .standard program = .ok (code, event)

/-- The code of a program in a format: as it is, or in a library with the labels of the program. -/
def Format.serialize (program : Program) (code : Bytes) : Format → Bytes
  | .binary => code
  | .library => (Library.ofLabels code program.symbols.labels).write

/-- The symbol listing of a program as a file. -/
def listingBytes (program : Program) : Bytes := Utf8.encode program.symbols.listing.toList

/-- The outputs of a request: some data, and the symbol listing if it is asked for. -/
def outputsOf (request : Request) (program : Program) (data : Bytes) : List (Path × Bytes) :=
  (request.output, data) :: request.symbols.toList.map fun path => (path, listingBytes program)

/-- Beside the output files are as a request asks for: its symbol file holds the listing, and no
other place has changed. -/
structure DeliversBeside (files after : FileSystem) (request : Request) (program : Program) :
    Prop where
  symbols : ∀ path, request.symbols = some path → after.read path = .ok (listingBytes program)
  others : ∀ spot, files.targetAt? spot ≠ files.target? request.output →
    (∀ path, request.symbols = some path → files.targetAt? spot ≠ files.target? path) →
    after.entryAt? spot = files.entryAt? spot

/-- Files are as a request asks for, and its output holds the code. -/
structure Delivers (files after : FileSystem) (request : Request) (program : Program)
    (code : Bytes) : Prop extends DeliversBeside files after request program where
  output : after.read request.output = .ok (request.format.serialize program code)

/-- The symbol file of a request is its output, whatever links lead to it and however the two paths
are spelled. -/
def Request.Clashes (files : FileSystem) (request : Request) : Prop :=
  ∃ path, request.symbols = some path ∧ files.target? path = files.target? request.output

section
variable {files : FileSystem} {request : Request} {session after : Session}

/-- A path is added if it leads to a directory and is new. -/
theorem addIncludePath_eq {path : Path} {events : List Event}
    (h : session.addIncludePath files path = .ok (after, events)) :
    after = { session with
      includePaths :=
        if files.isDirectory path = .ok true ∧ path ∉ session.includePaths then
          session.includePaths ++ [path]
        else session.includePaths } := by
  unfold Session.addIncludePath at h
  cases hDirectory : files.isDirectory path with
  | error error =>
    rw [hDirectory] at h
    cases h
  | ok isDirectory =>
    rw [hDirectory] at h
    cases isDirectory with
    | false =>
      cases h
      simp
    | true =>
      by_cases hKnown : path ∈ session.includePaths
      · simp only [List.contains_eq_mem, hKnown, decide_true, if_true] at h
        cases h
        simp [hKnown]
      · simp only [List.contains_eq_mem, hKnown, decide_false, Bool.false_eq_true, if_false] at h
        cases h
        simp [hKnown]

/-- Paths are added as removing repetitions keeps them, if they lead to directories. -/
theorem addIncludePaths_eq {paths : List Path} {events : List Event}
    (h : session.addIncludePaths files paths = .ok (after, events)) :
    after = { session with
      includePaths := List.eraseDupsBy.loop (· == ·)
        (paths.filter fun path => decide (files.isDirectory path = .ok true))
        session.includePaths.reverse } := by
  induction paths generalizing session events with
  | nil =>
    cases h
    simp [List.eraseDupsBy.loop]
  | cons path rest ih =>
    rw [Session.addIncludePaths] at h
    split at h
    · cases h
    · next middle _ hPath =>
      split at h
      · cases h
      · next hRest =>
        cases h
        rw [ih hRest, addIncludePath_eq hPath]
        by_cases hDirectory : files.isDirectory path = .ok true
        · rw [List.filter_cons_of_pos (by simpa using hDirectory), List.eraseDupsBy.loop]
          have hAny : session.includePaths.reverse.any (path == ·) =
              decide (path ∈ session.includePaths) := by
            rw [List.any_reverse, List.any_beq, List.contains_eq_mem]
          by_cases hKnown : path ∈ session.includePaths
          · simp only [hDirectory, hKnown, not_true_eq_false, and_false, if_false, hAny,
              decide_true]
          · simp only [hDirectory, hKnown, not_false_eq_true, and_self, if_true, hAny,
              decide_false, List.reverse_append, List.reverse_singleton, List.singleton_append]
        · rw [List.filter_cons_of_neg (by simpa using hDirectory)]
          simp only [hDirectory, false_and, if_false]

/-- Constants are predefined as their texts say. -/
theorem defineAll_eq {texts : List String} (h : defineAll session texts = .ok after) :
    ∃ constants, List.Forall₂ (fun text constant => Define.parse text = .ok constant) texts
        constants ∧
      after = { session with defines := session.defines.insertAll constants } := by
  induction texts generalizing session with
  | nil =>
    cases h
    exact ⟨[], .nil, rfl⟩
  | cons text rest ih =>
    rw [defineAll] at h
    cases hParse : Define.parse text with
    | error error =>
      rw [hParse] at h
      cases h
    | ok constant =>
      obtain ⟨name, value⟩ := constant
      simp only [hParse, Session.define] at h
      split at h
      · cases h
      · next extended hDefine =>
        split at hDefine
        · cases hDefine
          obtain ⟨constants, hConstants, rfl⟩ := ih h
          exact ⟨(name, value) :: constants, .cons hParse hConstants, rfl⟩
        · cases hDefine

/-- The program of an input that gave code, and all that the session has to tell of it. -/
theorem exists_program {code : Bytes}
    (h : (session.assembleFile files request.input).result = .ok code) :
    ∃ text program event, files.readText request.input = .ok text ∧
      (assembleText (session.surroundings files) (String.ofList text) request.input.text
        session.defines).result = .ok program ∧
      MachineCode.generate session.chunk program = .ok (code, event) ∧
      (session.assembleFile files request.input).session.account =
        .ofAssembled ⟨program, code⟩ := by
  let attempt : Attempt := ⟨session, files, .file request.input⟩
  have hAnswer : attempt.answer.result = .ok code := h
  obtain ⟨program, event, ⟨text, file, hSource, hProgram⟩, hCode, hAccount⟩ :=
    (Account.tellsOf_ok hAnswer).1 (Attempt.account_answer (Attempt.readable_of_answer hAnswer))
  simp only [Attempt.source, attempt] at hSource
  split at hSource
  · next found hRead =>
    cases hSource
    exact ⟨found, program, event, hRead, hProgram, hCode, hAccount⟩
  · cases hSource

theorem outputData_eq {assembled : Assembled} (h : session.account = .ofAssembled assembled) :
    ∃ events, outputData request session assembled.code =
      .ok (request.format.serialize assembled.program assembled.code, events) := by
  have hLibrary : session.library = .ok _ := congrArg Account.library h
  unfold outputData
  cases request.format with
  | binary => exact ⟨[], rfl⟩
  | library => simp only [hLibrary, Format.serialize, Except.ok.injEq, Prod.mk.injEq, true_and,
      exists_eq']

theorem symbolsData_eq {assembled : Assembled} (h : session.account = .ofAssembled assembled) :
    symbolsData request session =
      request.symbols.toList.map fun path => (path, listingBytes assembled.program) := by
  have hListing : session.listing = .ok _ := congrArg Account.listing h
  unfold symbolsData
  cases request.symbols with
  | none => rfl
  | some path =>
    rw [hListing]
    rfl

/-- What a command plans to write is made of the program and the code of its input. -/
theorem plan_assembles {outputs : List (Path × Bytes)} (h : plan files request = .ok outputs) :
    ∃ program code, request.Assembles files program code ∧
      outputs = outputsOf request program (request.format.serialize program code) := by
  unfold plan at h
  split at h
  · cases h
  · next session _ hPaths =>
    split at h
    · cases h
    · next configured hDefines =>
      obtain ⟨constants, hConstants, rfl⟩ := defineAll_eq hDefines
      obtain rfl := addIncludePaths_eq hPaths
      dsimp only at h
      split at h
      · cases h
      · next code hCode =>
        obtain ⟨text, program, event, hText, hProgram, hGenerate, hAccount⟩ := exists_program hCode
        obtain ⟨events, hData⟩ := outputData_eq hAccount
        rw [hData, symbolsData_eq hAccount] at h
        cases h
        exact ⟨program, code, ⟨text, constants, event, hText, hConstants, hProgram, hGenerate⟩, rfl⟩

end

/-! ## What is delivered -/

section
variable {access : Access} {files : FileSystem} {request : Request} {program : Program}
  {data : Bytes}

/-- Wholly written outputs are those that the file system would have written. -/
theorem writeOutputs_of_whole (hWrite : access.write.Whole) {written : List Path}
    {outputs : List (Path × Bytes)} (h : (writeOutputs access files written outputs).2 = .ok ()) :
    writeOutputs access files written outputs = writeOutputs .standard files written outputs := by
  induction outputs generalizing files written with
  | nil => rfl
  | cons output rest ih =>
    obtain ⟨middle, hFirst, hRest⟩ := writeOutputs_cons h
    have hStandard : Access.standard.write files output.1 output.2 = .ok middle :=
      hWrite _ _ _ _ hFirst
    rw [hRest] at h ⊢
    rw [ih h, writeOutputs, hStandard]

theorem outputsOf_eq {path : Path} (h : request.symbols = some path) :
    outputsOf request program data =
      [(request.output, data)] ++ [(path, listingBytes program)] := by
  simp [outputsOf, h]

theorem deliversBeside_of_written
    (h : (writeOutputs .standard files [] (outputsOf request program data)).2 = .ok ()) :
    DeliversBeside files (writeOutputs .standard files [] (outputsOf request program data)).1
      request program where
  symbols path hPath := by
    rw [outputsOf_eq hPath] at h ⊢
    exact read_writeOutputs h rfl (List.forall_mem_nil _)
  others spot hOutput hSymbols := by
    refine entryAt?_writeOutputs h ?_
    refine List.forall_mem_cons.2 ⟨hOutput, ?_⟩
    intro output hMem
    obtain ⟨path, hPath, rfl⟩ := List.mem_map.1 hMem
    exact hSymbols path (Option.mem_toList.1 hPath)

/-- The output holds its data unless the listing has taken its place. -/
theorem read_output_of_written
    (h : (writeOutputs .standard files [] (outputsOf request program data)).2 = .ok ()) :
    (request.Clashes files →
      (writeOutputs .standard files [] (outputsOf request program data)).1.read request.output =
        .ok (listingBytes program)) ∧
    (¬request.Clashes files →
      (writeOutputs .standard files [] (outputsOf request program data)).1.read request.output =
        .ok data) := by
  constructor
  · rintro ⟨path, hPath, hSame⟩
    rw [outputsOf_eq hPath] at h ⊢
    exact read_writeOutputs h hSame (List.forall_mem_nil _)
  · intro hApart
    refine @read_writeOutputs _ _ _ _ [] _ h rfl ?_
    intro later hMem hSame
    obtain ⟨path, hPath, rfl⟩ := List.mem_map.1 hMem
    exact hApart ⟨path, Option.mem_toList.1 hPath, hSame⟩

/-- A command that does well has assembled its input. It leaves the symbol listing where it is asked
for and no other file changed, and its output as it is asked for exactly if the symbol file is not
the output, or would hold the same; otherwise the listing stands in place of the output. -/
theorem delivers_iff (hWrite : access.write.Whole)
    (hExit : (perform access files request).exitCode = 0) :
    ∃ program code, request.Assembles files program code ∧
      DeliversBeside files (perform access files request).files request program ∧
      (Delivers files (perform access files request).files request program code ↔
        ¬request.Clashes files ∨
          listingBytes program = request.format.serialize program code) ∧
      (request.Clashes files →
        (perform access files request).files.read request.output =
          .ok (listingBytes program)) := by
  obtain ⟨-, hFails, -⟩ | ⟨data, more, hPlan, -, hFiles, hCode⟩ :=
    perform_cases access files request
  · exact absurd hExit hFails
  · obtain ⟨program, code, hAssembles, hOutputs⟩ := plan_assembles hPlan
    rw [hCode, hOutputs] at hExit
    rw [hFiles, hOutputs]
    have hStandard := writeOutputs_of_whole hWrite hExit
    rw [hStandard] at hExit ⊢
    obtain ⟨hClash, hApart⟩ := read_output_of_written hExit
    have hBeside := deliversBeside_of_written hExit
    refine ⟨program, code, hAssembles, hBeside, ⟨?_, ?_⟩, hClash⟩
    · rintro ⟨-, hOutput⟩
      by_cases hClashes : request.Clashes files
      · rw [hClash hClashes] at hOutput
        exact .inr (Except.ok.inj hOutput)
      · exact .inl hClashes
    · intro hEither
      refine ⟨hBeside, ?_⟩
      by_cases hClashes : request.Clashes files
      · rw [hClash hClashes, hEither.resolve_left (not_not_intro hClashes)]
      · exact hApart hClashes

/-- A library replaces a file to which a link leads, and the listing is a new file with the link's
last name in another directory. -/
theorem delivers_iff_apart :
    let files : FileSystem := ⟨⟨["work"]⟩,
      [(⟨["work", "game.asm"]⟩, .file 0 (Utf8.encode "end: jp end\n".toList)),
        (⟨["work", "sub"]⟩, .directory), (⟨["work", "game.gb"]⟩, .file 1 [0]),
        (⟨["work", "out.gb"]⟩, .link ⟨"/", ["work", "sub", "..", "game.gb"]⟩)]⟩
    let request : Request := ⟨⟨"", ["game.asm"]⟩, ⟨"", ["out.gb"]⟩, .library, [], [],
      some ⟨"", ["sub", "out.gb"]⟩, false⟩
    Access.standard.write.Whole ∧ (perform .standard files request).exitCode = 0 ∧
      ∃ program code, request.Assembles files program code ∧
        Delivers files (perform .standard files request).files request program code := by
  intro files request
  have hWrite : Access.standard.write.Whole := fun _ _ _ _ hWritten => hWritten
  have hExit : (perform .standard files request).exitCode = 0 := by decide +kernel
  have hApart : ¬request.Clashes files := by
    rintro ⟨path, hPath, hSame⟩
    cases hPath
    exact absurd hSame (by decide +kernel)
  obtain ⟨program, code, hAssembles, -, hDelivers, -⟩ := delivers_iff hWrite hExit
  exact ⟨hWrite, hExit, program, code, hAssembles, hDelivers.2 (.inl hApart)⟩

/-- Where the symbol file is the output, only the listing is left of the two, however the paths are
spelled. -/
theorem output_lost_to_listing :
    let files : FileSystem :=
      ⟨⟨["work"]⟩, [(⟨["work", "game.asm"]⟩, .file 0 (Utf8.encode "nop\n".toList))]⟩
    let request (symbols : Option Path) : Request :=
      ⟨⟨"", ["game.asm"]⟩, ⟨"", ["out.gb"]⟩, .binary, [], [], symbols, false⟩
    let alone := perform .standard files (request none)
    alone.exitCode = 0 ∧ alone.files.read ⟨"", ["out.gb"]⟩ = .ok [0] ∧
      ∀ symbols ∈ [(⟨"", ["out.gb"]⟩ : Path), ⟨"/", ["work", "out.gb"]⟩],
        (perform .standard files (request (some symbols))).exitCode = 0 ∧
          (perform .standard files (request (some symbols))).files.read ⟨"", ["out.gb"]⟩ =
            .ok (Utf8.encode "; symbol table\n".toList) := by
  decide +kernel

end
end AssembleCommand
end Lr35902
