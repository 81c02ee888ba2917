import Lr35902.Session
import Lr35902.Proofs.Layout
import Lr35902.Proofs.NameMaps
import Mathlib.Data.List.Induction

/-!
What a session tells of its assemblies, after any calls. A `Call` changes a setting or assembles,
and the `Account` is all that can be asked of the session afterwards. An `Attempt` that can read its
source leaves its own result, or none if it fails (`Attempt.account_answer`); a setting, and an
attempt that cannot read its source, leave the session's result as it is. Hence the account always
tells of the last attempt whose source could be read (`Session.tellsOfLast_readable`). It fails to
tell of the last attempt of all exactly where that one could not read its source and a result was
there before (`Account.tellsOfLast_iff_not_stale`).
-/
namespace Lr35902

/-! ## Accounts of the last assembly -/

/-- All that a session can say of its last assembly. -/
structure Account where
  code : Except Error Bytes
  program : Except Error Program
  symbols : Except Error (NameMap Int)
  exports : Except Error (NameMap Int)
  library : Except Error Library
  listing : Except Error String

def Session.account (session : Session) : Account where
  code := session.code
  program := session.program
  symbols := session.symbols
  exports := session.exports
  library := session.library
  listing := session.listing

/-- The account where nothing has been assembled. -/
def Account.nothing : Account where
  code := .error .nothingAssembled
  program := .error .nothingAssembled
  symbols := .error .nothingAssembled
  exports := .error .nothingAssembled
  library := .error .nothingAssembled
  listing := .error .nothingAssembled

/-- The library of some code whose labels have addresses of 16 bits. -/
def Library.ofLabels (code : Bytes) (labels : NameMap Int) : Library :=
  { Library.ofCode code with
    symbols := .ofList (labels.entries.map fun label => (label.1, label.2.toNat)) }

/-- The account of a result. -/
def Account.ofAssembled (assembled : Assembled) : Account where
  code := .ok assembled.code
  program := .ok assembled.program
  symbols := .ok assembled.program.symbols.values
  exports := .ok assembled.program.symbols.labels
  library := .ok (.ofLabels assembled.code assembled.program.symbols.labels)
  listing := .ok assembled.program.symbols.listing

theorem Account.ofAssembled_ne_nothing (assembled : Assembled) :
    Account.ofAssembled assembled ≠ .nothing := by
  intro h
  cases congrArg Account.code h

namespace Library

theorem addSymbols_ok {library : Library} {entries : List (String × Int)}
    (h : ∀ entry ∈ entries, 0 ≤ entry.2 ∧ entry.2 ≤ 0xFFFF) :
    library.addSymbols entries = .ok { library with
      symbols :=
        library.symbols.insertAll (entries.map fun entry => (entry.1, entry.2.toNat)) } := by
  induction entries generalizing library with
  | nil => rfl
  | cons entry rest ih =>
    obtain ⟨hFirst, hRest⟩ := List.forall_mem_cons.1 h
    rw [addSymbols, addSymbol, if_pos hFirst]
    exact ih hRest

theorem make_ok (code : Bytes) {labels : NameMap Int}
    (h : ∀ entry ∈ labels.entries, 0 ≤ entry.2 ∧ entry.2 ≤ 0xFFFF) :
    make code labels = .ok (ofLabels code labels) :=
  addSymbols_ok h

end Library

/-- Every symbol of an assembled program has a value of 16 bits. -/
theorem assembleText_value_range {surroundings : Surroundings} {text file : String}
    {defines : NameMap Int} {program : Program}
    (h : (assembleText surroundings text file defines).result = .ok program) :
    ∀ symbol ∈ program.symbols.symbols, 0 ≤ symbol.value ∧ symbol.value ≤ maxAddress := by
  unfold assembleText at h
  split at h
  · cases h
  · obtain ⟨first, last, after, hStart, hRun, hResolve, rfl⟩ := Assembly.assemble_ok_iff.1 h
    have hReaches := Assembly.run_reaches surroundings (Assembly.budgetFor surroundings first) first
    rw [hRun] at hReaches
    obtain ⟨-, -, hSymbols⟩ := (Assembly.resolve_partlyResolved hResolve).frame
    rw [hSymbols]
    exact hReaches.value_range (Assembly.start_laid hStart).value_range

theorem SymbolTable.labels_range {table : SymbolTable}
    (h : ∀ symbol ∈ table.symbols, 0 ≤ symbol.value ∧ symbol.value ≤ maxAddress) :
    ∀ label ∈ table.labels.entries, 0 ≤ label.2 ∧ label.2 ≤ maxAddress := by
  intro label hMem
  obtain ⟨symbol, hSymbol, rfl⟩ := List.mem_map.1 hMem
  exact h symbol (List.mem_filter.1 hSymbol).1

namespace Session

/-- The account depends on the result only. -/
theorem account_congr {session other : Session} (h : session.last = other.last) :
    session.account = other.account := by
  simp only [account, code, program, symbols, exports, library, listing, result, h]

theorem account_of_none {session : Session} (h : session.last = none) :
    session.account = .nothing := by
  simp only [account, code, program, symbols, exports, library, listing, result, h]
  rfl

theorem account_of_some {session : Session} {assembled : Assembled}
    (h : session.last = some assembled)
    (hRange : ∀ symbol ∈ assembled.program.symbols.symbols,
      0 ≤ symbol.value ∧ symbol.value ≤ maxAddress) :
    session.account = .ofAssembled assembled := by
  have hLibrary := Library.make_ok assembled.code (SymbolTable.labels_range hRange)
  simp only [account, code, program, symbols, exports, library, listing, result, h, hLibrary]
  rfl

end Session

/-! ## Calls -/

inductive Setting where
  | define (name : String) (value : Int)
  | includePath (path : Path)

/-- What is to be assembled: a text that goes by the name of a file, or a file. -/
inductive Input where
  | text (source file : String)
  | file (path : Path)

/-- A call that may change a session, and the files that it finds. -/
inductive Call where
  | configure (files : FileSystem) (setting : Setting)
  | assemble (files : FileSystem) (input : Input)

namespace Session

/-- The session with a setting, or as it was if the setting is refused. -/
def configure (session : Session) (files : FileSystem) : Setting → Session
  | .define name value =>
    match session.define name value with
    | .ok changed => changed
    | .error _ => session
  | .includePath path =>
    match session.addIncludePath files path with
    | .ok (changed, _) => changed
    | .error _ => session

def assemble (session : Session) (files : FileSystem) : Input → Answer Bytes
  | .text source file => session.assembleString files source file
  | .file path => session.assembleFile files path

def after (session : Session) : Call → Session
  | .configure files setting => session.configure files setting
  | .assemble files input => (session.assemble files input).session

def afterAll (session : Session) (calls : List Call) : Session := calls.foldl after session

theorem afterAll_concat (session : Session) (calls : List Call) (call : Call) :
    session.afterAll (calls ++ [call]) = (session.afterAll calls).after call :=
  List.foldl_concat _ _ _ _

end Session

/-- An assembly that is asked of a session. -/
structure Attempt where
  session : Session
  files : FileSystem
  input : Input

namespace Attempt

def answer (attempt : Attempt) : Answer Bytes :=
  attempt.session.assemble attempt.files attempt.input

/-- The text to assemble, and the name of its file. -/
def source (attempt : Attempt) : Except ReadError (String × String) :=
  match attempt.input with
  | .text source file => .ok (source, file)
  | .file path =>
    match attempt.files.readText path with
    | .ok text => .ok (String.ofList text, path.text)
    | .error error => .error error

def readable (attempt : Attempt) : Bool := attempt.source.isOk

/-- The program that the source describes under the settings of the session. -/
def Describes (attempt : Attempt) (program : Program) : Prop :=
  ∃ text file, attempt.source = .ok (text, file) ∧
    (assembleText (attempt.session.surroundings attempt.files) text file
      attempt.session.defines).result = .ok program

end Attempt

namespace Session

/-- The attempts among some calls, each with the session that it is asked of. -/
def attempts (session : Session) : List Call → List Attempt
  | [] => []
  | .configure files setting :: rest => (session.configure files setting).attempts rest
  | .assemble files input :: rest =>
    ⟨session, files, input⟩ :: (session.assemble files input).session.attempts rest

theorem attempts_configure (session : Session) (calls : List Call) (files : FileSystem)
    (setting : Setting) :
    session.attempts (calls ++ [.configure files setting]) = session.attempts calls := by
  induction calls generalizing session with
  | nil => rfl
  | cons call rest ih => cases call <;> simp only [List.cons_append, attempts, ih]

theorem attempts_assemble (session : Session) (calls : List Call) (files : FileSystem)
    (input : Input) :
    session.attempts (calls ++ [.assemble files input]) =
      session.attempts calls ++ [⟨session.afterAll calls, files, input⟩] := by
  induction calls generalizing session with
  | nil => rfl
  | cons call rest ih => cases call <;> simp only [List.cons_append, attempts, ih] <;> rfl

end Session

/-! ## What an account tells of an attempt -/

/-- The account tells of the attempt: of the program that it read and of the code that it gave,
which encodes that program; or of nothing, if it failed. -/
def Account.TellsOf (account : Account) (attempt : Attempt) : Prop :=
  match attempt.answer.result with
  | .ok code =>
    ∃ program event, attempt.Describes program ∧
      MachineCode.generate attempt.session.chunk program = .ok (code, event) ∧
      account = .ofAssembled ⟨program, code⟩
  | .error _ => account = .nothing

/-- The account tells of the last of some attempts, or of nothing if there are none. -/
def Account.TellsOfLast (account : Account) (attempts : List Attempt) : Prop :=
  match attempts.getLast? with
  | some attempt => account.TellsOf attempt
  | none => account = .nothing

theorem Account.tellsOfLast_concat (account : Account) (attempts : List Attempt)
    (attempt : Attempt) :
    account.TellsOfLast (attempts ++ [attempt]) ↔ account.TellsOf attempt := by
  rw [TellsOfLast, List.getLast?_concat]

theorem Account.tellsOf_ok {account : Account} {attempt : Attempt} {code : Bytes}
    (h : attempt.answer.result = .ok code) :
    account.TellsOf attempt ↔ ∃ program event, attempt.Describes program ∧
      MachineCode.generate attempt.session.chunk program = .ok (code, event) ∧
      account = .ofAssembled ⟨program, code⟩ := by
  rw [TellsOf, h]

theorem Account.tellsOf_error {account : Account} {attempt : Attempt} {error : Error}
    (h : attempt.answer.result = .error error) : account.TellsOf attempt ↔ account = .nothing := by
  rw [TellsOf, h]

/-- Assembling a text leaves its program and code as the result, or no result. -/
theorem Session.assembleString_cases (session : Session) (files : FileSystem)
    (source file : String) :
    (∃ program code event,
      (assembleText (session.surroundings files) source file session.defines).result = .ok program ∧
      MachineCode.generate session.chunk program = .ok (code, event) ∧
      (session.assembleString files source file).result = .ok code ∧
      (session.assembleString files source file).session.last = some ⟨program, code⟩) ∨
    ∃ error, (session.assembleString files source file).result = .error error ∧
      (session.assembleString files source file).session.last = none := by
  simp only [assembleString]
  cases hProgram :
    (assembleText (session.surroundings files) source file session.defines).result with
  | error fault => exact .inr ⟨_, rfl, rfl⟩
  | ok program =>
    cases hCode : MachineCode.generate session.chunk program with
    | error fault => exact .inr ⟨.encoding fault, by simp only [hCode, and_self]⟩
    | ok output =>
      exact .inl ⟨program, output.1, output.2, rfl, hCode, by simp only [hCode, and_self]⟩

theorem eq_ok_of_isOk {ε α : Type} {result : Except ε α} (h : result.isOk = true) :
    ∃ a, result = .ok a := by
  cases result with
  | ok a => exact ⟨a, rfl⟩
  | error e => cases h

namespace Attempt

/-- An attempt that reads its source does what assembling the text does. -/
theorem answer_of_source {attempt : Attempt} {text file : String}
    (h : attempt.source = .ok (text, file)) :
    attempt.answer.result = (attempt.session.assembleString attempt.files text file).result ∧
      attempt.answer.session =
        (attempt.session.assembleString attempt.files text file).session := by
  obtain ⟨session, files, input⟩ := attempt
  cases input with
  | text source file =>
    cases h
    exact ⟨rfl, rfl⟩
  | file path =>
    simp only [source] at h
    split at h
    · next hRead =>
      cases h
      simp only [answer, Session.assemble, Session.assembleFile, hRead, and_self]
    · cases h

/-- An attempt that cannot read its source fails and leaves the session as it is. -/
theorem answer_of_not_readable {attempt : Attempt} (h : attempt.readable = false) :
    attempt.answer.session = attempt.session ∧ ∃ error, attempt.answer.result = .error error := by
  obtain ⟨session, files, input⟩ := attempt
  cases input with
  | text source file => cases h
  | file path =>
    cases hRead : files.readText path with
    | ok text => simp [readable, source, hRead, Except.isOk, Except.toBool] at h
    | error error =>
      simp only [answer, Session.assemble, Session.assembleFile, hRead, true_and]
      exact ⟨_, rfl⟩

theorem readable_of_answer {attempt : Attempt} {code : Bytes}
    (h : attempt.answer.result = .ok code) : attempt.readable = true := by
  by_contra hNot
  obtain ⟨-, error, hError⟩ := answer_of_not_readable (eq_false_of_ne_true hNot)
  rw [h] at hError
  cases hError

/-- After an attempt that can read its source, the session tells of it. -/
theorem account_answer {attempt : Attempt} (h : attempt.readable = true) :
    attempt.answer.session.account.TellsOf attempt := by
  obtain ⟨⟨text, file⟩, hSource⟩ := eq_ok_of_isOk h
  obtain ⟨hResult, hSession⟩ := answer_of_source hSource
  rw [hSession]
  rcases attempt.session.assembleString_cases attempt.files text file with
    ⟨program, code, event, hProgram, hCode, hAnswer, hLast⟩ | ⟨error, hAnswer, hLast⟩
  · refine (Account.tellsOf_ok (hResult.trans hAnswer)).2 ⟨program, event, ?_, hCode, ?_⟩
    · exact ⟨text, file, hSource, hProgram⟩
    · exact Session.account_of_some hLast (assembleText_value_range hProgram)
  · exact (Account.tellsOf_error (hResult.trans hAnswer)).2 (Session.account_of_none hLast)

end Attempt

/-! ## Whole runs -/

namespace Session

theorem addIncludePath_last {files : FileSystem} {session changed : Session} {path : Path}
    {events : List Event} (h : session.addIncludePath files path = .ok (changed, events)) :
    changed.last = session.last := by
  unfold addIncludePath at h
  split at h
  · cases h
  · cases h
    rfl
  · split at h <;> cases h <;> rfl

theorem define_last {session changed : Session} {name : String} {value : Int}
    (h : session.define name value = .ok changed) : changed.last = session.last := by
  unfold define at h
  split at h <;> cases h
  rfl

theorem configure_last (session : Session) (files : FileSystem) (setting : Setting) :
    (session.configure files setting).last = session.last := by
  cases setting with
  | define name value =>
    simp only [configure]
    split
    · next hDefine => exact define_last hDefine
    · rfl
  | includePath path =>
    simp only [configure]
    split
    · next hAdd => exact addIncludePath_last hAdd
    · rfl

theorem addIncludePaths_last {files : FileSystem} {session changed : Session} {paths : List Path}
    {events : List Event} (h : session.addIncludePaths files paths = .ok (changed, events)) :
    changed.last = session.last := by
  induction paths generalizing session events with
  | nil =>
    cases h
    rfl
  | cons path rest ih =>
    unfold addIncludePaths at h
    split at h
    · cases h
    · next hAdd =>
      split at h <;> cases h
      next hRest => exact (ih hRest).trans (addIncludePath_last hAdd)

theorem defineAll_last {session changed : Session} {entries : List (String × Int)}
    (h : session.defineAll entries = .ok changed) : changed.last = session.last := by
  induction entries generalizing session with
  | nil =>
    cases h
    rfl
  | cons entry rest ih =>
    unfold defineAll at h
    split at h
    · next hDefine => exact (ih h).trans (define_last hDefine)
    · cases h

theorem make_last {files : FileSystem} {includePaths : List Path} {defines : NameMap Int}
    {verbose : Bool} {chunkSize : Int} {session : Session} {events : List Event}
    (h : make files includePaths defines verbose chunkSize = .ok (session, events)) :
    session.last = none := by
  unfold make at h
  split at h
  · cases h
  · split at h
    · cases h
    · next hPaths =>
      split at h <;> cases h
      next hDefines => exact (defineAll_last hDefines).trans (addIncludePaths_last hPaths)

/-- After any calls, the session tells of the last attempt whose source could be read. -/
theorem tellsOfLast_readable {session : Session} (h : session.last = none) (calls : List Call) :
    (session.afterAll calls).account.TellsOfLast
      ((session.attempts calls).filter Attempt.readable) := by
  -- on the last call: the attempts before it are those of the calls before it
  induction calls using List.reverseRecOn with
  | nil => exact account_of_none h
  | append_singleton calls call ih =>
    rw [afterAll_concat]
    cases call with
    | configure files setting =>
      rw [attempts_configure, after, account_congr (configure_last _ files setting)]
      exact ih
    | assemble files input =>
      rw [attempts_assemble, List.filter_append]
      let attempt : Attempt := ⟨session.afterAll calls, files, input⟩
      by_cases hRead : attempt.readable = true
      · rw [List.filter_cons_of_pos hRead, List.filter_nil, Account.tellsOfLast_concat]
        exact attempt.account_answer hRead
      · obtain ⟨hSession, -⟩ := attempt.answer_of_not_readable (Bool.eq_false_iff.2 hRead)
        -- nothing has begun, so that the session is the one before the attempt
        have hAfter : (session.afterAll calls).after (.assemble files input) =
            session.afterAll calls := hSession
        rw [List.filter_cons_of_neg hRead, List.filter_nil, List.append_nil, hAfter]
        exact ih

end Session

/-! ## Earlier results -/

/-- The last attempt could not read its source, and the last one that could had succeeded. -/
def Stale (attempts : List Attempt) : Prop :=
  (∃ attempt ∈ attempts.getLast?, attempt.readable = false) ∧
    ∃ earlier ∈ (attempts.filter Attempt.readable).getLast?, earlier.answer.result.isOk = true

instance (attempts : List Attempt) : Decidable (Stale attempts) :=
  inferInstanceAs (Decidable (_ ∧ _))

/-- An account of the last attempt that could read its source tells of the last attempt of all,
unless it shows an earlier result. -/
theorem Account.tellsOfLast_iff_not_stale {account : Account} {attempts : List Attempt}
    (h : account.TellsOfLast (attempts.filter Attempt.readable)) :
    account.TellsOfLast attempts ↔ ¬Stale attempts := by
  rcases List.eq_nil_or_concat' attempts with rfl | ⟨before, attempt, rfl⟩
  · refine ⟨?_, fun _ => h⟩
    rintro - ⟨⟨_, hLast, -⟩, -⟩
    cases hLast
  rw [tellsOfLast_concat]
  have hLast : (before ++ [attempt]).getLast? = some attempt := List.getLast?_concat
  cases hRead : attempt.readable with
  | true =>
    rw [List.filter_append, List.filter_cons_of_pos hRead, List.filter_nil, tellsOfLast_concat] at h
    refine ⟨?_, fun _ => h⟩
    rintro - ⟨⟨other, hOther, hUnread⟩, -⟩
    obtain rfl : attempt = other := Option.some.inj (hLast.symm.trans hOther)
    exact absurd hRead (Bool.eq_false_iff.1 hUnread)
  | false =>
    -- the attempt failed, so that nothing should be told
    obtain ⟨-, error, hError⟩ := attempt.answer_of_not_readable hRead
    rw [tellsOf_error hError]
    constructor
    · rintro rfl ⟨-, earlier, hEarlier, hOk⟩
      rw [TellsOfLast, Option.mem_def.1 hEarlier] at h
      obtain ⟨code, hCode⟩ := eq_ok_of_isOk hOk
      obtain ⟨program, _, -, -, hAccount⟩ := (tellsOf_ok hCode).1 h
      exact ofAssembled_ne_nothing _ hAccount.symm
    · intro hFresh
      unfold TellsOfLast at h
      split at h
      · next earlier hEarlier =>
        cases hCode : earlier.answer.result with
        | ok code =>
          have hOk : earlier.answer.result.isOk = true := by rw [hCode]; rfl
          exact absurd ⟨⟨attempt, hLast, hRead⟩, earlier, hEarlier, hOk⟩ hFresh
        | error error => exact (tellsOf_error hCode).1 h
      · exact h

/-- After any calls on a new session, it tells of the last attempt whose source could be read: of
the program that this read and the encoding of that program if it succeeded, and that nothing has
been assembled if it failed. Hence it tells of the last attempt of all, unless that one could not
read its source and a result was there before. -/
theorem Session.tellsOfLast_iff {files : FileSystem} {includePaths : List Path}
    {defines : NameMap Int} {verbose : Bool} {chunkSize : Int} {session : Session}
    {events : List Event}
    (hMake : Session.make files includePaths defines verbose chunkSize = .ok (session, events))
    (calls : List Call) :
    (session.afterAll calls).account.TellsOfLast
        ((session.attempts calls).filter Attempt.readable) ∧
      ((session.afterAll calls).account.TellsOfLast (session.attempts calls) ↔
        ¬Stale (session.attempts calls)) ∧
      Error.nothingAssembled.message = "nothing has been assembled" := by
  have hTells := tellsOfLast_readable (make_last hMake) calls
  exact ⟨hTells, Account.tellsOfLast_iff_not_stale hTells, rfl⟩

/-- A text that assembles, and then a file that is not there. -/
def missingFile : List Call :=
  [.assemble .empty (.text "nop" "<input>"), .assemble .empty (.file (.ofString "missing.asm"))]

/-- After the missing file, a text with a constant of its own. -/
def pastMissingFile : List Call :=
  missingFile ++
    [.configure .empty (.define "five" 5), .assemble .empty (.text "ld a, five" "<input>")]

/-- The next text after a missing file is told of as any other. -/
theorem Session.tellsOfLast_iff_past_missing_file :
    ∃ session events, Session.make .empty [] .empty false 16 = .ok (session, events) ∧
      (session.afterAll pastMissingFile).code = .ok [0x3E, 5] ∧
      (session.afterAll pastMissingFile).account.TellsOfLast
        (session.attempts pastMissingFile) := by
  have hRun : ((Session.make .empty [] .empty false 16).toOption.map fun made =>
      ((made.1.afterAll pastMissingFile).code.toOption,
        decide (Stale (made.1.attempts pastMissingFile)))) =
      some (some [0x3E, 5], false) := by decide +kernel
  obtain ⟨⟨session, events⟩, hMake, hRun⟩ := Option.map_eq_some_iff.1 hRun
  obtain ⟨hCode, hStale⟩ := Prod.mk.inj hRun
  have hMake := eq_ok_of_toOption hMake
  exact ⟨session, events, hMake, eq_ok_of_toOption hCode,
    (tellsOfLast_iff hMake pastMissingFile).2.1.2 (of_decide_eq_false hStale)⟩

/-- A missing file fails to assemble and leaves the code of the text before it. -/
theorem Session.code_after_missing_file :
    ∃ session events attempt error,
      Session.make .empty [] .empty false 16 = .ok (session, events) ∧
      (session.attempts missingFile).getLast? = some attempt ∧
      attempt.answer.result = .error error ∧
      (session.afterAll missingFile).code = .ok [0] ∧
      ¬(session.afterAll missingFile).account.TellsOfLast (session.attempts missingFile) := by
  have hRun : ((Session.make .empty [] .empty false 16).toOption.map fun made =>
      ((made.1.afterAll missingFile).code.toOption, decide (Stale (made.1.attempts missingFile)))) =
      some (some [0], true) := by decide +kernel
  obtain ⟨⟨session, events⟩, hMake, hRun⟩ := Option.map_eq_some_iff.1 hRun
  obtain ⟨hCode, hStale⟩ := Prod.mk.inj hRun
  have hMake := eq_ok_of_toOption hMake
  have hStale := of_decide_eq_true hStale
  obtain ⟨attempt, hLast, hRead⟩ := hStale.1
  obtain ⟨-, error, hError⟩ := attempt.answer_of_not_readable hRead
  have hTells := tellsOfLast_readable (make_last hMake) missingFile
  refine ⟨session, events, attempt, error, hMake, hLast, hError,
    eq_ok_of_toOption hCode, ?_⟩
  intro hCurrent
  exact (Account.tellsOfLast_iff_not_stale hTells).1 hCurrent hStale

end Lr35902
