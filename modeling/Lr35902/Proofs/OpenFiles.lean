import Lr35902.Proofs.Runs

/-!
The files that are open, and the marks ahead. Opening a file puts its mark right behind its tokens,
so the marks ahead are those of the files that were opened, the last one first (`Nested`); every
statement keeps it so (`FileEffect.nested`). From this follows what a run can rely on: a mark always
finds its file open and on top, and a file can be included exactly when neither the source came from
it nor its mark is ahead (`Reaches.disciplined`).
-/
namespace Lr35902

/-! ## Marks -/

/-- The tokens of a text hold no mark. -/
theorem marks_eq_nil {tokens : List Token} (h : ∀ token ∈ tokens, token.lexeme.Scanned) :
    Statement.marks tokens = [] := by
  apply List.filterMap_eq_nil_iff.2
  intro token hMem
  have hScanned := h token hMem
  unfold Statement.fileMark?
  split
  · next hMark =>
    rw [hMark] at hScanned
    exact hScanned.elim
  · rfl

theorem marks_cons_endInclude {token : Token} {mark : FileMark} (rest : List Token)
    (h : token.lexeme = .endInclude mark) :
    Statement.marks (token :: rest) = mark :: Statement.marks rest := by
  simp [Statement.marks, Statement.fileMark?, h]

/-- A mark finds the file that was opened last. -/
theorem find?_closes_concat {before : List Spot} {spot : Spot} (h : spot ∉ before) :
    (before ++ [spot]).find? (FileMark.closes (.spot spot)) = some spot := by
  have hNone : before.find? (FileMark.closes (.spot spot)) = none := by
    apply List.find?_eq_none.2
    intro other hOther hSame
    have hEq : spot = other := by simpa [FileMark.closes] using hSame
    exact h (hEq ▸ hOther)
  simp [List.find?_append, hNone, FileMark.closes]

theorem erase_concat {before : List Spot} {spot : Spot} (h : spot ∉ before) :
    (before ++ [spot]).erase spot = before := by
  simp [List.erase_append_right _ h]

namespace Assembly

/-- Above the files at the bottom, the open files are those whose marks are ahead, and the one that
was opened last is closed first. -/
structure Nested (bottom openFiles : List Spot) (tokens : List Token) : Prop where
  distinct : openFiles.Nodup
  marked : ∃ included, openFiles = bottom ++ included ∧
    Statement.marks tokens = included.reverse.map FileMark.spot

section
variable {surroundings : Surroundings} {bottom openFiles : List Spot} {tokens : List Token}

/-- The first mark ahead is that of the file on top. -/
theorem Nested.top (h : Nested bottom openFiles tokens) {mark : FileMark} {more : List FileMark}
    (hMarks : Statement.marks tokens = mark :: more) :
    ∃ spot before, mark = .spot spot ∧ openFiles = before ++ [spot] ∧ spot ∉ before ∧
      bottom ⊆ before ∧ .spot spot ∉ more ∧
      ∀ rest, Statement.marks rest = more → Nested bottom before rest := by
  obtain ⟨hDistinct, included, rfl, hMarked⟩ := h
  rw [hMarks] at hMarked
  cases hLast : included.reverse with
  | nil => simp [hLast] at hMarked
  | cons spot others =>
    have hIncluded : included = others.reverse ++ [spot] := by
      rw [← List.reverse_reverse included, hLast, List.reverse_cons]
    rw [hLast, List.map_cons] at hMarked
    obtain ⟨rfl, rfl⟩ := List.cons.inj hMarked
    rw [hIncluded, ← List.append_assoc] at hDistinct ⊢
    have hApart := List.nodup_append.1 hDistinct
    have hSpot : spot ∉ bottom ++ others.reverse :=
      fun hMem => hApart.2.2 spot hMem spot (List.mem_singleton_self spot) rfl
    refine ⟨spot, bottom ++ others.reverse, rfl, rfl, hSpot, List.subset_append_left _ _, ?_, ?_⟩
    · simp only [List.mem_append, List.mem_reverse, not_or] at hSpot
      simpa using hSpot.2
    · intro rest hRest
      exact ⟨hApart.1, others.reverse, rfl, by rw [hRest, List.reverse_reverse]⟩

theorem Nested.mem_iff (h : Nested bottom openFiles tokens) (spot : Spot) :
    spot ∈ openFiles ↔ spot ∈ bottom ∨ .spot spot ∈ Statement.marks tokens := by
  obtain ⟨-, included, rfl, hMarked⟩ := h
  simp [hMarked]

/-- Whatever a statement does to the tokens, it does the like to the open files. -/
theorem FileEffect.nested {front rest brought : List Token} {others : List Spot}
    {command : Command} (h : FileEffect surroundings openFiles command brought others)
    (hMarks : Statement.marks front = Statement.closing command)
    (hNested : Nested bottom openFiles (front ++ rest)) :
    Nested bottom others (brought ++ rest) := by
  have hAll : Statement.marks (front ++ rest) =
      Statement.closing command ++ Statement.marks rest := by
    rw [Statement.marks_append, hMarks]
  cases h with
  | none hUse hEnd =>
    have hOpen := Statement.closing_eq_nil hEnd
    obtain ⟨hDistinct, included, hIncluded, hMarked⟩ := hNested
    rw [hAll, hOpen] at hMarked
    exact ⟨hDistinct, included, hIncluded, hMarked⟩
  | @use _ _ path spot text tokens _ hClosed _ hScan =>
    obtain ⟨hDistinct, included, rfl, hMarked⟩ := hNested
    refine ⟨?_, included ++ [spot], by simp, ?_⟩
    · rw [List.nodup_append_comm]
      exact List.nodup_cons.2 ⟨hClosed, hDistinct⟩
    · -- the file's own tokens have no mark, and its mark comes before the marks from before
      have hMark : Statement.marks [State.closingMark spot path.text tokens] = [.spot spot] := rfl
      rw [hAll] at hMarked
      rw [Statement.marks_append, Statement.marks_append,
        marks_eq_nil (scanText_scanned hScan), hMark]
      simpa [Statement.closing] using hMarked
  | endInclude hFind =>
    obtain ⟨spot, before, rfl, rfl, hSpot, -, -, hRest⟩ := hNested.top hAll
    rw [find?_closes_concat hSpot] at hFind
    obtain rfl := Option.some.inj hFind
    rw [erase_concat hSpot]
    exact hRest rest rfl

theorem Step.nested {state after : State} (h : Step surroundings state after)
    (hNested : Nested bottom state.openFiles state.tokens) :
    Nested bottom after.openFiles after.tokens := by
  obtain ⟨command, rest, brought, hReads, hFiles, hAfter⟩ := h.fileEffect
  obtain ⟨front, hTokens, -, hMarks⟩ := hReads.front
  rw [hTokens] at hNested
  rw [hAfter]
  exact hFiles.nested hMarks hNested

theorem Reaches.nested {state after : State} (h : Reaches surroundings state after)
    (hNested : Nested bottom state.openFiles state.tokens) :
    Nested bottom after.openFiles after.tokens := by
  induction h with
  | refl => exact hNested
  | tail _ hStep ih => exact hStep.nested ih

end

/-! ## The start -/

/-- At most the file of the source is open at the start. -/
theorem initiallyOpen_nodup {surroundings : Surroundings} {file : String} {spots : List Spot}
    (h : initiallyOpen surroundings file = .ok spots) : spots.Nodup := by
  unfold initiallyOpen at h
  split at h
  · cases h
    exact List.nodup_nil
  · simp only at h
    split at h
    · cases h
    · cases h
      exact List.nodup_singleton _
    · cases h
      exact List.nodup_nil

theorem start_openFiles {surroundings : Surroundings} {source : Source} {first : State}
    (h : start surroundings source = .ok first) :
    initiallyOpen surroundings source.file = .ok first.openFiles := by
  unfold start at h
  split at h
  · cases h
  · next spots hSpots =>
    split at h
    · cases h
    · cases h
      exact hSpots

theorem start_nested {surroundings : Surroundings} {source : Source} {first : State}
    (hScanned : ∀ token ∈ source.tokens, token.lexeme.Scanned)
    (h : start surroundings source = .ok first) :
    Nested first.openFiles first.openFiles first.tokens := by
  refine ⟨initiallyOpen_nodup (start_openFiles h), [], by simp, ?_⟩
  rw [(start_ok h).1, marks_eq_nil hScanned]
  rfl

/-! ## Refused inclusions -/

end Assembly

namespace Scan

theorem literalValue_error {radix : Radix} {digits following : List Char} {cause : Cause}
    (h : literalValue radix digits following = .error cause) : cause.kind = .lexical := by
  unfold literalValue at h
  split at h
  · cases h
    rfl
  · split at h
    · cases h
      rfl
    · split at h
      · cases h
        rfl
      · simp only at h
        split at h
        · cases h
        · cases h
          rfl

theorem readNumber_error {c : Char} {rest : List Char} {cause : Cause}
    (h : readNumber c rest = .error cause) : cause.kind = .lexical := by
  simp only [readNumber] at h
  split at h
  · cases h
  · next hValue =>
    cases h
    exact literalValue_error hValue

theorem readDirective_error {rest : List Char} {cause : Cause}
    (h : readDirective rest = .error cause) : cause.kind = .lexical := by
  simp only [readDirective] at h
  split at h
  · cases h
  · split at h <;> cases h <;> rfl

theorem readString_error {rest : List Char} {cause : Cause}
    (h : readString rest = .error cause) : cause.kind = .lexical := by
  simp only [readString] at h
  split at h
  · cases h
  · cases h
    rfl

theorem readLexeme_error {c : Char} {rest : List Char} {cause : Cause}
    (h : readLexeme c rest = .error cause) : cause.kind = .lexical := by
  unfold readLexeme at h
  split at h
  · cases h
  · split at h
    · exact readNumber_error h
    · split at h
      · exact readDirective_error h
      · split at h
        · exact readString_error h
        · split at h
          · cases h
          · cases h
            rfl

theorem scanFrom_error {file : String} {cursor : Cursor} {done : List Token} {text : List Char}
    {diagnostic : Diagnostic} (h : scanFrom file cursor done text = .error diagnostic) :
    diagnostic.cause.kind = .lexical := by
  fun_induction scanFrom file cursor done text with
  | case1 => cases h
  | case2 _ _ _ _ _ ih => exact ih h
  | case3 _ _ _ _ _ ih => exact ih h
  | case4 _ _ _ _ _ _ ih => exact ih h
  | case5 _ _ _ _ _ _ _ _ hRead =>
    cases h
    exact readLexeme_error hRead
  | case6 _ _ _ _ _ _ _ _ _ _ ih => exact ih h

end Scan

theorem scanText_error {text : List CodePoint} {file : String} {diagnostic : Diagnostic}
    (h : scanText text file = .error diagnostic) : diagnostic.cause.kind = .lexical :=
  Scan.scanFrom_error (scanText_error_iff.1 h)

namespace Assembly

/-- An inclusion is refused as circular exactly when the file is open. -/
theorem includeFile_circular_iff {surroundings : Surroundings} {state : State}
    {location nameLocation : Location} {name : String} {path : Path} {spot : Spot}
    (hFind : surroundings.find nameLocation.file name = .found path spot) :
    (∃ diagnostic, State.includeFile surroundings state location name nameLocation =
        .error (.diagnostic diagnostic) ∧ diagnostic.cause.kind = .circular) ↔
      spot ∈ state.openFiles := by
  unfold State.includeFile
  simp only [hFind]
  constructor
  · rintro ⟨diagnostic, hRefused, hKind⟩
    split at hRefused
    · next hOpen => simpa using hOpen
    · split at hRefused
      · cases hRefused
        cases hKind
      · cases hRefused
      · split at hRefused
        · next hScan =>
          cases hRefused
          rw [scanText_error hScan] at hKind
          cases hKind
        · split at hRefused
          · next hPlace =>
            -- a program that is too long is no cycle
            obtain ⟨other, rfl, hRange⟩ := State.place_error hPlace
            cases hRefused
            rw [hRange] at hKind
            cases hKind
          · cases hRefused
  · intro hOpen
    rw [if_pos (List.contains_iff_mem.2 hOpen)]
    exact ⟨_, rfl, rfl⟩

/-! ## Runs -/

/-- What a run from one state on can rely on in another. The marks ahead are those of the files that
were opened. A mark closes the file that was opened last, which is then open no more; it never
misses it. An inclusion is circular exactly when the source came from that file or the mark of the
file is ahead. At the end all is closed that was opened. -/
structure Disciplined (surroundings : Surroundings) (first state : State) : Prop where
  nested : Nested first.openFiles state.openFiles state.tokens
  closes : ∀ token rest mark, state.tokens = token :: rest → token.lexeme = .endInclude mark →
    ∃ spot before, mark = .spot spot ∧ state.openFiles = before ++ [spot] ∧
      state.step surroundings token rest = .ok { state with tokens := rest, openFiles := before } ∧
      spot ∉ first.openFiles ∧ .spot spot ∉ Statement.marks rest
  finds : ∀ token rest mark, state.tokens = token :: rest →
    state.step surroundings token rest ≠ .error (.notOpen mark)
  opens : ∀ token rest location name nameLocation after path spot, state.tokens = token :: rest →
    Statement.read token rest = .ok (⟨location, .use name nameLocation⟩, after) →
    surroundings.find nameLocation.file name = .found path spot →
    ((∃ diagnostic, state.step surroundings token rest = .error (.diagnostic diagnostic) ∧
        diagnostic.cause.kind = .circular) ↔
      spot ∈ first.openFiles ∨ .spot spot ∈ Statement.marks after)
  ends : state.tokens = [] → state.openFiles = first.openFiles

section
variable {surroundings : Surroundings} {bottom : List Spot} {state : State} {token : Token}
  {rest : List Token}

theorem Nested.step_endInclude (h : Nested bottom state.openFiles state.tokens)
    (hTokens : state.tokens = token :: rest) {mark : FileMark}
    (hMark : token.lexeme = .endInclude mark) :
    ∃ spot before, mark = .spot spot ∧ state.openFiles = before ++ [spot] ∧
      state.step surroundings token rest = .ok { state with tokens := rest, openFiles := before } ∧
      spot ∉ bottom ∧ .spot spot ∉ Statement.marks rest := by
  rw [hTokens] at h
  obtain ⟨spot, before, rfl, hOpen, hSpot, hBottom, hAhead, -⟩ :=
    h.top (marks_cons_endInclude rest hMark)
  refine ⟨spot, before, rfl, hOpen, ?_, fun hMem => hSpot (hBottom hMem), hAhead⟩
  have hRead : Statement.read token rest = .ok (⟨token.location, .endInclude (.spot spot)⟩, rest) :=
    Statement.read_ok_iff.2 ⟨rfl, .endInclude hMark⟩
  have hClose : State.closeFile { state with tokens := rest } (.spot spot) =
      .ok { state with tokens := rest, openFiles := before } := by
    refine State.closeFile_ok_iff.2 ⟨spot, ?_, ?_⟩
    · rw [hOpen]
      exact find?_closes_concat hSpot
    · rw [hOpen, erase_concat hSpot]
  rw [State.step, hRead]
  exact hClose

theorem Nested.step_ne_notOpen (h : Nested bottom state.openFiles state.tokens)
    (hTokens : state.tokens = token :: rest) (mark : FileMark) :
    state.step surroundings token rest ≠ .error (.notOpen mark) := by
  intro hStep
  have hFault := hStep
  unfold State.step at hFault
  split at hFault
  · next fault _ => cases fault <;> cases hFault
  · next statement after hRead =>
    have hReads := (Statement.read_ok_iff.1 hRead).2
    have hMet := State.perform_met hFault
    obtain ⟨location, command⟩ := statement
    cases hMet with
    | notOpen =>
      -- only a mark is read as the end of a file, and a mark finds its file
      have hMark : token.lexeme = .endInclude mark := by
        generalize hAll : token :: rest = tokens at hReads
        cases hReads with
        | endInclude hFile =>
          cases hAll
          exact hFile
        | statement hBody _ =>
          have hOpen := hBody.closing_eq_nil
          cases hOpen
      obtain ⟨spot, before, -, -, hClosed, -⟩ := h.step_endInclude hTokens hMark
      rw [hStep] at hClosed
      cases hClosed

theorem Nested.step_circular_iff (h : Nested bottom state.openFiles state.tokens)
    (hTokens : state.tokens = token :: rest) {location nameLocation : Location} {name : String}
    {after : List Token} {path : Path} {spot : Spot}
    (hRead : Statement.read token rest = .ok (⟨location, .use name nameLocation⟩, after))
    (hFind : surroundings.find nameLocation.file name = .found path spot) :
    (∃ diagnostic, state.step surroundings token rest = .error (.diagnostic diagnostic) ∧
        diagnostic.cause.kind = .circular) ↔
      spot ∈ bottom ∨ .spot spot ∈ Statement.marks after := by
  have hStep : state.step surroundings token rest =
      State.includeFile surroundings { state with tokens := after } location name nameLocation := by
    rw [State.step, hRead]
    rfl
  obtain ⟨front, hAll, -, hMarks⟩ := (Statement.read_ok_iff.1 hRead).2.front
  have hAhead : Statement.marks state.tokens = Statement.marks after := by
    rw [hTokens, hAll, Statement.marks_append, hMarks]
    rfl
  rw [hStep, includeFile_circular_iff hFind, ← hAhead]
  exact h.mem_iff spot

theorem Nested.disciplined {first : State}
    (h : Nested first.openFiles state.openFiles state.tokens) :
    Disciplined surroundings first state where
  nested := h
  closes _ _ _ hTokens hMark := h.step_endInclude hTokens hMark
  finds _ _ mark hTokens := h.step_ne_notOpen hTokens mark
  opens _ _ _ _ _ _ _ _ hTokens hRead hFind := h.step_circular_iff hTokens hRead hFind
  ends hTokens := by
    obtain ⟨-, included, hIncluded, hMarked⟩ := h
    rw [hTokens] at hMarked
    have hNone : included = [] := by simpa [Statement.marks] using hMarked
    rw [hIncluded, hNone, List.append_nil]

end

/-- In every state between two statements of a run over the tokens of a text, the open files are
those whose marks are ahead, above the file that the source came from, and a run that succeeds
leaves the files open that were open at its start. -/
theorem open_files_disciplined {surroundings : Surroundings} {text : List CodePoint} {file : String}
    {source : Source} {first : State} (hScan : scanText text file = .ok source.tokens)
    (hStart : start surroundings source = .ok first) :
    initiallyOpen surroundings source.file = .ok first.openFiles ∧
      (∀ state, Reaches surroundings first state → Disciplined surroundings first state) ∧
      ∀ budget last, run surroundings budget first = ⟨last, none⟩ →
        last.openFiles = first.openFiles := by
  have hFirst := start_nested (scanText_scanned hScan) hStart
  refine ⟨start_openFiles hStart, ?_, ?_⟩
  · intro state hReaches
    exact (hReaches.nested hFirst).disciplined
  · intro budget last hRun
    have hReaches := run_reaches surroundings budget first
    rw [hRun] at hReaches
    have hLast : Disciplined surroundings first last := (hReaches.nested hFirst).disciplined
    exact hLast.ends (run_finished hRun)

/-- A working directory that holds files with some names and texts. -/
def workingDirectory (files : List (String × String)) : Surroundings :=
  ⟨⟨⟨["work"]⟩, files.zipIdx.map fun (file, number) =>
    (⟨["work", file.1]⟩, .file number (Utf8.encode file.2.toList))⟩, [], none⟩

/-- The source is given by its absolute path, the file that it includes by a relative one, and from
there a link leads back to the source. -/
theorem open_files_disciplined_alias :
    let files : FileSystem := ⟨⟨["work"]⟩,
      [(⟨["work", "a"]⟩, .file 0 (Utf8.encode ".use \"b\"".toList)),
        (⟨["work", "b"]⟩, .file 1 (Utf8.encode ".use \"alias\"".toList)),
        (⟨["work", "alias"]⟩, .link ⟨"", ["..", "work", "a"]⟩)]⟩
    let surroundings : Surroundings := ⟨files, [], none⟩
    ∃ tokens first state token rest,
      scanText (".use \"b\"".toList.map .char) "/work/a" = .ok tokens ∧
      start surroundings ⟨tokens, "/work/a", none, .empty⟩ = .ok first ∧
      Reaches surroundings first state ∧ state.tokens = token :: rest ∧
      state.openFiles = [⟨["work", "a"]⟩, ⟨["work", "b"]⟩] ∧
      ∃ diagnostic, state.step surroundings token rest = .error (.diagnostic diagnostic) ∧
        diagnostic.cause.kind = .circular := by
  intro files surroundings
  have hRun : ((scanText (".use \"b\"".toList.map .char) "/work/a").toOption.bind fun tokens =>
      (start surroundings ⟨tokens, "/work/a", none, .empty⟩).toOption.map fun first =>
        (first.openFiles, (run surroundings 1 first).state.openFiles,
          (run surroundings 1 first).state.tokens)) =
      some ([⟨["work", "a"]⟩], [⟨["work", "a"]⟩, ⟨["work", "b"]⟩],
        [⟨.directive ".use", ⟨"b", 1, 1⟩⟩, ⟨.string "alias", ⟨"b", 1, 6⟩⟩,
          ⟨.endInclude (.spot ⟨["work", "b"]⟩), ⟨"b", 1, 1⟩⟩]) := by decide +kernel
  obtain ⟨tokens, hScan, hRun⟩ := Option.bind_eq_some_iff.1 hRun
  obtain ⟨first, hStart, hState⟩ := Option.map_eq_some_iff.1 hRun
  obtain ⟨hFirst, hOpen, hTokens⟩ : _ ∧ _ ∧ _ := by simpa only [Prod.mk.injEq] using hState
  have hScan := eq_ok_of_toOption hScan
  have hStart := eq_ok_of_toOption hStart
  have hReaches := run_reaches surroundings 1 first
  have hFind : surroundings.find "b" "alias" = .found ⟨"", ["alias"]⟩ ⟨["work", "a"]⟩ := by
    decide +kernel
  refine ⟨tokens, first, _, _, _, hScan, hStart, hReaches, hTokens, hOpen, ?_⟩
  refine (((open_files_disciplined hScan hStart).2.1 _ hReaches).opens _ _ ⟨"b", 1, 1⟩ "alias"
    ⟨"b", 1, 6⟩ _ _ _ hTokens rfl hFind).2 (.inl ?_)
  rw [hFirst]
  exact List.mem_singleton_self _

end Assembly
end Lr35902
