import Lr35902.Proofs.Termination

/-!
What a run reads, apart from what it makes of it. A trace lists the statements that are read from
tokens one after the other, and those of included files in their turn; which statements these are
depends on the tokens and the files only. A run succeeds exactly when its tokens have a trace and
the statements of the trace can have their effects one after the other (`run_ok_iff`). Where
statements end, traces can be cut and put together (`Trace.append`, `Trace.split`).
-/
namespace Lr35902

/-- Statements have their effects one after the other. -/
inductive Effects : Program → List Statement → Program → Prop
  | nil {program : Program} : Effects program [] program
  | cons {program middle after : Program} {statement : Statement} {statements : List Statement} :
    Effect statement.location program statement.command middle →
    Effects middle statements after → Effects program (statement :: statements) after

namespace Assembly

/-- The statements that are read from tokens, from some open files to others. -/
inductive Trace (surroundings : Surroundings) :
    List Token → List Spot → List Statement → List Spot → Prop
  | done {openFiles : List Spot} : Trace surroundings [] openFiles [] openFiles
  | step {token : Token} {tokens rest brought : List Token} {openFiles middle others : List Spot}
    {statement : Statement} {statements : List Statement} :
    Statement.read token tokens = .ok (statement, rest) →
    FileEffect surroundings openFiles statement.command brought middle →
    Trace surroundings (brought ++ rest) middle statements others →
    Trace surroundings (token :: tokens) openFiles (statement :: statements) others

section
variable {surroundings : Surroundings} {openFiles : List Spot}

theorem FileEffect.unique {command : Command} {brought others : List Token}
    {left right : List Spot} (h : FileEffect surroundings openFiles command brought left)
    (hOther : FileEffect surroundings openFiles command others right) :
    brought = others ∧ left = right := by
  cases h with
  | none hUse hEnd =>
    cases hOther with
    | none => exact ⟨rfl, rfl⟩
    | use => exact absurd rfl (hUse _ _)
    | endInclude => exact absurd rfl (hEnd _)
  | use hFind hClosed hText hScan =>
    cases hOther with
    | none hUse => exact absurd rfl (hUse _ _)
    | use hFind' _ hText' hScan' =>
      rw [hFind] at hFind'
      cases hFind'
      rw [hText] at hText'
      cases hText'
      rw [hScan] at hScan'
      cases hScan'
      exact ⟨rfl, rfl⟩
  | endInclude hFind =>
    cases hOther with
    | none _ hEnd => exact absurd rfl (hEnd _)
    | endInclude hFind' =>
      rw [hFind] at hFind'
      cases hFind'
      exact ⟨rfl, rfl⟩

/-- Tokens have at most one trace. -/
theorem Trace.unique {tokens : List Token} {statements more : List Statement}
    {left right : List Spot} (h : Trace surroundings tokens openFiles statements left)
    (hOther : Trace surroundings tokens openFiles more right) : statements = more := by
  induction h generalizing more with
  | done =>
    cases hOther
    rfl
  | step hRead hFiles _ ih =>
    cases hOther with
    | step hRead' hFiles' hTrace' =>
      rw [hRead] at hRead'
      cases hRead'
      obtain ⟨rfl, rfl⟩ := hFiles.unique hFiles'
      rw [ih hTrace']

/-- A trace closes all the files that it opens. -/
theorem Trace.nested {bottom last : List Spot} {tokens : List Token} {statements : List Statement}
    (h : Trace surroundings tokens openFiles statements last)
    (hNested : Nested bottom openFiles tokens) : last = bottom := by
  induction h with
  | done =>
    obtain ⟨-, included, rfl, hMarked⟩ := hNested
    have hNone : included = [] := by simpa [Statement.marks] using hMarked
    rw [hNone, List.append_nil]
  | step hRead hFiles _ ih =>
    obtain ⟨front, hFront, -, hMarks⟩ := (Statement.read_ok_iff.1 hRead).2.front
    rw [hFront] at hNested
    exact ih (hFiles.nested hMarks hNested)

end

/-! ## Runs and traces -/

section
variable {surroundings : Surroundings}

theorem step_ok {state after : State} {token : Token} {tokens : List Token}
    (h : state.step surroundings token tokens = .ok after) :
    ∃ statement rest brought, Statement.read token tokens = .ok (statement, rest) ∧
      Effect statement.location state.program statement.command after.program ∧
      FileEffect surroundings state.openFiles statement.command brought after.openFiles ∧
      after.tokens = brought ++ rest := by
  unfold State.step at h
  split at h
  · cases h
  · next statement rest hRead =>
    have hEffect := State.perform_effect h
    obtain ⟨brought, hFiles, hTokens⟩ := State.perform_fileEffect h
    exact ⟨statement, rest, brought, hRead, hEffect, hFiles, hTokens⟩

theorem step_complete {state : State} {token : Token} {tokens rest brought : List Token}
    {statement : Statement} {program : Program} {others : List Spot}
    (hRead : Statement.read token tokens = .ok (statement, rest))
    (hEffect : Effect statement.location state.program statement.command program)
    (hFiles : FileEffect surroundings state.openFiles statement.command brought others) :
    ∃ after, state.step surroundings token tokens = .ok after ∧ after.program = program ∧
      after.tokens = brought ++ rest ∧ after.openFiles = others := by
  let ahead : State := { state with tokens := rest }
  have hDone : ∃ after, ahead.perform surroundings statement = .ok after ∧
      after.program = program ∧ after.tokens = brought ++ ahead.tokens ∧
      after.openFiles = others := State.perform_complete hEffect hFiles
  rw [State.step, hRead]
  exact hDone

/-- A run that succeeds has read a trace, and its statements had their effects. -/
theorem trace_of_run {budget : Nat} {state last : State}
    (h : run surroundings budget state = ⟨last, none⟩) :
    ∃ statements, Trace surroundings state.tokens state.openFiles statements last.openFiles ∧
      Effects state.program statements last.program := by
  refine run_induction (motive := fun state => ∃ statements,
    Trace surroundings state.tokens state.openFiles statements last.openFiles ∧
      Effects state.program statements last.program) ?_ ?_ h
  · intro hDone
    rw [hDone]
    exact ⟨[], .done, .nil⟩
  · rintro state after token tokens hTokens hStep ⟨statements, hTrace, hEffects⟩
    obtain ⟨statement, rest, brought, hRead, hEffect, hFiles, hAfter⟩ := step_ok hStep
    rw [hAfter] at hTrace
    rw [hTokens]
    exact ⟨statement :: statements, .step hRead hFiles hTrace, .cons hEffect hEffects⟩

/-- A trace whose statements can have their effects is run with a step for each. -/
theorem run_of_trace {tokens : List Token} {openFiles others : List Spot}
    {statements : List Statement} (hTrace : Trace surroundings tokens openFiles statements others)
    {state : State} (hTokens : state.tokens = tokens) (hOpen : state.openFiles = openFiles)
    {program : Program} (hEffects : Effects state.program statements program) (more : Nat) :
    ∃ last, run surroundings (statements.length + more) state = ⟨last, none⟩ ∧
      last.program = program := by
  induction hTrace generalizing state with
  | done =>
    cases hEffects
    exact ⟨state, run_nil _ hTokens, rfl⟩
  | @step token tokens rest brought _ _ _ statement statements hRead hFiles _ ih =>
    cases hEffects with
    | cons hEffect hEffects =>
      rw [← hOpen] at hFiles
      obtain ⟨after, hStep, rfl, hRest, hOthers⟩ := step_complete hRead hEffect hFiles
      rw [List.length_cons, Nat.add_right_comm, run_succ _ hTokens, hStep]
      exact ih hRest hOthers hEffects

theorem run_ok_iff {state : State} {program : Program} :
    (∃ last, run surroundings (budgetFor surroundings state) state = ⟨last, none⟩ ∧
        last.program = program) ↔
      ∃ statements others, Trace surroundings state.tokens state.openFiles statements others ∧
        Effects state.program statements program := by
  constructor
  · rintro ⟨last, hRun, rfl⟩
    obtain ⟨statements, hTrace, hEffects⟩ := trace_of_run hRun
    exact ⟨statements, last.openFiles, hTrace, hEffects⟩
  · rintro ⟨statements, others, hTrace, hEffects⟩
    have hSettled := (run_settles (cost_le_budgetFor surroundings state)).2 statements.length
    obtain ⟨last, hRun, hProgram⟩ :=
      run_of_trace hTrace rfl rfl hEffects (budgetFor surroundings state)
    rw [Nat.add_comm, hSettled] at hRun
    exact ⟨last, hRun, hProgram⟩

end

end Assembly

/-! ## Cuts between statements -/

namespace Statement

theorem endsStatement_of_isArgument {lexeme : Lexeme} (h : isArgument lexeme = true) :
    lexeme.endsStatement = false := by
  cases lexeme with
  | newline | endInclude => cases h
  | _ => rfl

/-- Nothing in a statement is a line end or a mark. -/
theorem Body.endsStatement {head : Token} {body : List Token} {command : Command}
    (h : Body head body command) :
    ∀ token ∈ head :: body, token.lexeme.endsStatement = false := by
  refine List.forall_mem_cons.2 ⟨?_, ?_⟩
  · unfold Body at h
    split at h
    · next hHead => rw [hHead]; rfl
    · next hHead => rw [hHead]; rfl
    · exact h.elim
  · intro token hMem
    exact endsStatement_of_isArgument (h.isArgument token hMem)

/-- No statement goes on from some tokens into those that follow: the last of them ends a statement,
or nothing follows, or a mark does. -/
def Cut (tokens rest : List Token) : Prop :=
  (∀ token ∈ tokens.getLast?, token.lexeme.endsStatement = true) ∨
    ∀ token ∈ rest.head?, (fileMark? token).isSome = true

theorem Cut.right {front tokens rest : List Token} (h : Cut (front ++ tokens) rest) :
    Cut tokens rest := by
  refine h.imp_left ?_
  intro hLast token hMem
  apply hLast
  rw [List.getLast?_append, Option.mem_def, Option.mem_def.1 hMem]
  rfl

/-- A statement that the tokens end in is followed by nothing or a mark. -/
theorem Cut.ends {head : Token} {body rest : List Token} {command : Command}
    (h : Cut (head :: body) rest) (hBody : Body head body command) : Ends rest rest := by
  rcases h with hLast | hRest
  · have hFalse := hBody.endsStatement _ (List.getLast_mem (List.cons_ne_nil head body))
    rw [hLast _ (List.getLast?_eq_some_getLast (List.cons_ne_nil head body))] at hFalse
    cases hFalse
  · cases rest with
    | nil => exact .input
    | cons token rest =>
      have hMark := hRest token rfl
      unfold fileMark? at hMark
      split at hMark
      · next hFile => exact .file hFile
      · cases hMark

theorem Ends.eq_self {rest after : List Token} (h : Ends rest rest) (hAfter : Ends rest after) :
    after = rest := by
  cases hAfter with
  | input => rfl
  | file _ => rfl
  | line hLine =>
    cases h with
    | file hFile =>
      rw [hLine] at hFile
      cases hFile

theorem Reads.extend {tokens rest left : List Token} {command : Command}
    (h : Reads tokens command left) (hCut : Cut tokens rest) :
    Reads (tokens ++ rest) command (left ++ rest) := by
  cases h with
  | blank hLine => exact .blank hLine
  | endInclude hFile => exact .endInclude hFile
  | label hName hColon => exact .label hName hColon
  | @statement head body tail _ _ hBody hEnds =>
    rw [List.append_assoc]
    refine .statement hBody ?_
    cases hEnds with
    | line hLine => exact .line hLine
    | file hFile => exact .file hFile
    | input =>
      rw [List.append_nil] at hCut
      exact hCut.ends hBody

theorem Reads.restrict {tokens rest after : List Token} {command : Command}
    (h : Reads (tokens ++ rest) command after) (hCut : Cut tokens rest) (hTokens : tokens ≠ []) :
    ∃ left, Reads tokens command left ∧ after = left ++ rest := by
  obtain ⟨token, tokens, rfl⟩ := List.exists_cons_of_ne_nil hTokens
  generalize hAll : token :: tokens ++ rest = all at h
  cases h with
  | blank hLine =>
    obtain ⟨rfl, rfl⟩ := List.cons.inj hAll
    exact ⟨tokens, .blank hLine, rfl⟩
  | endInclude hFile =>
    obtain ⟨rfl, rfl⟩ := List.cons.inj hAll
    exact ⟨tokens, .endInclude hFile, rfl⟩
  | @label _ colon _ name spelling hName hColon =>
    obtain ⟨rfl, hMore⟩ := List.cons.inj hAll
    cases tokens with
    | cons second tokens =>
      obtain ⟨rfl, rfl⟩ := List.cons.inj hMore
      exact ⟨tokens, .label hName hColon, rfl⟩
    | nil =>
      -- a label is not cut before its colon
      rw [show rest = colon :: after from hMore] at hCut
      rcases hCut with hLast | hRest
      · have hFalse := hLast token rfl
        rw [hName] at hFalse
        cases hFalse
      · have hFalse := hRest colon rfl
        unfold fileMark? at hFalse
        rw [hColon] at hFalse
        cases hFalse
  | @statement head body tail _ _ hBody hEnds =>
    obtain ⟨rfl, hMore⟩ := List.cons.inj hAll
    rcases List.append_eq_append_iff.1 hMore with ⟨beyond, rfl, rfl⟩ | ⟨left, rfl, rfl⟩
    · -- nothing of the statement is left over, since it has no line end and no mark
      cases beyond with
      | nil =>
        rw [List.append_nil] at hBody
        have hSelf := hCut.ends hBody
        rw [List.nil_append] at hSelf
        refine ⟨[], ?_, hSelf.eq_self hEnds⟩
        have hWhole := Reads.statement hBody .input
        rw [List.append_nil] at hWhole
        exact hWhole
      | cons first beyond =>
        have hOver : first.lexeme.endsStatement = false :=
          hBody.endsStatement first (by simp)
        exfalso
        rcases hCut with hLast | hRest
        · have hMem := List.getLast_mem (List.cons_ne_nil token tokens)
          have hFalse := hBody.endsStatement _ (List.mem_append_left (first :: beyond) hMem)
          rw [hLast _ (List.getLast?_eq_some_getLast (List.cons_ne_nil token tokens))] at hFalse
          cases hFalse
        · have hMark := hRest first rfl
          unfold fileMark? at hMark
          split at hMark
          · next hFile =>
            rw [hFile] at hOver
            cases hOver
          · cases hMark
    · cases left with
      | nil =>
        rw [List.append_nil] at hCut
        have hSelf := hCut.ends hBody
        exact ⟨[], .statement hBody .input, hSelf.eq_self hEnds⟩
      | cons first left =>
        rw [List.cons_append] at hEnds
        cases hEnds with
        | line hLine => exact ⟨left, .statement hBody (.line hLine), rfl⟩
        | file hFile => exact ⟨first :: left, .statement hBody (.file hFile), rfl⟩

section
variable {newline : Token} {tokens rest : List Token} {command : Command}

theorem Ends.extend {tail : List Token} (h : Ends tail rest)
    (hNewline : newline.lexeme = .newline) :
    Ends (tail ++ [newline]) (rest ++ [newline]) ∨
      (rest = [] ∧ Ends (tail ++ [newline]) []) := by
  cases h with
  | input => exact .inr ⟨rfl, .line hNewline⟩
  | line hLine => exact .inl (.line hLine)
  | file hFile => exact .inl (.file hFile)

theorem Ends.restrict {tail after : List Token} (h : Ends (tail ++ [newline]) after)
    (hNewline : newline.lexeme = .newline) :
    ∃ rest, Ends tail rest ∧ (after = rest ++ [newline] ∨ (rest = [] ∧ after = [])) := by
  cases tail with
  | nil =>
    cases h with
    | line => exact ⟨[], .input, .inr ⟨rfl, rfl⟩⟩
    | file hFile =>
      rw [hNewline] at hFile
      cases hFile
  | cons token tail =>
    rw [List.cons_append] at h
    cases h with
    | line hLine => exact ⟨tail, .line hLine, .inl rfl⟩
    | file hFile => exact ⟨token :: tail, .file hFile, .inl rfl⟩

/-- Before a last line end, a statement is read as without it. The statement that the tokens end in
takes the line end along. -/
theorem Reads.extend_newline (h : Reads tokens command rest)
    (hNewline : newline.lexeme = .newline) :
    Reads (tokens ++ [newline]) command (rest ++ [newline]) ∨
      (rest = [] ∧ Reads (tokens ++ [newline]) command []) := by
  cases h with
  | blank hLine => exact .inl (.blank hLine)
  | endInclude hFile => exact .inl (.endInclude hFile)
  | label hName hColon => exact .inl (.label hName hColon)
  | statement hBody hEnds =>
    rw [List.append_assoc]
    rcases hEnds.extend hNewline with hEnds | ⟨hRest, hEnds⟩
    · exact .inl (.statement hBody hEnds)
    · exact .inr ⟨hRest, .statement hBody hEnds⟩

theorem Reads.restrict_newline {after : List Token} (h : Reads (tokens ++ [newline]) command after)
    (hNewline : newline.lexeme = .newline) (hTokens : tokens ≠ []) :
    ∃ rest, Reads tokens command rest ∧ (after = rest ++ [newline] ∨ (rest = [] ∧ after = [])) := by
  obtain ⟨token, tokens, rfl⟩ := List.exists_cons_of_ne_nil hTokens
  generalize hAll : token :: tokens ++ [newline] = all at h
  cases h with
  | blank hLine =>
    obtain ⟨rfl, rfl⟩ := List.cons.inj hAll
    exact ⟨tokens, .blank hLine, .inl rfl⟩
  | endInclude hFile =>
    obtain ⟨rfl, rfl⟩ := List.cons.inj hAll
    exact ⟨tokens, .endInclude hFile, .inl rfl⟩
  | label hName hColon =>
    obtain ⟨rfl, hMore⟩ := List.cons.inj hAll
    cases tokens with
    | nil =>
      obtain ⟨rfl, -⟩ := List.cons.inj hMore
      rw [hNewline] at hColon
      cases hColon
    | cons second tokens =>
      obtain ⟨rfl, rfl⟩ := List.cons.inj hMore
      exact ⟨tokens, .label hName hColon, .inl rfl⟩
  | @statement head body tail _ _ hBody hEnds =>
    -- the line end is no part of the statement, so it stands in the tail
    have hTail : tail ≠ [] := by
      rintro rfl
      rw [List.append_nil] at hAll
      have hMem : newline ∈ head :: body := by
        rw [← hAll]
        exact List.mem_append_right _ (List.mem_singleton_self newline)
      have hFalse := hBody.endsStatement newline hMem
      rw [hNewline] at hFalse
      cases hFalse
    obtain ⟨tail, last, rfl⟩ := List.eq_nil_or_concat' tail |>.resolve_left hTail
    rw [← List.append_assoc] at hAll
    obtain ⟨hFront, hLast⟩ := List.append_inj' hAll rfl
    obtain rfl := (List.cons.inj hLast).1
    obtain ⟨rest, hRest, hAfter⟩ := hEnds.restrict hNewline
    rw [hFront]
    exact ⟨rest, .statement hBody hRest, hAfter⟩

end

end Statement

namespace Assembly
open Statement (Cut)

section
variable {surroundings : Surroundings}

/-- What a file brings in ends with its mark. -/
theorem FileEffect.cut {openFiles others : List Spot} {command : Command}
    {brought left rest : List Token}
    (h : FileEffect surroundings openFiles command brought others) (hCut : Cut left rest) :
    Cut (brought ++ left) rest := by
  cases h with
  | none _ _ => exact hCut
  | endInclude _ => exact hCut
  | use _ _ _ _ =>
    refine hCut.imp_left ?_
    intro hLast token hMem
    rw [List.getLast?_append] at hMem
    cases hLeft : left.getLast? with
    | some last =>
      rw [hLeft] at hMem
      exact hLast token (by rw [hLeft]; exact hMem)
    | none =>
      rw [hLeft, List.getLast?_concat] at hMem
      cases hMem
      rfl

theorem Trace.append {tokens rest : List Token} {openFiles middle others : List Spot}
    {statements more : List Statement} (h : Trace surroundings tokens openFiles statements middle)
    (hCut : Cut tokens rest) (hRest : Trace surroundings rest middle more others) :
    Trace surroundings (tokens ++ rest) openFiles (statements ++ more) others := by
  induction h with
  | done => exact hRest
  | @step token tokens left brought _ _ _ statement statements hRead hFiles _ ih =>
    obtain ⟨hLocation, hReads⟩ := Statement.read_ok_iff.1 hRead
    obtain ⟨front, hFront, -, -⟩ := hReads.front
    have hLeft : Cut left rest := by
      rw [hFront] at hCut
      exact hCut.right
    have hMore := ih (hFiles.cut hLeft) hRest
    rw [List.append_assoc] at hMore
    exact .step (Statement.read_ok_iff.2 ⟨hLocation, hReads.extend hCut⟩) hFiles hMore

theorem Trace.split {tokens rest : List Token} {openFiles others : List Spot}
    {statements : List Statement}
    (h : Trace surroundings (tokens ++ rest) openFiles statements others)
    (hCut : Cut tokens rest) :
    ∃ first more middle, Trace surroundings tokens openFiles first middle ∧
      Trace surroundings rest middle more others ∧ statements = first ++ more := by
  generalize hAll : tokens ++ rest = all at h
  induction h generalizing tokens with
  | done =>
    obtain ⟨rfl, rfl⟩ := List.append_eq_nil_iff.1 hAll
    exact ⟨[], [], _, .done, .done, rfl⟩
  | @step token later after brought openFiles _ _ statement statements hRead hFiles hTrace ih =>
    cases tokens with
    | nil =>
      rw [List.nil_append] at hAll
      rw [hAll]
      exact ⟨[], statement :: statements, openFiles, .done, .step hRead hFiles hTrace, rfl⟩
    | cons first tokens =>
      obtain ⟨hLocation, hReads⟩ := Statement.read_ok_iff.1 hRead
      rw [← hAll] at hReads
      obtain ⟨rfl, -⟩ := List.cons.inj hAll
      obtain ⟨left, hLeft, rfl⟩ := hReads.restrict hCut (List.cons_ne_nil _ _)
      obtain ⟨front, hFront, -, -⟩ := hLeft.front
      have hCutLeft : Cut left rest := by
        rw [hFront] at hCut
        exact hCut.right
      obtain ⟨one, more, middle, hOne, hMore, rfl⟩ :=
        ih (hFiles.cut hCutLeft) (List.append_assoc _ _ _)
      refine ⟨statement :: one, more, middle, .step ?_ hFiles hOne, hMore, rfl⟩
      exact Statement.read_ok_iff.2 ⟨hLocation, hLeft⟩

end

end Assembly
end Lr35902
