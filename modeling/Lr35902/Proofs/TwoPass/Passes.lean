import Lr35902.Proofs.Trace
import Lr35902.Proofs.TwoPass.Clauses

/-!
Runs and the two passes. A source unfolds into the clauses of its trace, and traces can be cut where
statements end (`Unfolds`). The effects of the statements of a trace are what the first pass says of
their addresses and definitions (`Performed.first_pass`), and what they placed delivers the bytes of
the second pass (`Performed.second_pass`); where both passes succeed, the effects can happen and all
symbols can be resolved (`effects_of_passes`). Hence the bytes and the definitions of a source, with
all the files that it includes, are those of the clauses of its trace (`yields_iff`).
-/
namespace Lr35902.TwoPass

open Assembly (State Source Resolving Trace FileEffect run)

/-! ## Statements of a trace -/

section
variable {surroundings : Surroundings} {openFiles others : List Spot}

theorem fileEffect_of_clause {command : Command} {clause : Clause}
    (h : ofCommand command = [clause]) :
    FileEffect surroundings openFiles command [] openFiles := by
  refine .none ?_ ?_
  · rintro file location rfl
    cases h
  · rintro file rfl
    cases h

theorem eq_of_fileEffect {command : Command} {clause : Clause} {brought : List Token}
    (h : FileEffect surroundings openFiles command brought others)
    (hClause : ofCommand command = [clause]) : brought = [] ∧ others = openFiles := by
  cases h with
  | none => exact ⟨rfl, rfl⟩
  | use => cases hClause
  | endInclude => cases hClause

/-- The literals of a trace are in range. -/
theorem trace_measured {tokens : List Token} {statements : List Statement}
    (h : Trace surroundings tokens openFiles statements others)
    (hLive : ∀ token ∈ tokens, token.Live) :
    ∀ statement ∈ statements, statement.command.Measured := by
  induction h with
  | done => exact List.forall_mem_nil _
  | step hRead hFiles _ ih =>
    have hReads := (Statement.read_ok_iff.1 hRead).2
    refine List.forall_mem_cons.2 ⟨hReads.measured hLive, ih ?_⟩
    refine List.forall_mem_append.2 ⟨hFiles.live, ?_⟩
    exact fun token hMem => hLive token (hReads.rest_subset hMem)

end

/-! ## Unfolding -/

/-- Tokens unfold into clauses, those of the files that they include in their places. -/
def Unfolds (surroundings : Surroundings) (tokens : List Token) (openFiles : List Spot)
    (clauses : List Clause) (others : List Spot) : Prop :=
  ∃ statements, Trace surroundings tokens openFiles statements others ∧
    clausesOf statements = clauses

section
variable {surroundings : Surroundings} {openFiles others : List Spot} {clauses : List Clause}

theorem unfolds_nil_iff :
    Unfolds surroundings [] openFiles clauses others ↔ clauses = [] ∧ others = openFiles := by
  constructor
  · rintro ⟨statements, hTrace, rfl⟩
    cases hTrace
    exact ⟨rfl, rfl⟩
  · rintro ⟨rfl, rfl⟩
    exact ⟨[], .done, rfl⟩

theorem unfolds_cons_iff {token : Token} {tokens rest brought : List Token}
    {statement : Statement} {middle : List Spot}
    (hRead : Statement.read token tokens = .ok (statement, rest))
    (hFiles : FileEffect surroundings openFiles statement.command brought middle) :
    Unfolds surroundings (token :: tokens) openFiles clauses others ↔
      ∃ more, Unfolds surroundings (brought ++ rest) middle more others ∧
        clauses = ofCommand statement.command ++ more := by
  constructor
  · rintro ⟨statements, hTrace, rfl⟩
    cases hTrace with
    | step hRead' hFiles' hTrace =>
      rw [hRead] at hRead'
      cases hRead'
      obtain ⟨rfl, rfl⟩ := hFiles.unique hFiles'
      exact ⟨_, ⟨_, hTrace, rfl⟩, clausesOf_cons _ _⟩
  · rintro ⟨_, ⟨statements, hTrace, rfl⟩, rfl⟩
    exact ⟨statement :: statements, .step hRead hFiles hTrace, clausesOf_cons _ _⟩

theorem unfolds_append_iff {tokens rest : List Token} (hCut : Statement.Cut tokens rest) :
    Unfolds surroundings (tokens ++ rest) openFiles clauses others ↔
      ∃ first more middle, Unfolds surroundings tokens openFiles first middle ∧
        Unfolds surroundings rest middle more others ∧ clauses = first ++ more := by
  constructor
  · rintro ⟨statements, hTrace, rfl⟩
    obtain ⟨first, more, middle, hFirst, hMore, rfl⟩ := hTrace.split hCut
    exact ⟨_, _, middle, ⟨first, hFirst, rfl⟩, ⟨more, hMore, rfl⟩, List.flatMap_append⟩
  · rintro ⟨_, _, middle, ⟨first, hFirst, rfl⟩, ⟨more, hMore, rfl⟩, rfl⟩
    exact ⟨first ++ more, hFirst.append hCut hMore, List.flatMap_append⟩

/-- A statement of a text without inclusions leaves the open files as they are. -/
theorem fileEffect_plain_iff {tokens rest brought : List Token} {command : Command}
    (h : Statement.Reads tokens command rest) (hPlain : ∀ token ∈ tokens, Plain token) :
    FileEffect surroundings openFiles command brought others ↔
      brought = [] ∧ others = openFiles := by
  have hNoFile : FileEffect surroundings openFiles command [] openFiles := by
    cases h with
    | blank => exact .none nofun nofun
    | label => exact .none nofun nofun
    | @endInclude token _ _ hFile =>
      have hScanned := (hPlain token List.mem_cons_self).1
      rw [hFile] at hScanned
      exact hScanned.elim
    | @statement head body tail _ _ hBody _ =>
      obtain ⟨clause, hClause⟩ := (body_plain hBody).2 (hPlain head (by simp)).2
      exact fileEffect_of_clause hClause
  constructor
  · intro hFiles
    exact hFiles.unique hNoFile
  · rintro ⟨rfl, rfl⟩
    exact hNoFile

/-- Without inclusions, a trace is what can be read. -/
theorem trace_plain_iff {tokens : List Token} {statements : List Statement}
    (hPlain : ∀ token ∈ tokens, Plain token) :
    Trace surroundings tokens openFiles statements others ↔
      ReadAll tokens statements ∧ others = openFiles := by
  constructor
  · intro h
    induction h with
    | done => exact ⟨.nil, rfl⟩
    | step hRead hFiles _ ih =>
      have hReads := (Statement.read_ok_iff.1 hRead).2
      obtain ⟨rfl, rfl⟩ := (fileEffect_plain_iff hReads hPlain).1 hFiles
      obtain ⟨hReadAll, rfl⟩ := ih fun token hMem => hPlain token (hReads.rest_subset hMem)
      exact ⟨.cons hRead hReadAll, rfl⟩
  · rintro ⟨h, rfl⟩
    induction h with
    | nil => exact .done
    | cons hRead _ ih =>
      have hReads := (Statement.read_ok_iff.1 hRead).2
      refine .step hRead ((fileEffect_plain_iff hReads hPlain).2 ⟨rfl, rfl⟩) ?_
      exact ih fun token hMem => hPlain token (hReads.rest_subset hMem)

/-- A text without inclusions unfolds into its own clauses. -/
theorem unfolds_plain_iff {tokens : List Token} (hPlain : ∀ token ∈ tokens, Plain token) :
    Unfolds surroundings tokens openFiles clauses others ↔
      clauses? (lexemes tokens) = some clauses ∧ others = openFiles := by
  unfold Unfolds
  simp only [trace_plain_iff hPlain]
  constructor
  · rintro ⟨statements, ⟨hReadAll, rfl⟩, rfl⟩
    exact ⟨hReadAll.clauses hPlain, rfl⟩
  · rintro ⟨hClauses, rfl⟩
    obtain ⟨statements, hReadAll, rfl⟩ := readAll_of_clauses hPlain hClauses
    exact ⟨statements, ⟨hReadAll, rfl⟩, rfl⟩

section
variable {tokens : List Token} {newline : Token}

theorem unfolds_blank_iff (hNewline : newline.lexeme = .newline) :
    Unfolds surroundings [newline] openFiles clauses others ↔
      clauses = [] ∧ others = openFiles := by
  have hRead : Statement.read newline [] = .ok (⟨newline.location, .blank⟩, []) :=
    Statement.read_ok_iff.2 ⟨rfl, .blank hNewline⟩
  have hFiles : FileEffect surroundings openFiles .blank [] openFiles := by
    apply FileEffect.none
    · intro file location h
      cases h
    · intro file h
      cases h
  rw [unfolds_cons_iff hRead hFiles, List.append_nil]
  simp only [unfolds_nil_iff, ofCommand, List.nil_append]
  constructor
  · rintro ⟨more, ⟨rfl, rfl⟩, rfl⟩
    exact ⟨rfl, rfl⟩
  · rintro ⟨rfl, rfl⟩
    exact ⟨[], ⟨rfl, rfl⟩, rfl⟩

/-- A line end after the last statement, or after a line end, adds nothing. -/
theorem Unfolds.extend_newline (h : Unfolds surroundings tokens openFiles clauses others)
    (hNewline : newline.lexeme = .newline) :
    Unfolds surroundings (tokens ++ [newline]) openFiles clauses others := by
  obtain ⟨statements, hTrace, rfl⟩ := h
  induction hTrace with
  | done => exact (unfolds_blank_iff hNewline).2 ⟨rfl, rfl⟩
  | @step token tokens rest brought _ _ _ statement statements hRead hFiles hTrace ih =>
    obtain ⟨hLocation, hReads⟩ := Statement.read_ok_iff.1 hRead
    rw [List.cons_append]
    rcases hReads.extend_newline hNewline with hLonger | ⟨rfl, hLonger⟩
    · rw [List.append_assoc] at ih
      refine (unfolds_cons_iff (Statement.read_ok_iff.2 ⟨hLocation, hLonger⟩) hFiles).2 ?_
      exact ⟨_, ih, clausesOf_cons _ _⟩
    · refine (unfolds_cons_iff (Statement.read_ok_iff.2 ⟨hLocation, hLonger⟩) hFiles).2 ?_
      exact ⟨_, ⟨statements, hTrace, rfl⟩, clausesOf_cons _ _⟩

theorem Unfolds.restrict_newline
    (h : Unfolds surroundings (tokens ++ [newline]) openFiles clauses others)
    (hNewline : newline.lexeme = .newline) :
    Unfolds surroundings tokens openFiles clauses others := by
  obtain ⟨statements, hTrace, rfl⟩ := h
  generalize hAll : tokens ++ [newline] = all at hTrace
  induction hTrace generalizing tokens with
  | done => cases (List.append_eq_nil_iff.1 hAll).2
  | @step token later after brought spots _ others statement statements hRead hFiles hTrace ih =>
    cases tokens with
    | nil =>
      have hBlank : Unfolds surroundings [newline] spots (clausesOf (statement :: statements))
          others := by
        rw [show [newline] = token :: later from hAll]
        exact ⟨_, .step hRead hFiles hTrace, rfl⟩
      exact unfolds_nil_iff.2 ((unfolds_blank_iff hNewline).1 hBlank)
    | cons first tokens =>
      obtain ⟨hLocation, hReads⟩ := Statement.read_ok_iff.1 hRead
      rw [← hAll] at hReads
      obtain ⟨rfl, -⟩ := List.cons.inj hAll
      obtain ⟨rest, hRest, hAfter⟩ := hReads.restrict_newline hNewline (List.cons_ne_nil _ _)
      refine (unfolds_cons_iff (Statement.read_ok_iff.2 ⟨hLocation, hRest⟩) hFiles).2 ?_
      rcases hAfter with rfl | ⟨rfl, rfl⟩
      · exact ⟨_, ih (List.append_assoc _ _ _), clausesOf_cons _ _⟩
      · exact ⟨_, ⟨statements, hTrace, rfl⟩, clausesOf_cons _ _⟩

end

end

/-! ## From effects to passes -/

/-- Clauses whose statements have their effects one after the other, in programs that are laid
out; between them come statements without a clause. -/
inductive Performed : Program → List Clause → Program → Prop
  | nil {program : Program} : Performed program [] program
  | cons {program middle after : Program} {location : Location} {command : Command}
    {clause : Clause} {clauses : List Clause} :
    Effect location program command middle → program.Laid → command.Measured →
    ofCommand command = [clause] → Performed middle clauses after →
    Performed program (clause :: clauses) after
  | silent {program middle after : Program} {location : Location} {command : Command}
    {clauses : List Clause} :
    Effect location program command middle → ofCommand command = [] →
    Performed middle clauses after → Performed program clauses after

section
variable {program after : Program} {statements : List Statement}

theorem performed_of_effects (h : Effects program statements after)
    (hMeasured : ∀ statement ∈ statements, statement.command.Measured) (hLaid : program.Laid) :
    Performed program (clausesOf statements) after := by
  induction h with
  | nil => exact .nil
  | @cons program middle after statement statements hEffect _ ih =>
    obtain ⟨hHere, hRest⟩ := List.forall_mem_cons.1 hMeasured
    have hMiddle := ih hRest (hEffect.laid hHere hLaid)
    rw [clausesOf_cons]
    rcases ofCommand_cases statement.command with hNone | ⟨clause, hClause⟩
    · rw [hNone]
      exact .silent hEffect hNone hMiddle
    · rw [hClause]
      exact .cons hEffect hLaid hHere hClause hMiddle

theorem effects_laid (h : Effects program statements after)
    (hMeasured : ∀ statement ∈ statements, statement.command.Measured) (hLaid : program.Laid) :
    after.Laid := by
  induction h with
  | nil => exact hLaid
  | cons hEffect _ ih =>
    obtain ⟨hHere, hRest⟩ := List.forall_mem_cons.1 hMeasured
    exact ih hRest (hEffect.laid hHere hLaid)

theorem effects_nodup (h : Effects program statements after)
    (hNodup : ((definitionsOf program).map Definition.name).Nodup) :
    ((definitionsOf after).map Definition.name).Nodup := by
  induction h with
  | nil => exact hNodup
  | cons hEffect _ ih => exact ih (effect_nodup hEffect hNodup)

end

theorem definedIn_cons (address : Int) (clause : Clause) (placed : List (Int × Clause)) :
    definedIn ((address, clause) :: placed) =
      (clause.definition? address).toList ++ definedIn placed := by
  simp only [definedIn, List.filterMap_cons]
  split
  · next hNone => rw [hNone]; rfl
  · next entry hEntry => rw [hEntry]; rfl

section
variable {program after : Program} {clauses : List Clause}

/-- The first pass finds the addresses of a run admissible, and defines what the run does. -/
theorem Performed.first_pass (h : Performed program clauses after) :
    (∀ place ∈ addressed program.location clauses, place.2.admissible place.1 = true) ∧
      definitionsOf after =
        definitionsOf program ++ definedIn (addressed program.location clauses) := by
  induction h with
  | nil => exact ⟨List.forall_mem_nil _, (List.append_nil _).symm⟩
  | cons hEffect hLaid _ hClause _ ih =>
    obtain ⟨hLocation, hAdmissible, hDefinitions⟩ := effect_clause hEffect hLaid hClause
    rw [hLocation] at ih
    obtain ⟨hRest, hMore⟩ := ih
    rw [addressed, definedIn_cons]
    refine ⟨List.forall_mem_cons.2 ⟨hAdmissible, hRest⟩, ?_⟩
    rw [hMore, hDefinitions, List.append_assoc]
  | silent hEffect hNone _ ih =>
    obtain ⟨hLocation, hDefinitions, -⟩ := effect_silent hEffect hNone
    rw [hLocation, hDefinitions] at ih
    exact ih

/-- The bytes that the second pass finds for clauses at their addresses. -/
def Encoded (table : List Definition) (placed : List (Int × Clause)) (parts : List Bytes) : Prop :=
  List.Forall₂ (fun place part => place.2.encode? table place.1 = some part) placed parts

theorem Encoded.unique {table : List Definition} {placed : List (Int × Clause)}
    {parts others : List Bytes} (h : Encoded table placed parts)
    (hOther : Encoded table placed others) : parts = others := by
  refine List.right_unique_forall₂' ?_ h hOther
  intro place part other hPart hOther
  exact Option.some.inj (hPart.symm.trans hOther)

/-- What a run placed delivers, with all symbols resolved, the bytes of the second pass. -/
theorem Performed.second_pass (h : Performed program clauses after) {symbols : SymbolTable}
    {table : List Definition} (hSymbols : symbols.Bounded) (hAgrees : Agrees symbols table)
    (lineAt : Location → Option String) :
    ∃ placed, after.items = program.items ++ placed ∧
      ∀ resolved, Resolving symbols lineAt placed resolved →
        ∃ pieces parts, List.Forall₂ Item.Delivers resolved pieces ∧
          Encoded table (addressed program.location clauses) parts ∧
          pieces.flatten = parts.flatten := by
  induction h with
  | nil =>
    refine ⟨[], (List.append_nil _).symm, ?_⟩
    intro resolved hResolve
    obtain rfl := List.forall₂_nil_left_iff.1 hResolve
    exact ⟨[], [], .nil, .nil, rfl⟩
  | cons hEffect hLaid hMeasured hClause _ ih =>
    obtain ⟨hLocation, -, -⟩ := effect_clause hEffect hLaid hClause
    rw [hLocation] at ih
    obtain ⟨more, hMore, hRest⟩ := ih
    obtain ⟨first, hFirst, hOne⟩ :=
      effect_delivers hEffect hLaid hMeasured hSymbols hAgrees hClause
    refine ⟨first ++ more, by rw [hMore, hFirst, List.append_assoc], ?_⟩
    intro resolved hResolve
    obtain ⟨front, back, rfl, hFront, hBack⟩ := hResolve.split
    obtain ⟨pieces, hPieces, hEncode⟩ := hOne front hFront
    obtain ⟨morePieces, parts, hMorePieces, hParts, hSame⟩ := hRest back hBack
    refine ⟨pieces ++ morePieces, pieces.flatten :: parts, List.rel_append hPieces hMorePieces,
      .cons hEncode hParts, ?_⟩
    rw [List.flatten_append, hSame, List.flatten_cons]
  | silent hEffect hNone _ ih =>
    obtain ⟨hLocation, -, first, hFirst, hOne⟩ := effect_silent hEffect hNone
    rw [hLocation] at ih
    obtain ⟨more, hMore, hRest⟩ := ih
    refine ⟨first ++ more, by rw [hMore, hFirst, List.append_assoc], ?_⟩
    intro resolved hResolve
    obtain ⟨front, back, rfl, hFront, hBack⟩ := hResolve.split
    obtain ⟨pieces, hPieces, hNothing⟩ := hOne symbols lineAt front hFront
    obtain ⟨morePieces, parts, hMorePieces, hParts, hSame⟩ := hRest back hBack
    refine ⟨pieces ++ morePieces, parts, List.rel_append hPieces hMorePieces, hParts, ?_⟩
    rw [List.flatten_append, hNothing, List.nil_append, hSame]

end

/-! ## From passes to effects -/

/-- A clause that may stand at an address has a size, and its name has a value of 16 bits. -/
theorem clause_range {command : Command} {clause : Clause} {address : Int}
    (hMeasured : command.Measured) (hClause : ofCommand command = [clause]) (hLow : 0 ≤ address)
    (hAdmissible : clause.admissible address = true) :
    0 ≤ clause.size address ∧ ∀ entry, clause.definition? address = some entry →
      0 ≤ entry.value ∧ entry.value ≤ 0xFFFF := by
  obtain ⟨-, hLabel, hOrigin⟩ := admissible_iff.1 hAdmissible
  cases command with
  | blank | endInclude | use => cases hClause
  | instruction | bytes | string =>
    cases hClause
    exact ⟨Int.natCast_nonneg _, nofun⟩
  | sectionMark =>
    cases hClause
    exact ⟨Int.le_refl 0, nofun⟩
  | fill =>
    cases hClause
    exact ⟨hMeasured.1, nofun⟩
  | origin =>
    cases hClause
    exact ⟨Int.sub_nonneg_of_le (hOrigin _ _ rfl), nofun⟩
  | label name =>
    cases hClause
    refine ⟨Int.le_refl 0, ?_⟩
    rintro entry ⟨⟩
    exact ⟨hLow, hLabel name rfl⟩
  | constant =>
    cases hClause
    refine ⟨Int.le_refl 0, ?_⟩
    rintro entry ⟨⟩
    exact hMeasured

theorem definedIn_range {statements : List Statement} {address : Int}
    (hMeasured : ∀ statement ∈ statements, statement.command.Measured) (hLow : 0 ≤ address)
    (hAdmissible : ∀ place ∈ addressed address (clausesOf statements),
      place.2.admissible place.1 = true) :
    ∀ entry ∈ definedIn (addressed address (clausesOf statements)),
      0 ≤ entry.value ∧ entry.value ≤ 0xFFFF := by
  induction statements generalizing address with
  | nil => exact List.forall_mem_nil _
  | cons statement statements ih =>
    obtain ⟨hHere, hRest⟩ := List.forall_mem_cons.1 hMeasured
    rw [clausesOf_cons] at hAdmissible ⊢
    rcases ofCommand_cases statement.command with hNone | ⟨clause, hClause⟩
    · rw [hNone] at hAdmissible ⊢
      exact ih hRest hLow hAdmissible
    · rw [hClause] at hAdmissible ⊢
      obtain ⟨hFirst, hMore⟩ := List.forall_mem_cons.1 hAdmissible
      obtain ⟨hSize, hValue⟩ := clause_range hHere hClause hLow hFirst
      rw [List.singleton_append, addressed, definedIn_cons]
      intro entry hMem
      rcases List.mem_append.1 hMem with hHere | hLater
      · exact hValue entry (Option.mem_toList.1 hHere)
      · exact ih hRest (Int.add_nonneg hLow hSize) hMore entry hLater

/-- All definitions have values of 16 bits, those made beforehand and those of the source. -/
theorem definitions_range {defines : List (String × Int)} {statements : List Statement}
    (hDefines : ∀ entry ∈ defines, 0 ≤ entry.2 ∧ entry.2 ≤ 0xFFFF)
    (hMeasured : ∀ statement ∈ statements, statement.command.Measured)
    (hAdmissible : ∀ place ∈ addressed 0 (clausesOf statements),
      place.2.admissible place.1 = true) :
    ∀ entry ∈ definitions defines (addressed 0 (clausesOf statements)),
      0 ≤ entry.value ∧ entry.value ≤ 0xFFFF := by
  intro entry hMem
  rcases List.mem_append.1 hMem with hBefore | hIn
  · obtain ⟨define, hDefine, rfl⟩ := List.mem_map.1 hBefore
    exact hDefines define hDefine
  · exact definedIn_range hMeasured (Int.le_refl 0) hAdmissible entry hIn

/-- Where both passes succeed, the statements can have their effects, and all that they place can be
resolved. -/
theorem effects_of_passes {symbols : SymbolTable} {table : List Definition}
    (hSymbols : symbols.Bounded) (hAgrees : Agrees symbols table)
    (lineAt : Location → Option String) {statements : List Statement} {program : Program}
    (hMeasured : ∀ statement ∈ statements, statement.command.Measured) (hLaid : program.Laid)
    (hAdmissible : ∀ place ∈ addressed program.location (clausesOf statements),
      place.2.admissible place.1 = true)
    (hNodup : ((definitionsOf program ++
      definedIn (addressed program.location (clausesOf statements))).map Definition.name).Nodup)
    {parts : List Bytes}
    (hParts : Encoded table (addressed program.location (clausesOf statements)) parts) :
    ∃ after placed resolved, Effects program statements after ∧
      after.items = program.items ++ placed ∧ Resolving symbols lineAt placed resolved := by
  induction statements generalizing program parts with
  | nil => exact ⟨program, [], [], .nil, (List.append_nil _).symm, .nil⟩
  | cons statement statements ih =>
    obtain ⟨hHere, hRest⟩ := List.forall_mem_cons.1 hMeasured
    rw [clausesOf_cons] at hAdmissible hNodup hParts
    rcases ofCommand_cases statement.command with hNone | ⟨clause, hClause⟩
    · rw [hNone, List.nil_append] at hAdmissible hNodup hParts
      obtain ⟨middle, first, front, hEffect, hFirst, hFront⟩ :=
        effect_of_silent hLaid hNone symbols lineAt statement.location
      obtain ⟨hLocation, hDefinitions, -⟩ := effect_silent hEffect hNone
      rw [← hLocation] at hAdmissible hNodup hParts
      rw [← hDefinitions] at hNodup
      obtain ⟨after, more, back, hEffects, hItems, hBack⟩ :=
        ih hRest (hEffect.laid hHere hLaid) hAdmissible hNodup hParts
      refine ⟨after, first ++ more, front ++ back, .cons hEffect hEffects, ?_,
        List.rel_append hFront hBack⟩
      rw [hItems, hFirst, List.append_assoc]
    · rw [hClause, List.singleton_append, addressed] at hAdmissible hNodup hParts
      obtain ⟨hFirst, hMore⟩ := List.forall_mem_cons.1 hAdmissible
      obtain ⟨part, parts, hEncode, hMoreParts, rfl⟩ := List.forall₂_cons_left_iff.1 hParts
      rw [definedIn_cons, ← List.append_assoc] at hNodup
      have hFresh : ∀ entry, clause.definition? program.location = some entry →
          entry.name ∉ (definitionsOf program).map Definition.name := by
        intro entry hEntry hMem
        rw [hEntry, List.map_append, List.map_append] at hNodup
        -- the name stands in the table after all those of the program
        have hApart := (List.nodup_append.1 (List.nodup_append.1 hNodup).1).2.2
        exact hApart entry.name hMem entry.name List.mem_cons_self rfl
      obtain ⟨middle, first, front, hEffect, hPlaced, hFront⟩ :=
        effect_of_clause hLaid hHere hSymbols hAgrees hClause hFirst hFresh hEncode
          statement.location
      obtain ⟨hLocation, -, hDefinitions⟩ := effect_clause hEffect hLaid hClause
      rw [← hLocation] at hMore hNodup hMoreParts
      rw [← hDefinitions] at hNodup
      obtain ⟨after, more, back, hEffects, hItems, hBack⟩ :=
        ih hRest (hEffect.laid hHere hLaid) hMore hNodup hMoreParts
      refine ⟨after, first ++ more, front ++ back, .cons hEffect hEffects, ?_,
        List.rel_append hFront hBack⟩
      rw [hItems, hPlaced, List.append_assoc]

/-! ## Sources -/

/-- Clauses have some bytes and definitions: each may stand at its address, no name is defined
twice, and with all definitions each clause has its bytes. -/
structure Output (defines : List (String × Int)) (clauses : List Clause) (code : Bytes)
    (table : List Definition) : Prop where
  admissible : ∀ place ∈ addressed 0 clauses, place.2.admissible place.1 = true
  table_eq : table = definitions defines (addressed 0 clauses)
  distinct : (table.map Definition.name).Nodup
  encoded : ∃ parts, Encoded table (addressed 0 clauses) parts ∧ code = parts.flatten

theorem Output.unique {defines : List (String × Int)} {clauses : List Clause} {code others : Bytes}
    {table other : List Definition} (h : Output defines clauses code table)
    (hOther : Output defines clauses others other) : code = others ∧ table = other := by
  obtain ⟨-, rfl, -, parts, hParts, rfl⟩ := h
  obtain ⟨-, rfl, -, otherParts, hOthers, rfl⟩ := hOther
  exact ⟨congrArg List.flatten (hParts.unique hOthers), rfl⟩

/-- An assembly gives a program with some bytes and definitions. -/
def Yields (outcome : Assembly.Outcome) (chunk : ChunkSize) (code : Bytes)
    (table : List Definition) : Prop :=
  ∃ program event, outcome.result = .ok program ∧
    MachineCode.generate chunk program = .ok (code, event) ∧ definitionsOf program = table

theorem bind_output_eq_some_iff {outcome : Assembly.Outcome} {chunk : ChunkSize} {code : Bytes}
    {table : List Definition} :
    (outcome.result.toOption.bind fun program =>
        (MachineCode.generate chunk program).toOption.map fun output =>
          (output.1, definitionsOf program)) = some (code, table) ↔
      Yields outcome chunk code table := by
  constructor
  · intro h
    obtain ⟨program, hResult, hMap⟩ := Option.bind_eq_some_iff.1 h
    obtain ⟨⟨_, event⟩, hGenerate, hOutput⟩ := Option.map_eq_some_iff.1 hMap
    cases hOutput
    exact ⟨program, event, eq_ok_of_toOption hResult,
      eq_ok_of_toOption hGenerate, rfl⟩
  · rintro ⟨program, event, hResult, hGenerate, rfl⟩
    rw [hResult]
    show ((MachineCode.generate chunk program).toOption.map _) = _
    rw [hGenerate]
    rfl

instance (outcome : Assembly.Outcome) (chunk : ChunkSize) (code : Bytes)
    (table : List Definition) : Decidable (Yields outcome chunk code table) :=
  decidable_of_iff _ bind_output_eq_some_iff

section
variable {surroundings : Surroundings} {source : Source}

/-- A state before its first statement: nothing is placed, and the definitions are those made
beforehand. -/
structure Fresh (source : Source) (first : State) : Prop where
  tokens_eq : first.tokens = source.tokens
  items_eq : first.program.items = []
  location_eq : first.program.location = 0
  laid : first.program.Laid
  definitions_eq : definitionsOf first.program =
    source.defines.entries.map fun entry => ⟨entry.1, entry.2, true⟩
  distinct : ((definitionsOf first.program).map Definition.name).Nodup

theorem start_fresh {first : State} (h : Assembly.start surroundings source = .ok first) :
    Fresh source first := by
  obtain ⟨hTokens, hPlaced, hLocation, hSymbols⟩ := Assembly.start_ok h
  obtain ⟨-, hNodup, hTable⟩ := Assembly.predefine_ok_iff.1 hSymbols
  have hDefinitions : definitionsOf first.program =
      source.defines.entries.map fun entry => ⟨entry.1, entry.2, true⟩ := by
    rw [definitionsOf, hTable, SymbolTable.symbols, SymbolTable.empty, List.append_nil,
      List.reverse_reverse, List.map_map]
    rfl
  refine ⟨hTokens, ?_, hLocation, Assembly.start_laid h, hDefinitions, ?_⟩
  · rw [Program.items, hPlaced, List.reverse_nil]
  · rw [hDefinitions, List.map_map]
    exact hNodup

theorem start_range {first : State} (h : Assembly.start surroundings source = .ok first) :
    ∀ entry ∈ source.defines.entries, 0 ≤ entry.2 ∧ entry.2 ≤ 0xFFFF := by
  obtain ⟨-, -, -, hSymbols⟩ := Assembly.start_ok h
  intro entry hMem
  exact ((Assembly.predefine_ok_iff.1 hSymbols).1 entry hMem).2

theorem start_ok_iff {spots : List Spot} :
    (∃ first, Assembly.start surroundings source = .ok first ∧ first.openFiles = spots) ↔
      Assembly.initiallyOpen surroundings source.file = .ok spots ∧
        ∃ symbols, Assembly.predefine .empty source.defines.entries = .ok symbols := by
  unfold Assembly.start
  split
  · next hOpen => simp [hOpen]
  · next opened hOpen =>
    split
    · next hSymbols => simp [hSymbols]
    · next symbols hSymbols => simp [hOpen, hSymbols]

/-- What assembles has read a trace, and has the bytes and the definitions of its clauses. -/
theorem output_of_assemble (hLive : ∀ token ∈ source.tokens, token.Live) {program : Program}
    (h : (Assembly.assemble surroundings source).result = .ok program) (chunk : ChunkSize) :
    ∃ first statements others code event, Assembly.start surroundings source = .ok first ∧
      Trace surroundings source.tokens first.openFiles statements others ∧
      MachineCode.generate chunk program = .ok (code, event) ∧
      Output source.defines.entries (clausesOf statements) code (definitionsOf program) := by
  obtain ⟨first, last, after, hStart, hRun, hResolve, hProgram⟩ := Assembly.assemble_ok_iff.1 h
  obtain ⟨items, hItems, rfl⟩ := Assembly.resolve_ok_iff.1 ⟨after, hResolve, hProgram⟩
  have hFresh := start_fresh hStart
  rw [← hFresh.tokens_eq] at hLive ⊢
  obtain ⟨statements, hTrace, hEffects⟩ := Assembly.trace_of_run hRun
  have hMeasured := trace_measured hTrace hLive
  have hPerformed := performed_of_effects hEffects hMeasured hFresh.laid
  have hNodup := effects_nodup hEffects hFresh.distinct
  have hBounded := (effects_laid hEffects hMeasured hFresh.laid).bounded
  obtain ⟨hAdmissible, hDefinitions⟩ := hPerformed.first_pass
  -- the table of the second pass is the one that the run ends with
  obtain ⟨placed, hPlaced, hDelivers⟩ :=
    hPerformed.second_pass hBounded (agrees_definitions hNodup) last.lineAt
  rw [hPlaced, hFresh.items_eq, List.nil_append] at hItems
  obtain ⟨pieces, parts, hPieces, hParts, hSame⟩ := hDelivers items hItems
  rw [hFresh.location_eq] at hAdmissible hDefinitions hParts
  rw [hFresh.definitions_eq] at hDefinitions
  rw [← Program.items_withItems last.program items] at hPieces
  obtain ⟨event, hGenerate⟩ := generate_delivers hPieces chunk
  exact ⟨first, statements, last.openFiles, pieces.flatten, event, hStart, hTrace, hGenerate,
    hAdmissible, hDefinitions, hNodup, parts, hParts, hSame⟩

/-- A source whose trace has clauses with bytes assembles. -/
theorem assemble_of_output (hLive : ∀ token ∈ source.tokens, token.Live) {first : State}
    (hStart : Assembly.start surroundings source = .ok first) {statements : List Statement}
    {others : List Spot}
    (hTrace : Trace surroundings source.tokens first.openFiles statements others)
    {code : Bytes} {table : List Definition}
    (h : Output source.defines.entries (clausesOf statements) code table) :
    ∃ program, (Assembly.assemble surroundings source).result = .ok program := by
  obtain ⟨hAdmissible, hTable, hNodup, parts, hParts, -⟩ := h
  have hMeasured := trace_measured hTrace hLive
  have hFresh := start_fresh hStart
  -- the symbols that the run will end with are not there yet, so a table of the same definitions
  -- stands in for them
  have hBounded : (tableOf table).Bounded := by
    rw [hTable]
    exact bounded_tableOf (definitions_range (start_range hStart) hMeasured hAdmissible)
  have hAll : definitionsOf first.program ++
      definedIn (addressed first.program.location (clausesOf statements)) = table := by
    rw [hFresh.definitions_eq, hFresh.location_eq, hTable]
    rfl
  rw [← hFresh.location_eq] at hAdmissible hParts
  obtain ⟨program, placed, resolved, hEffects, hPlaced, hResolving⟩ :=
    effects_of_passes hBounded (agrees_tableOf hNodup) (fun _ => none) hMeasured hFresh.laid
      hAdmissible (by rw [hAll]; exact hNodup) hParts
  rw [← hFresh.tokens_eq] at hTrace
  obtain ⟨last, hRun, rfl⟩ := Assembly.run_ok_iff.2 ⟨statements, others, hTrace, hEffects⟩
  have hDefinitions := (performed_of_effects hEffects hMeasured hFresh.laid).first_pass.2
  rw [hAll] at hDefinitions
  have hAgrees : Agrees last.program.symbols table := by
    rw [← hDefinitions]
    exact agrees_definitions (effects_nodup hEffects hFresh.distinct)
  rw [hFresh.items_eq, List.nil_append] at hPlaced
  have hItems : Resolving last.program.symbols last.lineAt last.program.items resolved := by
    rw [hPlaced]
    exact resolving_congr hResolving (agrees_tableOf hNodup) hAgrees
  obtain ⟨after, hResolve, hProgram⟩ := Assembly.resolve_ok_iff.2 ⟨resolved, hItems, rfl⟩
  exact ⟨_, Assembly.assemble_ok_iff.2 ⟨first, last, after, hStart, hRun, hResolve, hProgram⟩⟩

/-- A source assembles to bytes and definitions exactly when it can be started and has a trace whose
clauses come to these. -/
theorem yields_iff (hLive : ∀ token ∈ source.tokens, token.Live) {chunk : ChunkSize} {code : Bytes}
    {table : List Definition} :
    Yields (Assembly.assemble surroundings source) chunk code table ↔
      ∃ first statements others, Assembly.start surroundings source = .ok first ∧
        Trace surroundings source.tokens first.openFiles statements others ∧
        Output source.defines.entries (clausesOf statements) code table := by
  constructor
  · rintro ⟨program, event, hAssemble, hGenerate, rfl⟩
    obtain ⟨first, statements, others, code', event', hStart, hTrace, hGenerate', hOutput⟩ :=
      output_of_assemble hLive hAssemble chunk
    rw [hGenerate] at hGenerate'
    cases hGenerate'
    exact ⟨first, statements, others, hStart, hTrace, hOutput⟩
  · rintro ⟨first, statements, others, hStart, hTrace, hOutput⟩
    obtain ⟨program, hAssemble⟩ := assemble_of_output hLive hStart hTrace hOutput
    obtain ⟨first', statements', others', code', event, hStart', hTrace', hGenerate, hOutput'⟩ :=
      output_of_assemble hLive hAssemble chunk
    rw [hStart] at hStart'
    cases hStart'
    rw [← hTrace.unique hTrace'] at hOutput'
    obtain ⟨rfl, rfl⟩ := hOutput.unique hOutput'
    exact ⟨program, event, hAssemble, hGenerate, rfl⟩

/-- All symbols have values of 16 bits, whatever the tokens. -/
theorem yields_range {chunk : ChunkSize} {code : Bytes} {table : List Definition}
    (h : Yields (Assembly.assemble surroundings source) chunk code table) :
    ∀ entry ∈ table, 0 ≤ entry.value ∧ entry.value ≤ 0xFFFF := by
  obtain ⟨program, -, hAssemble, -, rfl⟩ := h
  obtain ⟨first, last, after, hStart, hRun, hResolve, hProgram⟩ :=
    Assembly.assemble_ok_iff.1 hAssemble
  obtain ⟨items, -, rfl⟩ := Assembly.resolve_ok_iff.1 ⟨after, hResolve, hProgram⟩
  have hReaches := Assembly.run_reaches surroundings (Assembly.budgetFor surroundings first) first
  rw [hRun] at hReaches
  intro entry hMem
  obtain ⟨symbol, hSymbol, rfl⟩ := List.mem_map.1 hMem
  exact hReaches.value_range (Assembly.start_laid hStart).value_range symbol hSymbol

end

end Lr35902.TwoPass
