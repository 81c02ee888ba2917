import Lr35902.Proofs.JoinedLines
import Lr35902.Proofs.NameMaps
import Lr35902.Proofs.TwoPass.Tables

/-!
A constant may be defined anywhere. The clause of a constant takes no room and fits at every address
that is reached, so the clauses after it stay where they are; its definition stands elsewhere in the
table, which makes no difference once the table is complete (`output_constant_iff`). So a line that
defines a constant can be left out if its name is defined beforehand (`constant_predefined`),
wherever the line was, and hence it can be moved (`constant_anywhere`).
-/
namespace Lr35902.TwoPass

/-! ## Clauses -/

section
variable {defines : List (String × Int)} {name : String} {value : Int} {clauses more : List Clause}

theorem addressed_constant (name : String) (value : Int) (clauses more : List Clause) :
    addressed 0 (clauses ++ .constant name value :: more) =
      addressed 0 clauses ++ (reached 0 clauses, .constant name value) ::
        addressed (reached 0 clauses) more := by
  rw [addressed_append, addressed, Clause.size, Int.add_zero]

theorem definitions_constant (defines : List (String × Int)) (name : String) (value : Int)
    (clauses more : List Clause) :
    (definitions defines (addressed 0 (clauses ++ .constant name value :: more))).Perm
      (definitions (defines ++ [(name, value)]) (addressed 0 (clauses ++ more))) := by
  rw [addressed_constant, addressed_append]
  simp only [definitions, definedIn_append, definedIn_cons, Clause.definition?, List.map_append,
    List.append_assoc]
  exact (List.perm_append_left_iff _).2 List.perm_middle

theorem labelsOf_constant (defines : List (String × Int)) (name : String) (value : Int)
    (clauses more : List Clause) :
    labelsOf (definitions defines (addressed 0 (clauses ++ .constant name value :: more))) =
      labelsOf (definitions (defines ++ [(name, value)]) (addressed 0 (clauses ++ more))) := by
  rw [addressed_constant, addressed_append]
  simp [labelsOf, definitions, definedIn_append, definedIn_cons, Clause.definition?]

theorem admissible_constant_iff :
    (∀ place ∈ addressed 0 (clauses ++ .constant name value :: more),
        place.2.admissible place.1 = true) ↔
      ∀ place ∈ addressed 0 (clauses ++ more), place.2.admissible place.1 = true := by
  rw [addressed_constant, addressed_append]
  simp only [List.forall_mem_append, List.forall_mem_cons]
  constructor
  · rintro ⟨hBefore, -, hAfter⟩
    exact ⟨hBefore, hAfter⟩
  · rintro ⟨hBefore, hAfter⟩
    refine ⟨hBefore, ?_, hAfter⟩
    have hReached := reached_le (by decide) hBefore
    simpa [Clause.admissible, Clause.size] using hReached

theorem encoded_constant_iff {table : List Definition} {code : Bytes} :
    (∃ parts, Encoded table (addressed 0 (clauses ++ .constant name value :: more)) parts ∧
        code = parts.flatten) ↔
      ∃ parts, Encoded table (addressed 0 (clauses ++ more)) parts ∧ code = parts.flatten := by
  rw [addressed_constant, addressed_append]
  constructor
  · rintro ⟨parts, hParts, rfl⟩
    obtain ⟨front, _, rfl, hFront, hBack⟩ := hParts.split
    obtain ⟨part, back, hPart, hRest, rfl⟩ := List.forall₂_cons_left_iff.1 hBack
    obtain rfl : [] = part := Option.some.inj hPart
    exact ⟨front ++ back, List.rel_append hFront hRest, by simp⟩
  · rintro ⟨parts, hParts, rfl⟩
    obtain ⟨front, back, rfl, hFront, hBack⟩ := hParts.split
    exact ⟨front ++ [] :: back, List.rel_append hFront (.cons rfl hBack), by simp⟩

/-- The clause of a constant comes to the same as a definition made beforehand. -/
theorem output_constant_iff {code : Bytes} :
    Output defines (clauses ++ .constant name value :: more) code
        (definitions defines (addressed 0 (clauses ++ .constant name value :: more))) ↔
      Output (defines ++ [(name, value)]) (clauses ++ more) code
        (definitions (defines ++ [(name, value)]) (addressed 0 (clauses ++ more))) := by
  have hPerm := definitions_constant defines name value clauses more
  have hNames := (hPerm.map Definition.name).nodup_iff
  constructor
  · rintro ⟨hAdmissible, -, hDistinct, hEncoded⟩
    refine ⟨admissible_constant_iff.1 hAdmissible, rfl, hNames.1 hDistinct, ?_⟩
    simpa only [encoded_perm hPerm hDistinct] using encoded_constant_iff.1 hEncoded
  · rintro ⟨hAdmissible, -, hDistinct, hEncoded⟩
    refine ⟨admissible_constant_iff.2 hAdmissible, rfl, hNames.2 hDistinct, ?_⟩
    rw [encoded_constant_iff]
    simpa only [encoded_perm hPerm (hNames.2 hDistinct)] using hEncoded

end

/-! ## Programs -/

/-- Whatever one assembly comes to, another comes to as well: the same code, and labels of the same
names and addresses. -/
def Reproduced (chunk : ChunkSize) (outcome other : Assembly.Outcome) : Prop :=
  ∀ program, outcome.result = .ok program → ∃ same code event otherEvent,
    other.result = .ok same ∧ MachineCode.generate chunk program = .ok (code, event) ∧
      MachineCode.generate chunk same = .ok (code, otherEvent) ∧
      same.symbols.labels = program.symbols.labels

/-- Two assemblies succeed or fail together, and come to the same code and labels. -/
def Interchangeable (chunk : ChunkSize) (outcome other : Assembly.Outcome) : Prop :=
  Reproduced chunk outcome other ∧ Reproduced chunk other outcome

section
variable {surroundings : Surroundings} {file line name : String} {value : Int}
  {defines : NameMap Int} {chunk : ChunkSize}

/-- A program that was assembled from a text has code. -/
theorem yields_of_result {text : String} {program : Program}
    (h : (assembleText surroundings text file defines).result = .ok program) :
    ∃ code event, MachineCode.generate chunk program = .ok (code, event) := by
  unfold assembleText at h
  split at h
  · cases h
  · next tokens hScan =>
    obtain ⟨_, _, _, code, event, -, -, hGenerate, -⟩ :=
      output_of_assemble (relocated_tokensOf hScan).2 h chunk
    exact ⟨code, event, hGenerate⟩

theorem reproduced_of_yields {text : String} {other : Assembly.Outcome}
    (h : ∀ code table, Yields (assembleText surroundings text file defines) chunk code table →
      ∃ same, Yields other chunk code same ∧ labelsOf same = labelsOf table) :
    Reproduced chunk (assembleText surroundings text file defines) other := by
  intro program hResult
  obtain ⟨code, event, hGenerate⟩ := yields_of_result hResult
  obtain ⟨_, ⟨same, otherEvent, hSame, hOther, rfl⟩, hLabels⟩ :=
    h code _ ⟨program, event, hResult, hGenerate, rfl⟩
  refine ⟨same, code, event, otherEvent, hSame, hGenerate, hOther, ?_⟩
  rw [labels_eq, labels_eq, hLabels]

theorem Interchangeable.symm {outcome other : Assembly.Outcome}
    (h : Interchangeable chunk outcome other) : Interchangeable chunk other outcome :=
  ⟨h.2, h.1⟩

theorem Reproduced.trans {outcome middle other : Assembly.Outcome}
    (h : Reproduced chunk outcome middle) (hOther : Reproduced chunk middle other) :
    Reproduced chunk outcome other := by
  intro program hProgram
  obtain ⟨same, code, event, _, hSame, hCode, hSameCode, hLabels⟩ := h program hProgram
  obtain ⟨last, _, _, lastEvent, hLast, hAgain, hLastCode, hLastLabels⟩ := hOther same hSame
  rw [hSameCode] at hAgain
  cases hAgain
  exact ⟨last, code, event, lastEvent, hLast, hCode, hLastCode, hLastLabels.trans hLabels⟩

theorem Interchangeable.trans {outcome middle other : Assembly.Outcome}
    (h : Interchangeable chunk outcome middle) (hOther : Interchangeable chunk middle other) :
    Interchangeable chunk outcome other :=
  ⟨h.1.trans hOther.1, hOther.2.trans h.2⟩

/-- A line that defines a constant: any blanks and comments, any spelling of the number. -/
def DefinesConstant (file line name : String) (value : Int) : Prop :=
  ∃ tokens spelling, scan line file = .ok tokens ∧
    lexemes tokens =
      [.directive ".equ", .identifier name, .delimiter .comma spelling, .number value]

theorem DefinesConstant.range (h : DefinesConstant file line name value) :
    0 ≤ value ∧ value ≤ 0xFFFF := by
  obtain ⟨tokens, spelling, hScan, hWords⟩ := h
  have hMem : Lexeme.number value ∈ lexemes tokens := by
    rw [hWords]
    simp
  obtain ⟨token, hToken, hNumber⟩ := List.mem_map.1 hMem
  have hScanned := scan_scanned hScan token hToken
  rw [hNumber] at hScanned
  exact hScanned

theorem DefinesConstant.unfoldsText_iff (h : DefinesConstant file line name value)
    {openFiles others : List Spot} {clauses : List Clause} :
    UnfoldsText surroundings file line.toList openFiles clauses others ↔
      clauses = [.constant name value] ∧ others = openFiles := by
  obtain ⟨tokens, spelling, hScan, hWords⟩ := h
  have hText : Scan.lexemesFrom true line.toList = some (lexemes tokens) :=
    (scan_lexemes_iff file).1 ⟨tokens, hScan, rfl⟩
  have hClauses : clauses? (lexemes tokens) = some [.constant name value] := by
    rw [hWords]
    rfl
  have hPlain : ∀ token ∈ tokensOf file (lexemes tokens), Plain token := by
    intro token hMem
    refine ⟨live_tokensOf (scanned_of_lexemesFrom hText) token hMem, ?_⟩
    obtain ⟨word, hWord, rfl⟩ := List.mem_map.1 hMem
    rw [hWords] at hWord
    rintro rfl
    simp at hWord
  unfold UnfoldsText
  simp only [hText, Option.some.injEq, exists_eq_left', unfolds_plain_iff hPlain,
    lexemes_tokensOf, hClauses, eq_comm (a := [Clause.constant name value])]

theorem DefinesConstant.unfoldsLines_iff (h : DefinesConstant file line name value)
    {openFiles : List Spot} {before after : List String} {clauses : List Clause} :
    UnfoldsLines surroundings file openFiles (before ++ line :: after) clauses ↔
      ∃ first more, UnfoldsLines surroundings file openFiles before first ∧
        UnfoldsLines surroundings file openFiles after more ∧
        clauses = first ++ .constant name value :: more := by
  rw [unfoldsLines_append_iff]
  simp only [UnfoldsLines, h.unfoldsText_iff]
  constructor
  · rintro ⟨first, _, hFirst, ⟨_, more, ⟨rfl, -⟩, hMore, rfl⟩, rfl⟩
    exact ⟨first, more, hFirst, hMore, rfl⟩
  · rintro ⟨first, more, hFirst, hMore, rfl⟩
    exact ⟨first, _, hFirst, ⟨_, more, ⟨rfl, trivial⟩, hMore, rfl⟩, rfl⟩

/-- A new name in range can always be defined beforehand. -/
theorem predefine_insert_iff (hNew : name ∉ defines.names)
    (hRange : 0 ≤ value ∧ value ≤ 0xFFFF) :
    (∃ symbols, Assembly.predefine .empty (defines.insert name value).entries = .ok symbols) ↔
      ∃ symbols, Assembly.predefine .empty defines.entries = .ok symbols := by
  rw [NameMap.entries_insert_of_not_mem hNew]
  constructor
  · rintro ⟨symbols, hSymbols⟩
    obtain ⟨hEntries, hNames, -⟩ := Assembly.predefine_ok_iff.1 hSymbols
    rw [List.map_append] at hNames
    exact ⟨_, Assembly.predefine_ok_iff.2
      ⟨(List.forall_mem_append.1 hEntries).1, (List.nodup_append.1 hNames).1, rfl⟩⟩
  · rintro ⟨symbols, hSymbols⟩
    obtain ⟨hEntries, hNames, -⟩ := Assembly.predefine_ok_iff.1 hSymbols
    refine ⟨_, Assembly.predefine_ok_iff.2 ⟨?_, ?_, rfl⟩⟩
    · exact List.forall_mem_append.2 ⟨hEntries, List.forall_mem_singleton.2 ⟨rfl, hRange⟩⟩
    · rw [List.map_append, List.map_singleton, ← List.concat_eq_append]
      exact hNames.concat hNew

theorem constant_predefined (hNew : name ∉ defines.names)
    (h : DefinesConstant file line name value) (before after : List String) :
    Interchangeable chunk
      (assembleText surroundings ("\n".intercalate (before ++ line :: after)) file defines)
      (assembleText surroundings ("\n".intercalate (before ++ after)) file
        (defines.insert name value)) := by
  have hPredefine := predefine_insert_iff hNew h.range
  constructor
  · apply reproduced_of_yields
    intro code table hYields
    obtain ⟨spots, _, hOpen, hSymbols, hLines, hOutput⟩ := yields_lines_iff.1 hYields
    obtain ⟨first, more, hFirst, hMore, rfl⟩ := h.unfoldsLines_iff.1 hLines
    obtain rfl := hOutput.table_eq
    refine ⟨_, yields_lines_iff.2 ⟨spots, first ++ more, hOpen, hPredefine.2 hSymbols,
      unfoldsLines_append_iff.2 ⟨first, more, hFirst, hMore, rfl⟩, ?_⟩,
      (labelsOf_constant defines.entries name value first more).symm⟩
    rw [NameMap.entries_insert_of_not_mem hNew]
    exact output_constant_iff.1 hOutput
  · apply reproduced_of_yields
    intro code table hYields
    obtain ⟨spots, _, hOpen, hSymbols, hLines, hOutput⟩ := yields_lines_iff.1 hYields
    obtain ⟨first, more, hFirst, hMore, rfl⟩ := unfoldsLines_append_iff.1 hLines
    rw [NameMap.entries_insert_of_not_mem hNew] at hOutput
    obtain rfl := hOutput.table_eq
    exact ⟨_, yields_lines_iff.2 ⟨spots, _, hOpen, hPredefine.1 hSymbols,
      h.unfoldsLines_iff.2 ⟨first, more, hFirst, hMore, rfl⟩, output_constant_iff.2 hOutput⟩,
      labelsOf_constant defines.entries name value first more⟩

/-- A line that defines a constant can be moved to any other place between the lines of its source,
or taken out if the constant is defined beforehand instead. -/
theorem constant_anywhere (hNew : name ∉ defines.names)
    (h : DefinesConstant file line name value) {before after front back : List String}
    (hLines : before ++ after = front ++ back) :
    Interchangeable chunk
        (assembleText surroundings ("\n".intercalate (before ++ line :: after)) file defines)
        (assembleText surroundings ("\n".intercalate (front ++ line :: back)) file defines) ∧
      Interchangeable chunk
        (assembleText surroundings ("\n".intercalate (before ++ line :: after)) file defines)
        (assembleText surroundings ("\n".intercalate (before ++ after)) file
          (defines.insert name value)) := by
  have hTaken (before after : List String) :
      Interchangeable chunk
        (assembleText surroundings ("\n".intercalate (before ++ line :: after)) file defines)
        (assembleText surroundings ("\n".intercalate (before ++ after)) file
          (defines.insert name value)) := constant_predefined hNew h before after
  refine ⟨(hTaken before after).trans ?_, hTaken before after⟩
  rw [hLines]
  exact (hTaken front back).symm

/-- The constant is used before and after its line, which is moved to the end of the source. -/
theorem constant_anywhere_last :
    let line := "  .equ N, 0xC0 ; a page"
    let before := ["ld hl, N"]
    let after := ["there: ld a, N", "jp there"]
    let defines : NameMap Int := ⟨[("M", 2)]⟩
    let assembled (lines : List String) :=
      assembleText (Assembly.workingDirectory []) ("\n".intercalate lines) "<input>"
    Yields (assembled (before ++ line :: after) defines) .standard
        [0x21, 0xC0, 0, 0x3E, 0xC0, 0xC3, 3, 0]
        [⟨"M", 2, true⟩, ⟨"N", 0xC0, true⟩, ⟨"there", 3, false⟩] ∧
      Interchangeable .standard (assembled (before ++ line :: after) defines)
        (assembled ((before ++ after) ++ line :: []) defines) ∧
      Interchangeable .standard (assembled (before ++ line :: after) defines)
        (assembled (before ++ after) (defines.insert "N" 0xC0)) := by
  intro line before after defines assembled
  have hTokens : (scan line "<input>").toOption.map lexemes = some [.directive ".equ",
      .identifier "N", .delimiter .comma (some ","), .number 0xC0] := by decide +kernel
  have hLine : DefinesConstant "<input>" line "N" 0xC0 := by
    obtain ⟨tokens, hScan, hWords⟩ := Option.map_eq_some_iff.1 hTokens
    exact ⟨tokens, _, eq_ok_of_toOption hScan, hWords⟩
  exact ⟨by decide +kernel, constant_anywhere (by decide) hLine rfl⟩

end

end Lr35902.TwoPass
