import Lr35902.Proofs.JoinedLines
import Lr35902.Proofs.TwoPass.Tables

/-!
What is appended to a source leaves the source before it as it was. The clauses of the longer source
start with those of the shorter one, at the same addresses, so the first pass finds the same
definitions first, and whatever could be looked up before is found with the same value
(`Output.appended`). References to names that come later only could not be resolved before, so none
of the bytes change either.
-/
namespace Lr35902.TwoPass

section
variable {defines : List (String × Int)} {clauses more : List Clause} {code longer : Bytes}
  {table extended : List Definition}

/-- Further clauses add to the bytes and to the definitions, and change neither. -/
theorem Output.appended (h : Output defines clauses code table)
    (hLonger : Output defines (clauses ++ more) longer extended) :
    code <+: longer ∧ table <+: extended := by
  obtain ⟨-, rfl, -, parts, hParts, rfl⟩ := h
  obtain ⟨-, hExtended, hDistinct, longerParts, hLongerParts, rfl⟩ := hLonger
  have hPrefix : definitions defines (addressed 0 clauses) <+: extended := by
    refine ⟨definedIn (addressed (reached 0 clauses) more), ?_⟩
    rw [hExtended, definitions, definitions, addressed_append, definedIn_append, List.append_assoc]
  have hExtends : Extends (definitions defines (addressed 0 clauses)) extended :=
    extends_of_subset hDistinct hPrefix.subset
  rw [addressed_append] at hLongerParts
  obtain ⟨front, back, rfl, hFront, -⟩ := hLongerParts.split
  -- with the longer table the first clauses still have their bytes
  obtain rfl := (hParts.mono hExtends).unique hFront
  rw [List.flatten_append]
  exact ⟨List.prefix_append _ _, hPrefix⟩

end

/-- Of distinct definitions, the one of a name is found. -/
theorem lookup?_of_mem {program : Program} {entry : Definition}
    (hDistinct : ((definitionsOf program).map Definition.name).Nodup)
    (h : entry ∈ definitionsOf program) :
    ∃ symbol, program.symbols.lookup? entry.name = some symbol ∧ definitionOf symbol = entry := by
  obtain ⟨symbol, hSymbol, rfl⟩ := List.mem_map.1 h
  have hNames : (program.symbols.defined.map Symbol.name).Nodup := by
    rw [definitionsOf, List.map_map, SymbolTable.symbols, List.map_reverse,
      List.nodup_reverse] at hDistinct
    exact hDistinct
  refine ⟨symbol, ?_, rfl⟩
  apply find?_eq_some_of_unique (List.mem_reverse.1 hSymbol) (beq_self_eq_true symbol.name)
  intro other hOther hName
  exact List.inj_on_of_nodup_map hNames hOther (List.mem_reverse.1 hSymbol) (beq_iff_eq.1 hName)

theorem mem_of_lookup? {program : Program} {name : String} {symbol : Symbol}
    (h : program.symbols.lookup? name = some symbol) :
    symbol.name = name ∧ definitionOf symbol ∈ definitionsOf program := by
  have hName : symbol.name = name := by simpa using List.find?_some h
  have hMem : symbol ∈ program.symbols.symbols := List.mem_reverse.2 (List.mem_of_find?_eq_some h)
  exact ⟨hName, List.mem_map_of_mem hMem⟩

section
variable {surroundings : Surroundings} {first more file : String} {defines : NameMap Int}
  {chunk : ChunkSize} {code longer : Bytes}

/-- A text that is continued after a line feed comes to at least what it came to alone. -/
theorem yields_appended {table extended : List Definition}
    (h : Yields (assembleText surroundings first file defines) chunk code table)
    (hLonger : Yields (assembleText surroundings (first ++ "\n" ++ more) file defines) chunk longer
      extended) :
    code <+: longer ∧ table <+: extended ∧ (extended.map Definition.name).Nodup := by
  obtain ⟨spots, clauses, others, hOpen, -, ⟨words, hWords, statements, hTrace, rfl⟩, hOutput⟩ :=
    yields_text_iff.1 h
  obtain ⟨spots', all, others', hOpen', -, hAll, hLongerOutput⟩ := yields_text_iff.1 hLonger
  obtain rfl := Except.ok.inj (hOpen.symm.trans hOpen')
  have hText : (first ++ "\n" ++ more).toList = first.toList ++ '\n' :: more.toList := by simp
  rw [hText, unfoldsText_joined_iff (Assembly.initiallyOpen_nodup hOpen)] at hAll
  obtain ⟨_, rest, ⟨words', hWords', statements', hTrace', rfl⟩, -, rfl⟩ := hAll
  -- the text has one trace, whatever follows it
  obtain rfl := Option.some.inj (hWords.symm.trans hWords')
  obtain rfl := hTrace.unique hTrace'
  obtain ⟨hCode, hTable⟩ := hOutput.appended hLongerOutput
  exact ⟨hCode, hTable, hLongerOutput.distinct⟩

/-- If a text assembles and, continued on a new line, assembles again, then its code is the start of
the new code, and all its symbols have the values and the kinds that they had. -/
theorem appending_preserves {program extended : Program} {event other : Event}
    (h : (assembleText surroundings first file defines).result = .ok program)
    (hCode : MachineCode.generate chunk program = .ok (code, event))
    (hLonger : (assembleText surroundings (first ++ "\n" ++ more) file defines).result =
      .ok extended)
    (hLongerCode : MachineCode.generate chunk extended = .ok (longer, other)) :
    code <+: longer ∧ ∀ name symbol, program.symbols.lookup? name = some symbol →
      ∃ same, extended.symbols.lookup? name = some same ∧ same.value = symbol.value ∧
        same.isConstant = symbol.isConstant := by
  obtain ⟨hPrefix, hTable, hDistinct⟩ :=
    yields_appended ⟨program, event, h, hCode, rfl⟩ ⟨extended, other, hLonger, hLongerCode, rfl⟩
  refine ⟨hPrefix, ?_⟩
  intro name symbol hLookup
  obtain ⟨rfl, hMem⟩ := mem_of_lookup? hLookup
  obtain ⟨same, hSame, hDefinition⟩ := lookup?_of_mem hDistinct (hTable.subset hMem)
  exact ⟨same, hSame, congrArg Definition.value hDefinition,
    congrArg Definition.isConstant hDefinition⟩

/-- The text ends in the middle of a line, with the inclusion of a file, and refers to a label in
this file; what is appended refers back to it. -/
theorem appending_preserves_inclusion :
    let surroundings := Assembly.workingDirectory [("lib", "start: nop ; here")]
    let text := "jp start\n.use \"lib\""
    ∃ program extended code longer event other,
      (assembleText surroundings text "<input>" .empty).result = .ok program ∧
      MachineCode.generate .standard program = .ok (code, event) ∧
      (assembleText surroundings (text ++ "\n" ++ "again: jp start") "<input>" .empty).result =
        .ok extended ∧
      MachineCode.generate .standard extended = .ok (longer, other) ∧
      code <+: longer ∧ ∀ name symbol, program.symbols.lookup? name = some symbol →
        ∃ same, extended.symbols.lookup? name = some same ∧ same.value = symbol.value ∧
          same.isConstant = symbol.isConstant := by
  intro surroundings text
  have hShort : Yields (assembleText surroundings text "<input>" .empty) .standard
      [0xC3, 3, 0, 0] [⟨"start", 3, false⟩] := by decide +kernel
  have hLong : Yields (assembleText surroundings (text ++ "\n" ++ "again: jp start") "<input>"
      .empty) .standard [0xC3, 3, 0, 0, 0xC3, 3, 0] [⟨"start", 3, false⟩, ⟨"again", 4, false⟩] := by
    decide +kernel
  obtain ⟨program, event, hProgram, hCode, -⟩ := hShort
  obtain ⟨extended, other, hExtended, hLonger, -⟩ := hLong
  exact ⟨program, extended, _, _, event, other, hProgram, hCode, hExtended, hLonger,
    appending_preserves hProgram hCode hExtended hLonger⟩

end

end Lr35902.TwoPass
