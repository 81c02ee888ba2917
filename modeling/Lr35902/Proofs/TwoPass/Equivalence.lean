import Lr35902.Proofs.TwoPass.Passes
import Mathlib.Data.Option.Basic

/-!
Assembling in one pass, with symbols resolved at the end, and assembling in two passes come to the
same. The clauses that a text without inclusions unfolds into are those of the reference assembler,
so the two assemblers agree on every source (`passes_of_assemble`, `assemble_of_passes`).
-/
namespace Lr35902.TwoPass

open Assembly (State Source)

/-! ## The two assemblers -/

/-- When the reference assembler succeeds, and with what. -/
theorem assemble?_eq_some_iff {defines : List (String × Int)} {source : List Lexeme} {code : Bytes}
    {table : List Definition} :
    assemble? defines source = some (code, table) ↔
      ∃ clauses, clauses? source = some clauses ∧ Output defines clauses code table := by
  simp only [assemble?, Option.bind_eq_bind, Option.bind_eq_some_iff, Option.pure_def,
    Option.some.injEq, Prod.mk.injEq, Option.guard_eq_some', mapM_eq_some_iff, List.all_eq_true]
  constructor
  · rintro ⟨clauses, hClauses, -, ⟨hAdmissible, hNodup⟩, parts, hParts, rfl, rfl⟩
    exact ⟨clauses, hClauses, hAdmissible, rfl, hNodup, parts, hParts, rfl⟩
  · rintro ⟨clauses, hClauses, hAdmissible, rfl, hNodup, parts, hParts, rfl⟩
    exact ⟨clauses, hClauses, (), ⟨hAdmissible, hNodup⟩, parts, hParts, rfl, rfl⟩

section
variable {surroundings : Surroundings} {source : Source}

theorem start_open {first : State} (h : Assembly.start surroundings source = .ok first) :
    ∃ spots, Assembly.initiallyOpen surroundings source.file = .ok spots :=
  ⟨first.openFiles, Assembly.start_openFiles h⟩

/-- A source can be started when its file can be looked up and what is defined beforehand is in
range and has different names. -/
theorem start_exists {spots : List Spot}
    (hOpen : Assembly.initiallyOpen surroundings source.file = .ok spots)
    (hRange : ∀ entry ∈ source.defines.entries, 0 ≤ entry.2 ∧ entry.2 ≤ 0xFFFF)
    (hNodup : (source.defines.entries.map Prod.fst).Nodup) :
    ∃ first, Assembly.start surroundings source = .ok first := by
  have hSymbols : Assembly.predefine .empty source.defines.entries = .ok _ :=
    Assembly.predefine_ok_iff.2 ⟨fun entry hMem => ⟨rfl, hRange entry hMem⟩, hNodup, rfl⟩
  obtain ⟨first, hStart, -⟩ := start_ok_iff.2 ⟨hOpen, _, hSymbols⟩
  exact ⟨first, hStart⟩

/-- What assembles has bytes, and both passes find them and the same definitions. -/
theorem passes_of_assemble (hPlain : ∀ token ∈ source.tokens, Plain token) {program : Program}
    (h : (Assembly.assemble surroundings source).result = .ok program) (chunk : ChunkSize) :
    ∃ code event, MachineCode.generate chunk program = .ok (code, event) ∧
      assemble? source.defines.entries (lexemes source.tokens) =
        some (code, definitionsOf program) := by
  have hLive : ∀ token ∈ source.tokens, token.Live := fun token hMem => (hPlain token hMem).live
  obtain ⟨first, statements, others, code, event, -, hTrace, hGenerate, hOutput⟩ :=
    output_of_assemble hLive h chunk
  obtain ⟨hClauses, -⟩ := (unfolds_plain_iff hPlain).1 ⟨statements, hTrace, rfl⟩
  exact ⟨code, event, hGenerate,
    assemble?_eq_some_iff.2 ⟨clausesOf statements, hClauses, hOutput⟩⟩

/-- Where both passes succeed, the source assembles. -/
theorem assemble_of_passes (hPlain : ∀ token ∈ source.tokens, Plain token)
    (hDefines : ∀ entry ∈ source.defines.entries, 0 ≤ entry.2 ∧ entry.2 ≤ 0xFFFF)
    {spots : List Spot} (hOpen : Assembly.initiallyOpen surroundings source.file = .ok spots)
    {code : Bytes} {table : List Definition}
    (h : assemble? source.defines.entries (lexemes source.tokens) = some (code, table)) :
    ∃ program, (Assembly.assemble surroundings source).result = .ok program := by
  have hLive : ∀ token ∈ source.tokens, token.Live := fun token hMem => (hPlain token hMem).live
  obtain ⟨clauses, hClauses, hOutput⟩ := assemble?_eq_some_iff.1 h
  have hNames : (source.defines.entries.map Prod.fst).Nodup := by
    have hNodup := hOutput.distinct
    rw [hOutput.table_eq, definitions, List.map_append, List.map_map] at hNodup
    exact (List.nodup_append.1 hNodup).1
  obtain ⟨first, hStart⟩ := start_exists hOpen hDefines hNames
  obtain ⟨statements, hTrace, rfl⟩ := (unfolds_plain_iff hPlain).2 ⟨hClauses, rfl⟩
  exact assemble_of_output hLive hStart hTrace hOutput

/-- Assembling the tokens of a text without inclusions, and encoding the program, gives bytes and
symbols exactly when the two passes give the same bytes and definitions; apart from that, only the
file that the source comes from has to be one that can be looked up. -/
theorem assemble_iff {text file : String} (hScan : scan text file = .ok source.tokens)
    (hUse : ∀ token ∈ source.tokens, token.lexeme ≠ .directive ".use")
    (hDefines : ∀ entry ∈ source.defines.entries, 0 ≤ entry.2 ∧ entry.2 ≤ 0xFFFF)
    (chunk : ChunkSize) (code : Bytes) (table : List Definition) :
    (∃ program event, (Assembly.assemble surroundings source).result = .ok program ∧
        MachineCode.generate chunk program = .ok (code, event) ∧ definitionsOf program = table) ↔
      (∃ spots, Assembly.initiallyOpen surroundings source.file = .ok spots) ∧
        assemble? source.defines.entries (lexemes source.tokens) = some (code, table) := by
  have hPlain : ∀ token ∈ source.tokens, Plain token :=
    fun token hMem => ⟨scan_scanned hScan token hMem, hUse token hMem⟩
  constructor
  · rintro ⟨program, event, hAssemble, hGenerate, rfl⟩
    obtain ⟨first, -, -, hStart, -⟩ := Assembly.assemble_ok_iff.1 hAssemble
    obtain ⟨other, event', hOther, hPasses⟩ := passes_of_assemble hPlain hAssemble chunk
    rw [hGenerate] at hOther
    cases hOther
    exact ⟨start_open hStart, hPasses⟩
  · rintro ⟨⟨spots, hOpen⟩, hPasses⟩
    obtain ⟨program, hAssemble⟩ := assemble_of_passes hPlain hDefines hOpen hPasses
    obtain ⟨other, event, hGenerate, hSame⟩ := passes_of_assemble hPlain hAssemble chunk
    rw [hPasses] at hSame
    cases hSame
    exact ⟨program, event, hAssemble, hGenerate, rfl⟩

theorem assemble_iff_forward :
    ∃ tokens, scan "jr end\n.org 4\n.equ five, 5\nend: ld a, five" "<input>" = .ok tokens ∧
      assemble? [("zero", 0)] (lexemes tokens) =
        some ([0x18, 2, 0, 0, 0x3E, 5], [⟨"zero", 0, true⟩, ⟨"five", 5, true⟩, ⟨"end", 4, false⟩]) ∧
      ∃ program event, (Assembly.assemble ⟨.empty, [], none⟩
          ⟨tokens, "<input>", none, ⟨[("zero", 0)]⟩⟩).result = .ok program ∧
        MachineCode.generate .standard program = .ok ([0x18, 2, 0, 0, 0x3E, 5], event) ∧
        definitionsOf program = [⟨"zero", 0, true⟩, ⟨"five", 5, true⟩, ⟨"end", 4, false⟩] := by
  have hRun : ((scan "jr end\n.org 4\n.equ five, 5\nend: ld a, five" "<input>").toOption.map
      fun tokens => (tokens.all fun token => decide (token.lexeme ≠ .directive ".use"),
        assemble? [("zero", 0)] (lexemes tokens))) =
      some (true, some ([0x18, 2, 0, 0, 0x3E, 5],
        [⟨"zero", 0, true⟩, ⟨"five", 5, true⟩, ⟨"end", 4, false⟩])) := by decide +kernel
  obtain ⟨tokens, hScan, hBoth⟩ := Option.map_eq_some_iff.1 hRun
  have hScan := eq_ok_of_toOption hScan
  obtain ⟨hAll, hPasses⟩ := Prod.mk.inj hBoth
  let source : Source := ⟨tokens, "<input>", none, ⟨[("zero", 0)]⟩⟩
  have hUse : ∀ token ∈ source.tokens, token.lexeme ≠ .directive ".use" := by
    intro token hMem
    exact of_decide_eq_true (List.all_eq_true.1 hAll token hMem)
  have hDefines : ∀ entry ∈ [("zero", (0 : Int))], 0 ≤ entry.2 ∧ entry.2 ≤ 0xFFFF := by decide
  have hOpen : Assembly.initiallyOpen ⟨.empty, [], none⟩ source.file = .ok [] := rfl
  refine ⟨tokens, hScan, hPasses, ?_⟩
  exact (assemble_iff hScan hUse hDefines .standard _ _).2 ⟨⟨[], hOpen⟩, hPasses⟩

end

end Lr35902.TwoPass
