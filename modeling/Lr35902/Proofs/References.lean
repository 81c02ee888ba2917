import Lr35902.Proofs.Encoding

/-!
References in the output. An operand that is written as a name has the final value of its symbol,
wherever the symbol is defined; a literal has its own value. An instruction that is read stays where
it was placed (`Assembles.instruction`) and the part of each operand stands in its bytes at the
operand's offset (`Form.Parts.slice`), so that in the output every slot holds the value of what was
written for it.
-/
namespace Lr35902

theorem forall₂_getElem? {α β : Type} {R : α → β → Prop} {as : List α} {bs : List β} {i : Nat}
    {a : α} (h : List.Forall₂ R as bs) (ha : as[i]? = some a) : ∃ b, bs[i]? = some b ∧ R a b := by
  obtain ⟨hLeft, rfl⟩ := List.getElem?_eq_some_iff.1 ha
  have hRight : i < bs.length := by
    rw [← h.length_eq]
    exact hLeft
  exact ⟨bs[i], List.getElem?_eq_getElem hRight, h.get hLeft hRight⟩

theorem split_flatten {α : Type} {parts : List (List α)} {i : Nat} {part : List α}
    (h : parts[i]? = some part) :
    parts.flatten = (parts.take i).flatten ++ part ++ (parts.drop (i + 1)).flatten := by
  induction parts generalizing i with
  | nil => cases h
  | cons first rest ih =>
    cases i with
    | zero =>
      cases h
      rfl
    | succ i =>
      rw [List.flatten_cons, ih h, List.take_succ_cons, List.flatten_cons, List.drop_succ_cons]
      simp only [List.append_assoc]

/-- Where the payload of an operand of a form stands, counted from the start of the instruction. -/
def Form.offset (form : Form) (i : Nat) : Nat :=
  form.opcode.length + OperandClass.payloadSize (form.operands.take i)

/-- The part of an operand stands in the bytes of the instruction at its offset. -/
theorem Form.Parts.slice {form : Form} {symbols : SymbolTable} {next : Int}
    {operands : List WrittenOperand} {parts : List Bytes}
    (h : form.Parts symbols next operands parts) (hFits : form.Fits operands) {i : Nat}
    {operand : WrittenOperand} {cls : OperandClass} (hOperand : operands[i]? = some operand)
    (hClass : form.operands[i]? = some cls) (rest : Bytes) :
    cls.Part symbols next operand.written
      (((form.opcode ++ parts.flatten ++ rest).drop (form.offset i)).take cls.size) := by
  have hPair : (operands.zip form.operands)[i]? = some (operand, cls) := by
    rw [List.getElem?_zip_eq_some]
    exact ⟨hOperand, hClass⟩
  obtain ⟨part, hPart, hHolds⟩ := forall₂_getElem? h hPair
  have hLeft : (parts.take i).flatten.length = OperandClass.payloadSize (form.operands.take i) := by
    rw [length_parts (List.forall₂_take i h), List.map_take, hFits.map_snd_zip]
  have hDrop : (form.opcode ++ parts.flatten ++ rest).drop (form.offset i) =
      part ++ ((parts.drop (i + 1)).flatten ++ rest) := by
    rw [split_flatten hPart, offset, ← hLeft, ← List.length_append]
    simp only [List.append_assoc]
    rw [← List.append_assoc form.opcode, List.drop_left]
  rw [hDrop, ← hHolds.length_eq, List.take_left]
  exact hHolds

namespace Assembly
variable {surroundings : Surroundings}

/-- An instruction that the run reads stays in the program, resolved, at the address where it was
read. -/
theorem Assembles.instruction {source : Source} {first last : State} {program : Program}
    (h : Assembles surroundings source first last program) {state : State}
    (hReaches : Reaches surroundings first state) {token : Token} {tokens rest : List Token}
    (hTokens : state.tokens = token :: tokens) {location : Location} {mnemonic : String}
    {form : Form} {operands : List WrittenOperand}
    (hRead : Statement.read token tokens =
      .ok (⟨location, .instruction mnemonic form operands⟩, rest)) :
    ∃ item ∈ last.program.items, ∃ other ∈ program.items,
      item.address = state.program.location ∧ item.Placed (.instruction mnemonic form operands) ∧
      resolveItem last.program.symbols last.lineAt item = .ok other ∧
      ∃ resolved, other = ⟨location, item.address, .instruction mnemonic resolved form.size⟩ := by
  have hOnto := hReaches.onto h.reaches h.finished
  -- a token is left, so the run goes on from here, with the statement that was read
  rcases Relation.ReflTransGen.cases_head hOnto with rfl | ⟨after, hStep, hAfter⟩
  · rw [h.finished] at hTokens
    cases hTokens
  · obtain ⟨token', tokens', hTokens', hPerform⟩ := hStep
    rw [hTokens] at hTokens'
    cases hTokens'
    simp only [State.step, hRead] at hPerform
    obtain ⟨content, hContent, hProgram⟩ := (State.perform_effect hPerform).placed_instruction
    have hPlaced : state.program.itemAt location content ∈ after.program.items := by
      rw [hProgram, Program.items_append]
      exact List.mem_append_right _ List.mem_cons_self
    have hLast := (Reaches.items_prefix hAfter).subset hPlaced
    obtain ⟨items, rfl, hItems⟩ := h.resolves
    obtain ⟨i, hItem⟩ := List.mem_iff_getElem?.1 hLast
    obtain ⟨other, hOther, hResolve⟩ := forall₂_getElem? hItems hItem
    refine ⟨_, hLast, other, ?_, rfl, .content hContent, hResolve, ?_⟩
    · rw [Program.items_withItems]
      exact List.mem_of_getElem? hOther
    · cases hContent with
      | instruction _ =>
        obtain ⟨resolved, -, hOther⟩ := resolveItem_instruction_iff.1 hResolve
        exact ⟨resolved, hOther⟩

/-- For every instruction that is read on the way of a run that succeeds, whether in the source
itself or in an included file: there is an item for it in the program, and in the output the slot of
each of its operands holds the literal, or the value that the symbol of that name has at the end. -/
theorem slots_hold {text file : String} {source : Source} {first : State} {program : Program}
    {chunk : ChunkSize} {code : Bytes} {event : Event} (count : Nat) {token : Token}
    {tokens rest : List Token} {location : Location} {mnemonic : String} {form : Form}
    {operands : List WrittenOperand} {address : Int}
    (hScan : scan text file = .ok source.tokens) (hStart : start surroundings source = .ok first)
    (hAssemble : (assemble surroundings source).result = .ok program)
    (hGenerate : MachineCode.generate chunk program = .ok (code, event))
    (hTokens : (run surroundings count first).state.tokens = token :: tokens)
    (hRead : Statement.read token tokens =
      .ok (⟨location, .instruction mnemonic form operands⟩, rest))
    (hAddress : (run surroundings count first).state.program.location = address) :
    (∃ item ∈ program.items, item.location = location ∧ item.address = address ∧
      ∃ resolved, item.content = .instruction mnemonic resolved form.size) ∧
    0 ≤ address ∧ ∀ (i : Nat) (operand : WrittenOperand) (cls : OperandClass) (kind : NumberKind),
      operands[i]? = some operand → form.operands[i]? = some cls → cls.role = .slot kind →
      ∃ value, operand.written.meaning? program.symbols = some value ∧
        kind.Holds (address + form.size) value
          ((code.drop (address.toNat + form.offset i)).take cls.size) := by
  obtain ⟨first', last, hAssembles⟩ := assembles hScan hAssemble
  obtain rfl : first = first' := Except.ok.inj (hStart.symm.trans hAssembles.start_eq)
  have hReaches := run_reaches surroundings count first
  obtain ⟨item, hItem, other, hOther, hAt, hPlaced, hResolve, resolved, hContent⟩ :=
    hAssembles.instruction hReaches hTokens hRead
  rw [hAddress] at hAt
  have hMeasured : (Command.instruction mnemonic form operands).Measured := by
    have hReads := (Statement.read_ok_iff.1 hRead).2
    rw [← hTokens] at hReads
    exact hReads.measured (hReaches.live hAssembles.live)
  -- the bytes of the item, as the instruction says and as they stand in the output
  have hLaid := hAssembles.laid
  obtain ⟨-, bytes, hEncodes, hDelivers⟩ := hPlaced.delivers hMeasured hLaid.bounded
    (hLaid.size_nonneg item hItem) (hLaid.size_le hItem) hResolve
  obtain ⟨-, pieces, hPieces⟩ := hAssembles.pieces
  obtain ⟨event', hCode⟩ := generate_delivers hPieces chunk
  obtain ⟨front, piece, back, hPiece, hFlat, hFront⟩ :=
    hAssembles.program_laid.split_pieces hPieces hOther
  obtain rfl := hPiece.unique hDelivers
  rw [hGenerate] at hCode
  cases hCode
  rw [hContent] at hFront
  simp only [hAt] at hFront hEncodes hContent
  refine ⟨⟨other, hOther, by rw [hContent], by rw [hContent], resolved, by rw [hContent]⟩,
    by omega, ?_⟩
  intro i operand cls kind hOperand hClass hRole
  have hSymbols : program.symbols = last.program.symbols := by
    obtain ⟨items, rfl, -⟩ := hAssembles.resolves
    rfl
  cases hEncodes with
  | @instruction _ _ _ parts hParts =>
    have hPart := hParts.slice hMeasured.2.2.1 hOperand hClass back
    have hOffset : address.toNat = front.length := by omega
    rw [hFlat, hOffset, ← List.drop_drop, List.append_assoc, List.drop_left, hSymbols]
    simp only [OperandClass.Part, hRole] at hPart
    exact hPart

/-- A jump over one byte to a label that is defined after it. -/
theorem slots_hold_forward :
    ∃ tokens program code event, scan "jr end\nnop\nend:" "<input>" = .ok tokens ∧
      (assemble ⟨.empty, [], none⟩ ⟨tokens, "<input>", none, .empty⟩).result = .ok program ∧
      MachineCode.generate .standard program = .ok (code, event) ∧
      (program.symbols.lookup? "end").map Symbol.value = some 3 ∧
      NumberKind.Holds .relative 2 3 ((code.drop 1).take 1) := by
  let jump : Token := ⟨.mnemonic "jr", ⟨"<input>", 1, 1⟩⟩
  let rest : List Token :=
    [⟨.identifier "end", ⟨"<input>", 1, 4⟩⟩, ⟨.newline, ⟨"<input>", 1, 7⟩⟩,
      ⟨.mnemonic "nop", ⟨"<input>", 2, 1⟩⟩, ⟨.newline, ⟨"<input>", 2, 4⟩⟩,
      ⟨.identifier "end", ⟨"<input>", 3, 1⟩⟩, ⟨Delimiter.colon.lexeme, ⟨"<input>", 3, 4⟩⟩]
  let source : Source := ⟨jump :: rest, "<input>", none, .empty⟩
  have hScan : scan "jr end\nnop\nend:" "<input>" = .ok source.tokens :=
    eq_ok_of_toOption (by decide +kernel)
  have hRead : Statement.read jump rest =
      .ok (⟨⟨"<input>", 1, 1⟩, .instruction "jr" ⟨.jr, [.relative], [0x18]⟩
        [⟨.name "end", ⟨"<input>", 1, 4⟩⟩]⟩, rest.drop 2) :=
    eq_ok_of_toOption (by decide +kernel)
  have hRun : ((assemble ⟨.empty, [], none⟩ source).result.toOption.bind fun program =>
      (MachineCode.generate .standard program).toOption.map fun _ =>
        (program.symbols.lookup? "end").map Symbol.value) = some (some 3) := by decide +kernel
  obtain ⟨program, hAssemble, hRun⟩ := Option.bind_eq_some_iff.1 hRun
  obtain ⟨⟨code, event⟩, hGenerate, hValue⟩ := Option.map_eq_some_iff.1 hRun
  have hAssemble := eq_ok_of_toOption hAssemble
  have hGenerate := eq_ok_of_toOption hGenerate
  obtain ⟨-, -, hSlots⟩ :=
    slots_hold 0 hScan rfl hAssemble hGenerate rfl hRead (rfl : _ = (0 : Int))
  obtain ⟨value, hMeaning, hHolds⟩ := hSlots 0 _ .relative .relative rfl rfl rfl
  have hSame : some value = some 3 := hMeaning.symm.trans hValue
  cases hSame
  exact ⟨source.tokens, program, code, event, hScan, hAssemble, hGenerate, hValue, hHolds⟩

end Assembly
end Lr35902
