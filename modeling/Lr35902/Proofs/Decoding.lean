import Lr35902.Proofs.References

/-!
Machine code can be read back in one way only. The first byte of an opcode tells how long it is
(`opcode_front`), and forms with one opcode are the same form or one of three pairs of aliases
(`synonym_of_opcode`). A form fixes the length of the payload after its opcode, and the bytes of a
payload fix its values (`Carried.eq_iff`). So no instruction is encoded as the beginning of another
one (`Instruction.Of.front`), and equal streams of encodings come, instruction by instruction, from
synonymous instructions (`flatten_pieces_eq_iff`).
-/
namespace Lr35902

/-! ## Opcodes -/

namespace Form

/-- The pairs of forms that the processor does not tell apart. -/
def aliases : List (Form × Form) :=
  [(⟨.ld, [.highC, .register .a], [0xE2]⟩, ⟨.ldh, [.highC, .register .a], [0xE2]⟩),
    (⟨.ld, [.register .a, .highC], [0xF2]⟩, ⟨.ldh, [.register .a, .highC], [0xF2]⟩),
    (⟨.jp, [.pair .hl], [0xE9]⟩, ⟨.jp, [.through .hl], [0xE9]⟩)]

/-- Forms that are the same, or aliases. -/
def Synonym (form other : Form) : Prop :=
  form = other ∨ (form, other) ∈ aliases ∨ (other, form) ∈ aliases

/-- Aliases share their opcode and have no payload. -/
theorem aliases_alike : ∀ pair ∈ aliases,
    pair.1.opcode = pair.2.opcode ∧ pair.1.payloadSize = 0 ∧ pair.2.payloadSize = 0 := by
  decide

theorem Synonym.opcode_eq {form other : Form} (h : form.Synonym other) :
    form.opcode = other.opcode := by
  rcases h with rfl | hAlias | hAlias
  · rfl
  · exact (aliases_alike _ hAlias).1
  · exact (aliases_alike _ hAlias).1.symm

theorem Synonym.payloadSize_eq {form other : Form} (h : form.Synonym other) :
    form.payloadSize = other.payloadSize := by
  rcases h with rfl | hAlias | hAlias
  · rfl
  all_goals
    obtain ⟨-, hFirst, hSecond⟩ := aliases_alike _ hAlias
    simp only at hFirst hSecond
    rw [hFirst, hSecond]

/-- The length of an opcode that starts with a byte. Only `stop` and the second page take two. -/
def opcodeLength (first : UInt8) : Nat := if first = 0x10 ∨ first = 0xCB then 2 else 1

theorem length_opcode {form : Form} (h : form ∈ table) :
    ∃ first rest, form.opcode = first :: rest ∧ form.opcode.length = opcodeLength first := by
  have hAll : ∀ form ∈ table, form.opcode.head?.map opcodeLength = some form.opcode.length := by
    decide +kernel
  obtain ⟨first, hFirst, hLength⟩ := Option.map_eq_some_iff.1 (hAll form h)
  obtain ⟨rest, hRest⟩ := List.head?_eq_some_iff.1 hFirst
  exact ⟨first, rest, hRest, hLength.symm⟩

/-- An opcode ends where its first byte says, whatever follows it. -/
theorem opcode_front {form other : Form} (hForm : form ∈ table) (hOther : other ∈ table)
    {rest more : Bytes} (h : form.opcode ++ rest = other.opcode ++ more) :
    form.opcode = other.opcode ∧ rest = more := by
  obtain ⟨first, second, hOpcode, hLength⟩ := length_opcode hForm
  obtain ⟨head, tail, hOtherOpcode, hOtherLength⟩ := length_opcode hOther
  have hFirst : first = head := by
    rw [hOpcode, hOtherOpcode] at h
    exact (List.cons.inj h).1
  apply List.append_inj h
  rw [hLength, hOtherLength, hFirst]

/-- An opcode as a number. -/
def opcodeNumber (opcode : Bytes) : Nat := opcode.foldl (fun n b => n * 256 + b.toNat) 0

/-- Whether a form is not the second one of two aliases. -/
def isPrincipal (form : Form) : Bool := !(aliases.map Prod.snd).contains form

theorem opcodeNumbers_nodup :
    ((table.filter isPrincipal).map fun form => opcodeNumber form.opcode).Nodup := by
  have hDistinct : distinctFrom 0
      ((table.filter isPrincipal).map fun form => opcodeNumber form.opcode) = true := by
    decide +kernel
  exact (distinctFrom_sound hDistinct).1

theorem exists_principal {form : Form} (h : form ∈ table) :
    ∃ principal ∈ table.filter isPrincipal, principal.opcode = form.opcode ∧
      (principal = form ∨ (principal, form) ∈ aliases) := by
  by_cases hPrincipal : form.isPrincipal = true
  · exact ⟨form, List.mem_filter.2 ⟨h, hPrincipal⟩, rfl, .inl rfl⟩
  · have hSecond : form ∈ aliases.map Prod.snd := by simpa [isPrincipal] using hPrincipal
    obtain ⟨⟨principal, _⟩, hAlias, rfl⟩ := List.mem_map.1 hSecond
    have hFirst : ∀ pair ∈ aliases, pair.1 ∈ table.filter isPrincipal := by decide +kernel
    exact ⟨principal, hFirst _ hAlias, (aliases_alike _ hAlias).1, .inr hAlias⟩

/-- Apart from the aliases, every opcode has one form. -/
theorem synonym_of_opcode {form other : Form} (hForm : form ∈ table) (hOther : other ∈ table)
    (h : form.opcode = other.opcode) : form.Synonym other := by
  obtain ⟨principal, hMem, hOpcode, hFirst⟩ := exists_principal hForm
  obtain ⟨same, hSame, hOtherOpcode, hSecond⟩ := exists_principal hOther
  have hNumber : opcodeNumber principal.opcode = opcodeNumber same.opcode := by
    rw [hOpcode, hOtherOpcode, h]
  obtain rfl := List.inj_on_of_nodup_map opcodeNumbers_nodup hMem hSame hNumber
  rcases hFirst with rfl | hFirst
  · rcases hSecond with rfl | hSecond
    · exact .inl rfl
    · exact .inr (.inl hSecond)
  · rcases hSecond with rfl | hSecond
    · exact .inr (.inr hFirst)
    · -- no form is the first one of two pairs
      have hOnce : ∀ pair ∈ aliases, ∀ more ∈ aliases, pair.1 = more.1 → pair.2 = more.2 := by
        decide
      exact .inl (hOnce _ hFirst _ hSecond rfl)

end Form

/-! ## Payloads -/

/-- The value of an operand that has a payload. Bits and vectors are part of the opcode. -/
def Operand.payload? : Operand → Option OperandValue
  | .number .bit _ | .number .vector _ => none
  | .number _ value => some value
  | .name _ _ | .symbol _ _ _ => none

/-- An operand of a class, and the bytes of its payload. -/
inductive OperandClass.Carries (cls : OperandClass) : Operand → Bytes → Prop
  | implied {operand : Operand} : cls.role = .implied operand → Carries cls operand []
  | slot {kind : NumberKind} {number : Int} {bytes : Bytes} :
    cls.role = .slot kind → MachineCode.payload kind (.number number) = .ok bytes →
    Carries cls (.number kind (.number number)) bytes

/-- Operands of some classes, and the bytes of their payloads one after the other. -/
inductive Carried : List OperandClass → List Operand → Bytes → Prop
  | nil : Carried [] [] []
  | cons {cls : OperandClass} {classes : List OperandClass} {operand : Operand}
    {operands : List Operand} {part bytes : Bytes} :
    cls.Carries operand part → Carried classes operands bytes →
    Carried (cls :: classes) (operand :: operands) (part ++ bytes)

section
variable {cls : OperandClass} {kind : NumberKind}

theorem OperandClass.payload_inj (hRole : cls.role = .slot kind) {number other : Int}
    {bytes : Bytes} (h : MachineCode.payload kind (.number number) = .ok bytes)
    (hOther : MachineCode.payload kind (.number other) = .ok bytes) : number = other := by
  -- each kind of payload names the bytes that the number is read from
  cases cls with
  | byte | high =>
    cases hRole
    rw [MachineCode.payload_byte_iff (by decide)] at h hOther
    obtain ⟨b, rfl, rfl⟩ := h
    obtain ⟨_, hSame, rfl⟩ := hOther
    cases hSame
    rfl
  | word | memory =>
    cases hRole
    rw [MachineCode.payload_word_iff (by decide)] at h hOther
    obtain ⟨low, high, rfl, rfl⟩ := h
    obtain ⟨_, _, hSame, rfl⟩ := hOther
    cases hSame
    rfl
  | relative =>
    cases hRole
    rw [MachineCode.payload_relative_iff] at h hOther
    obtain ⟨b, rfl, rfl⟩ := h
    obtain ⟨_, hSame, rfl⟩ := hOther
    cases hSame
    rfl
  | register | pair | condition | highC | through | bit | vector => cases hRole

theorem OperandClass.payload?_implied {operand : Operand} (hRole : cls.role = .implied operand) :
    operand.payload? = none := by
  cases cls <;> cases hRole <;> rfl

theorem OperandClass.payload?_slot (hRole : cls.role = .slot kind) (value : OperandValue) :
    Operand.payload? (.number kind value) = some value := by
  cases cls <;> cases hRole <;> rfl

theorem OperandClass.Carries.length_eq {operand : Operand} {bytes : Bytes}
    (h : cls.Carries operand bytes) : bytes.length = cls.size := by
  cases h with
  | implied hRole => cases cls <;> cases hRole <;> rfl
  | slot hRole hPayload =>
    cases cls with
    | byte | high =>
      cases hRole
      obtain ⟨b, rfl, -⟩ := (MachineCode.payload_byte_iff (by decide)).1 hPayload
      rfl
    | word | memory =>
      cases hRole
      obtain ⟨low, high, rfl, -⟩ := (MachineCode.payload_word_iff (by decide)).1 hPayload
      rfl
    | relative =>
      cases hRole
      obtain ⟨b, rfl, -⟩ := MachineCode.payload_relative_iff.1 hPayload
      rfl
    | register | pair | condition | highC | through | bit | vector => cases hRole

/-- The payload of an operand has the same bytes exactly when it has the same value. -/
theorem OperandClass.Carries.eq_iff {operand other : Operand} {bytes more : Bytes}
    (h : cls.Carries operand bytes) (hOther : cls.Carries other more) :
    bytes = more ↔ operand.payload? = other.payload? := by
  cases h with
  | implied hRole =>
    cases hOther with
    | implied hOtherRole =>
      rw [payload?_implied hRole, payload?_implied hOtherRole]
      exact iff_of_true rfl rfl
    | slot hOtherRole _ =>
      rw [hRole] at hOtherRole
      cases hOtherRole
  | slot hRole hPayload =>
    cases hOther with
    | implied hOtherRole =>
      rw [hRole] at hOtherRole
      cases hOtherRole
    | slot hOtherRole hOtherPayload =>
      obtain rfl := Role.slot.inj (hRole.symm.trans hOtherRole)
      rw [payload?_slot hRole, payload?_slot hRole, Option.some.injEq, OperandValue.number.injEq]
      constructor
      · rintro rfl
        exact payload_inj hRole hPayload hOtherPayload
      · rintro rfl
        exact Except.ok.inj (hPayload.symm.trans hOtherPayload)

end

section
variable {classes : List OperandClass} {operands : List Operand} {bytes : Bytes}

theorem Carried.length_eq (h : Carried classes operands bytes) :
    bytes.length = OperandClass.payloadSize classes := by
  induction h with
  | nil => rfl
  | cons hHead _ ih => rw [List.length_append, hHead.length_eq, ih, OperandClass.payloadSize]

/-- Payloads of the same classes have the same bytes exactly when they have the same values. -/
theorem Carried.eq_iff (h : Carried classes operands bytes) {others : List Operand} {more : Bytes}
    (hOthers : Carried classes others more) :
    bytes = more ↔
      operands.filterMap Operand.payload? = others.filterMap Operand.payload? := by
  induction h generalizing others more with
  | nil =>
    cases hOthers
    exact iff_of_true rfl rfl
  | @cons cls classes operand operands part bytes hHead _ ih =>
    cases hOthers with
    | @cons _ _ other others otherPart more hOther hRest =>
      have hParts : part ++ bytes = otherPart ++ more ↔ part = otherPart ∧ bytes = more := by
        refine ⟨fun hSame => List.append_inj hSame ?_, ?_⟩
        · rw [hHead.length_eq, hOther.length_eq]
        · rintro ⟨rfl, rfl⟩
          rfl
      rw [hParts, hHead.eq_iff hOther, ih hRest]
      -- both operands have a payload, or neither has, since they are of one class
      cases hHead with
      | implied hRole =>
        cases hOther with
        | implied hOtherRole =>
          simp [OperandClass.payload?_implied hRole, OperandClass.payload?_implied hOtherRole]
        | slot hOtherRole _ =>
          rw [hRole] at hOtherRole
          cases hOtherRole
      | slot hRole _ =>
        cases hOther with
        | implied hOtherRole =>
          rw [hRole] at hOtherRole
          cases hOtherRole
        | slot hOtherRole _ =>
          simp [OperandClass.payload?_slot hRole, OperandClass.payload?_slot hOtherRole]

/-- Without room for a payload there is no value. -/
theorem Carried.payload_eq_nil (h : Carried classes operands bytes)
    (hSize : OperandClass.payloadSize classes = 0) :
    operands.filterMap Operand.payload? = [] := by
  induction h with
  | nil => rfl
  | @cons cls _ _ _ _ _ hHead _ ih =>
    rw [OperandClass.payloadSize] at hSize
    cases hHead with
    | implied hRole =>
      rw [List.filterMap_cons_none (OperandClass.payload?_implied hRole)]
      exact ih (by omega)
    | slot hRole _ =>
      have hRoom : 0 < cls.size := by cases cls <;> cases hRole <;> decide
      omega

theorem Carried.emits (h : Carried classes operands bytes) :
    ∃ parts, List.Forall₂ Emits operands parts ∧ parts.flatten = bytes := by
  induction h with
  | nil => exact ⟨[], .nil, rfl⟩
  | @cons cls _ operand _ part _ hHead _ ih =>
    obtain ⟨parts, hParts, rfl⟩ := ih
    refine ⟨part :: parts, .cons ?_ hParts, List.flatten_cons⟩
    cases hHead with
    | implied hRole => exact (OperandClass.emits_implied_iff hRole).2 rfl
    | slot _ hPayload => exact .number hPayload

/-- Operands that are built and resolved carry payloads of their classes. -/
theorem carried_of_settled {symbols : SymbolTable} {lineAt : Location → Option String} {next : Int}
    {pairs : List (WrittenOperand × OperandClass)}
    (hPairs : ∀ pair ∈ pairs, pair.1.written.fit pair.2 = .fits ∧ pair.1.written.Bounded symbols)
    (h : List.Forall₂ (fun pair operand => Settles symbols lineAt next pair.1 pair.2 operand) pairs
      operands) :
    ∃ bytes, Carried (pairs.map Prod.snd) operands bytes := by
  induction h with
  | nil => exact ⟨[], .nil⟩
  | @cons pair operand pairs operands hSettles _ ih =>
    obtain ⟨⟨hFits, hBounded⟩, hPairs⟩ := List.forall_mem_cons.1 hPairs
    obtain ⟨bytes, hBytes⟩ := ih hPairs
    suffices hHead : ∃ part, pair.2.Carries operand part by
      obtain ⟨part, hPart⟩ := hHead
      exact ⟨part ++ bytes, .cons hPart hBytes⟩
    cases hRole : pair.2.role with
    | implied implied =>
      obtain rfl := (settles_implied_iff hRole).1 hSettles
      exact ⟨[], .implied hRole⟩
    | slot kind =>
      obtain ⟨value, hValue, number, hStores, rfl⟩ := (settles_slot_iff hRole hFits).1 hSettles
      obtain ⟨part, hPayload⟩ := hStores.payload_ok (hBounded.meaning?_range hValue)
      exact ⟨part, .slot hRole hPayload⟩

end

/-! ## Instructions -/

/-- An instruction as it stands in a program. -/
structure Instruction where
  location : Location
  mnemonic : String
  operands : List Operand
  deriving DecidableEq

/-- The instruction that an item is. -/
def Item.instruction? (item : Item) : Option Instruction :=
  match item.content with
  | .instruction mnemonic operands _ => some ⟨item.location, mnemonic, operands⟩
  | _ => none

/-- The instructions of a program, in the order of the output. -/
def Program.instructions (program : Program) : List Instruction :=
  program.items.filterMap Item.instruction?

namespace Instruction

/-- The bytes of an instruction. -/
def encode (instruction : Instruction) : Except EncodeFault Bytes :=
  MachineCode.encodeInstruction instruction.location instruction.mnemonic instruction.operands

/-- The form that an instruction has by the keys of its operands. -/
def form? (instruction : Instruction) : Option Form :=
  match MachineCode.keys instruction.operands with
  | .ok keys => Form.lookup? instruction.mnemonic keys
  | .error _ => none

/-- The values of the payload, in their order. -/
def payload (instruction : Instruction) : List OperandValue :=
  instruction.operands.filterMap Operand.payload?

/-- Instructions of one form, or of aliases, with the same payload. -/
def Synonym (instruction other : Instruction) : Prop :=
  ∃ form same, instruction.form? = some form ∧ other.form? = some same ∧ form.Synonym same ∧
    instruction.payload = other.payload

/-- An instruction that stands in a program which some text assembles to. -/
def Produced (instruction : Instruction) : Prop :=
  ∃ surroundings source text file program, scan text file = .ok source.tokens ∧
    (Assembly.assemble surroundings source).result = .ok program ∧
    instruction ∈ program.instructions

/-- An instruction of a form of the table, and the bytes of its payload. -/
structure Of (form : Form) (bytes : Bytes) (instruction : Instruction) : Prop where
  mem : form ∈ Form.table
  form?_eq : instruction.form? = some form
  encode_eq : instruction.encode = .ok (form.opcode ++ bytes)
  carried : Carried form.operands instruction.operands bytes

end Instruction

theorem Item.Placed.instruction_of {symbols : SymbolTable} {lineAt : Location → Option String}
    {item other : Item} {command : Command} {instruction : Instruction} (h : item.Placed command)
    (hMeasured : command.Measured) (hSymbols : symbols.Bounded)
    (hResolve : Assembly.resolveItem symbols lineAt item = .ok other)
    (hOther : other.instruction? = some instruction) :
    ∃ form bytes, instruction.Of form bytes := by
  obtain ⟨location, address, content⟩ := item
  cases h with
  | constant hContent =>
    cases hContent
    cases hResolve
    cases hOther
  | content hContent =>
    cases hContent with
    | use | bytes | string | fill | origin =>
      cases hResolve
      cases hOther
    | @instruction mnemonic form operands built hBuilt =>
      obtain ⟨resolved, hOperands, rfl⟩ := resolveItem_instruction_iff.1 hResolve
      cases hOther
      have hSettled := settled_iff.1 ⟨built, hBuilt, hOperands⟩
      obtain ⟨hKeys, -, -⟩ := settled_keys (hMeasured.pair hSymbols) hSettled
      obtain ⟨bytes, hCarried⟩ := carried_of_settled (hMeasured.pair hSymbols) hSettled
      obtain ⟨parts, hEmits, rfl⟩ := hCarried.emits
      have hEncode := encodeInstruction_settled hMeasured hSymbols hSettled hEmits location
      obtain ⟨hTable, rfl, hFits, -⟩ := hMeasured
      rw [hFits.map_snd_zip] at hKeys hCarried
      refine ⟨form, parts.flatten, hTable, ?_, hEncode, hCarried⟩
      simp only [Instruction.form?, hKeys]
      exact Form.lookup?_keys hTable

/-- Whatever stands in an assembled program has a form of the table and a payload for it. -/
theorem Instruction.Produced.of {instruction : Instruction} (h : instruction.Produced) :
    ∃ form bytes, instruction.Of form bytes := by
  obtain ⟨surroundings, source, text, file, program, hScan, hAssemble, hMem⟩ := h
  obtain ⟨first, last, hAssembles⟩ := Assembly.assembles hScan hAssemble
  obtain ⟨items, rfl, hItems⟩ := hAssembles.resolves
  obtain ⟨other, hOther, hInstruction⟩ := List.mem_filterMap.1 hMem
  rw [Program.items_withItems] at hOther
  obtain ⟨i, hIndex⟩ := List.mem_iff_getElem?.1 hOther
  obtain ⟨item, hItem, hResolve⟩ := forall₂_getElem? hItems.flip hIndex
  obtain ⟨command, hMeasured, hPlaced⟩ := hAssembles.sound item (List.mem_of_getElem? hItem)
  exact hPlaced.instruction_of hMeasured hAssembles.laid.bounded hResolve hInstruction

/-! ## Streams -/

namespace Instruction
variable {instruction other : Instruction} {form same : Form} {bytes more : Bytes}

theorem Of.ne_nil (h : instruction.Of form bytes) : form.opcode ++ bytes ≠ [] := by
  obtain ⟨first, rest, hOpcode, -⟩ := Form.length_opcode h.mem
  simp [hOpcode]

/-- Instructions of synonymous forms have the same bytes of payload exactly when they have the same
values. -/
theorem Of.payload_eq_iff (h : instruction.Of form bytes) (hOther : other.Of same more)
    (hForms : form.Synonym same) : bytes = more ↔ instruction.payload = other.payload := by
  by_cases hSize : form.payloadSize = 0
  · have hOtherSize : same.payloadSize = 0 := by rw [← hForms.payloadSize_eq, hSize]
    have hBytes : bytes = [] := List.length_eq_zero_iff.1 (h.carried.length_eq.trans hSize)
    have hMore : more = [] := List.length_eq_zero_iff.1 (hOther.carried.length_eq.trans hOtherSize)
    apply iff_of_true
    · rw [hBytes, hMore]
    · rw [payload, payload, h.carried.payload_eq_nil hSize,
        hOther.carried.payload_eq_nil hOtherSize]
  · rcases hForms with rfl | hAlias | hAlias
    · exact h.carried.eq_iff hOther.carried
    · exact absurd (Form.aliases_alike _ hAlias).2.1 hSize
    · exact absurd (Form.aliases_alike _ hAlias).2.2 hSize

theorem Of.synonym_iff (h : instruction.Of form bytes) (hOther : other.Of same more) :
    instruction.Synonym other ↔ form.opcode ++ bytes = same.opcode ++ more := by
  constructor
  · rintro ⟨_, _, hForm, hSame, hForms, hPayload⟩
    obtain rfl := Option.some.inj (h.form?_eq.symm.trans hForm)
    obtain rfl := Option.some.inj (hOther.form?_eq.symm.trans hSame)
    rw [hForms.opcode_eq, (h.payload_eq_iff hOther hForms).2 hPayload]
  · intro hSame
    obtain ⟨hOpcode, hBytes⟩ := Form.opcode_front h.mem hOther.mem hSame
    have hForms := Form.synonym_of_opcode h.mem hOther.mem hOpcode
    exact ⟨form, same, h.form?_eq, hOther.form?_eq, hForms,
      (h.payload_eq_iff hOther hForms).1 hBytes⟩

/-- The bytes of an instruction tell where it ends, whatever follows it. -/
theorem Of.front (h : instruction.Of form bytes) (hOther : other.Of same more) {rest left : Bytes}
    (hSame : form.opcode ++ bytes ++ rest = same.opcode ++ more ++ left) :
    form.opcode ++ bytes = same.opcode ++ more ∧ rest = left := by
  rw [List.append_assoc, List.append_assoc] at hSame
  obtain ⟨hOpcode, hRest⟩ := Form.opcode_front h.mem hOther.mem hSame
  have hForms := Form.synonym_of_opcode h.mem hOther.mem hOpcode
  have hLength : bytes.length = more.length := by
    rw [h.carried.length_eq, hOther.carried.length_eq]
    exact hForms.payloadSize_eq
  obtain ⟨hBytes, hLeft⟩ := List.append_inj hRest hLength
  exact ⟨by rw [hOpcode, hBytes], hLeft⟩

/-- An instruction of some form is encoded as some bytes. -/
def Encodes (instruction : Instruction) (piece : Bytes) : Prop :=
  ∃ form bytes, instruction.Of form bytes ∧ piece = form.opcode ++ bytes

theorem Encodes.encode_eq {piece : Bytes} (h : instruction.Encodes piece) :
    instruction.encode = .ok piece := by
  obtain ⟨form, bytes, hOf, rfl⟩ := h
  exact hOf.encode_eq

theorem exists_pieces {instructions : List Instruction}
    (h : ∀ instruction ∈ instructions, instruction.Produced) :
    ∃ pieces, List.Forall₂ Encodes instructions pieces := by
  induction instructions with
  | nil => exact ⟨[], .nil⟩
  | cons instruction instructions ih =>
    obtain ⟨hHere, hRest⟩ := List.forall_mem_cons.1 h
    obtain ⟨form, bytes, hOf⟩ := hHere.of
    obtain ⟨pieces, hPieces⟩ := ih hRest
    exact ⟨_ :: pieces, .cons ⟨form, bytes, hOf, rfl⟩ hPieces⟩

theorem flatten_pieces_eq_iff {instructions others : List Instruction} {pieces more : List Bytes}
    (h : List.Forall₂ Encodes instructions pieces) (hOthers : List.Forall₂ Encodes others more) :
    pieces.flatten = more.flatten ↔ List.Forall₂ Synonym instructions others := by
  induction h generalizing others more with
  | nil =>
    cases hOthers with
    | nil => exact iff_of_true rfl .nil
    | cons hHead _ =>
      obtain ⟨form, bytes, hOf, rfl⟩ := hHead
      apply iff_of_false
      · intro hNil
        exact hOf.ne_nil (List.append_eq_nil_iff.1 hNil.symm).1
      · intro hSynonyms
        cases hSynonyms
  | @cons instruction _ instructions pieces hHead _ ih =>
    obtain ⟨form, bytes, hOf, rfl⟩ := hHead
    cases hOthers with
    | nil =>
      apply iff_of_false
      · intro hNil
        exact hOf.ne_nil (List.append_eq_nil_iff.1 hNil).1
      · intro hSynonyms
        cases hSynonyms
    | @cons other _ others more hOther hRest =>
      obtain ⟨same, payload, hOtherOf, rfl⟩ := hOther
      rw [List.forall₂_cons, ← ih hRest, hOf.synonym_iff hOtherOf, List.flatten_cons,
        List.flatten_cons]
      constructor
      · exact hOf.front hOtherOf
      · rintro ⟨hSame, hFlat⟩
        rw [hSame, hFlat]

/-- Instructions that stand in assembled programs, at whatever addresses, can be encoded; and two
sequences of them give the same bytes one after the other exactly when they are synonymous,
instruction by instruction. -/
theorem encodings_eq_iff {instructions others : List Instruction}
    (h : ∀ instruction ∈ instructions, instruction.Produced)
    (hOthers : ∀ instruction ∈ others, instruction.Produced) :
    ∃ pieces more,
      List.Forall₂ (fun instruction piece => instruction.encode = .ok piece) instructions pieces ∧
      List.Forall₂ (fun instruction piece => instruction.encode = .ok piece) others more ∧
      (pieces.flatten = more.flatten ↔ List.Forall₂ Synonym instructions others) := by
  obtain ⟨pieces, hPieces⟩ := exists_pieces h
  obtain ⟨more, hMore⟩ := exists_pieces hOthers
  exact ⟨pieces, more, hPieces.imp fun _ _ => Encodes.encode_eq,
    hMore.imp fun _ _ => Encodes.encode_eq, flatten_pieces_eq_iff hPieces hMore⟩

/-- Two aliases and a word, the second time at other addresses. -/
theorem encodings_eq_iff_aliases :
    ∃ instructions others : List Instruction, instructions ≠ others ∧
      (∀ instruction ∈ instructions, instruction.Produced) ∧
      (∀ instruction ∈ others, instruction.Produced) ∧
      List.Forall₂ Synonym instructions others := by
  let place (line : Int) : Location := ⟨"<input>", line, 1⟩
  let target : Operand := .name .pair (.word "hl")
  let word : Operand := .number .immediate16 (.number 0x1234)
  let operands : List Operand := [.name .register (.word "a"), .name .indirect (.word "c")]
  let instructions : List Instruction :=
    [⟨place 1, "ldh", operands⟩, ⟨place 2, "jp", [.name .indirectPair (.word "hl")]⟩,
      ⟨place 3, "ld", [target, word]⟩]
  let others : List Instruction :=
    [⟨place 2, "ld", operands⟩, ⟨place 3, "jp", [target]⟩, ⟨place 4, "ld", [target, word]⟩]
  let code : List Bytes := [[0xF2], [0xE9], [0x21, 0x34, 0x12]]
  have hProduced (text : String) {found : List Instruction}
      (hRun : ((scan text "<input>").toOption.bind fun tokens => (Assembly.assemble
        ⟨.empty, [], none⟩ ⟨tokens, "<input>", none, .empty⟩).result.toOption.map
          Program.instructions) = some found) :
      ∀ instruction ∈ found, instruction.Produced := by
    obtain ⟨tokens, hScan, hMap⟩ := Option.bind_eq_some_iff.1 hRun
    obtain ⟨program, hAssemble, rfl⟩ := Option.map_eq_some_iff.1 hMap
    intro instruction hMem
    exact ⟨_, ⟨tokens, "<input>", none, .empty⟩, text, "<input>", program,
      eq_ok_of_toOption hScan, eq_ok_of_toOption hAssemble, hMem⟩
  have hFirst : ∀ instruction ∈ instructions, instruction.Produced := by
    apply hProduced "ldh a, (c)\njp (hl)\nld hl, 0x1234"
    decide +kernel
  have hSecond : ∀ instruction ∈ others, instruction.Produced := by
    apply hProduced ".org 4\nld a, (c)\njp hl\nld hl, 4660"
    decide +kernel
  have hEncode {instruction : Instruction} {piece : Bytes}
      (hPiece : instruction.encode.toOption = some piece) : instruction.encode = .ok piece :=
    eq_ok_of_toOption hPiece
  -- encoding is a function, so the pieces are those that it computes
  have hCode {found : List Instruction} {pieces : List Bytes}
      (hPieces : List.Forall₂ (fun instruction piece => instruction.encode = .ok piece) found
        pieces)
      (hFound : List.Forall₂ (fun instruction piece => instruction.encode = .ok piece) found
        code) : pieces = code :=
    List.right_unique_forall₂' (fun _ _ _ h h' => Except.ok.inj (h.symm.trans h')) hPieces hFound
  obtain ⟨pieces, more, hPieces, hMore, hIff⟩ := encodings_eq_iff hFirst hSecond
  refine ⟨instructions, others, by decide, hFirst, hSecond, hIff.1 ?_⟩
  rw [hCode hPieces, hCode hMore]
  · exact .cons (hEncode (by decide +kernel)) (.cons (hEncode (by decide +kernel))
      (.cons (hEncode (by decide +kernel)) .nil))
  · exact .cons (hEncode (by decide +kernel)) (.cons (hEncode (by decide +kernel))
      (.cons (hEncode (by decide +kernel)) .nil))

end Instruction

end Lr35902
