import Lr35902.Proofs.Delivery
import Lr35902.Proofs.Slots

/-!
The encoding of assembled programs. What each command puts into the output is said without reference
to writes and resolution (`Encodes`); an item that a command placed, once its symbols are resolved,
delivers just these bytes, as many as its size, whatever the chunk size (`Item.Placed.delivers`).
Hence every program that assembles can be encoded (`Assembles.pieces`, `generate_delivers`): its
bytes are those of its items one after the other, and each item's bytes stand at its address
(`Program.Laid.split_pieces`).
-/
namespace Lr35902

/-! ## Lists of operands -/

theorem forall₂_comp {α β γ : Type} {R : α → β → Prop} {S : β → γ → Prop} {as : List α}
    {cs : List γ} :
    (∃ bs, List.Forall₂ R as bs ∧ List.Forall₂ S bs cs) ↔
      List.Forall₂ (fun a c => ∃ b, R a b ∧ S b c) as cs := by
  constructor
  · rintro ⟨bs, hR, hS⟩
    induction hR generalizing cs with
    | nil =>
      cases hS
      exact .nil
    | cons hFirst _ ih =>
      cases hS with
      | cons hNext hRest => exact .cons ⟨_, hFirst, hNext⟩ (ih hRest)
  · intro h
    induction h with
    | nil => exact ⟨[], .nil, .nil⟩
    | cons hFirst _ ih =>
      obtain ⟨b, hR, hS⟩ := hFirst
      obtain ⟨bs, hRs, hSs⟩ := ih
      exact ⟨b :: bs, .cons hR hRs, .cons hS hSs⟩

theorem forall₂_iff_of_mem {α β : Type} {R S : α → β → Prop} {as : List α} {bs : List β}
    (h : ∀ a ∈ as, ∀ b, R a b ↔ S a b) : List.Forall₂ R as bs ↔ List.Forall₂ S as bs := by
  induction as generalizing bs with
  | nil => simp
  | cons a rest ih =>
    have hRest := fun b' (hMem : b' ∈ rest) => h b' (List.mem_cons_of_mem a hMem)
    simp only [List.forall₂_cons_left_iff, h a List.mem_cons_self, ih hRest]

section
variable {symbols : SymbolTable} {lineAt : Location → Option String} {next : Int}

theorem buildOperands_ok_iff {operands : List WrittenOperand} {classes : List OperandClass}
    {built : List Operand} :
    buildOperands next operands classes = .ok built ↔
      List.Forall₂ (fun pair operand => pair.1.build pair.2 next = .ok operand)
        (operands.zip classes) built := by
  induction operands generalizing classes built with
  | nil => simp [buildOperands, eq_comm]
  | cons operand operands ih =>
    cases classes with
    | nil => simp [buildOperands, eq_comm]
    | cons cls classes =>
      rw [buildOperands, List.zip_cons_cons, List.forall₂_cons_left_iff]
      simp only [← ih]
      split
      · next hBuild => simp [hBuild]
      · next first hBuild =>
        split
        · next hMore => simp [hBuild, hMore]
        · next more hMore => simp [hBuild, hMore, eq_comm]

theorem resolveOperands_ok_iff {operands resolved : List Operand} :
    Assembly.resolveOperands symbols lineAt next operands = .ok resolved ↔
      List.Forall₂ (fun operand other =>
        Assembly.resolveOperand symbols lineAt next operand = .ok other) operands resolved := by
  induction operands generalizing resolved with
  | nil => simp [Assembly.resolveOperands, eq_comm]
  | cons operand operands ih =>
    rw [Assembly.resolveOperands, List.forall₂_cons_left_iff]
    simp only [← ih]
    split
    · next hFirst => simp [hFirst]
    · next first hFirst =>
      split
      · next hMore => simp [hFirst, hMore]
      · next more hMore => simp [hFirst, hMore, eq_comm]

theorem settled_iff {operands : List WrittenOperand} {classes : List OperandClass}
    {resolved : List Operand} :
    (∃ built, buildOperands next operands classes = .ok built ∧
        Assembly.resolveOperands symbols lineAt next built = .ok resolved) ↔
      List.Forall₂ (fun pair operand => Settles symbols lineAt next pair.1 pair.2 operand)
        (operands.zip classes) resolved := by
  simp only [buildOperands_ok_iff, resolveOperands_ok_iff, forall₂_comp]
  rfl

theorem payloads_of_emits {operands : List Operand} {parts : List Bytes}
    (h : List.Forall₂ Emits operands parts) (location : Location) :
    MachineCode.payloads location operands = .ok parts.flatten := by
  induction h with
  | nil => rfl
  | cons hFirst _ ih =>
    cases hFirst with
    | name => exact ih
    | number hPayload =>
      rw [MachineCode.payloads, hPayload]
      simp only [ih, List.flatten_cons]

/-! ## Instructions -/

/-- The parts that the operands of an instruction put after the opcode of a form. -/
def Form.Parts (form : Form) (symbols : SymbolTable) (next : Int) (operands : List WrittenOperand)
    (parts : List Bytes) : Prop :=
  List.Forall₂ (fun pair part => pair.2.Part symbols next pair.1.written part)
    (operands.zip form.operands) parts

theorem Form.Fits.map_snd_zip {form : Form} {operands : List WrittenOperand}
    (h : form.Fits operands) : (operands.zip form.operands).map Prod.snd = form.operands :=
  List.map_snd_zip (Nat.le_of_eq (List.Forall₂.length_eq h).symm)

/-- Parts are as long together as their classes say. -/
theorem OperandClass.length_flatten {classes : List OperandClass} {parts : List Bytes}
    (h : List.Forall₂ (fun cls part => part.length = cls.size) classes parts) :
    parts.flatten.length = payloadSize classes := by
  induction h with
  | nil => rfl
  | cons hPart _ ih => rw [List.flatten_cons, List.length_append, hPart, ih, payloadSize]

theorem length_parts {pairs : List (WrittenOperand × OperandClass)} {parts : List Bytes}
    (h : List.Forall₂ (fun pair part => pair.2.Part symbols next pair.1.written part)
      pairs parts) :
    parts.flatten.length = OperandClass.payloadSize (pairs.map Prod.snd) :=
  OperandClass.length_flatten (List.forall₂_map_left_iff.2 (h.imp fun _ _ hPart => hPart.length_eq))

theorem Form.Parts.length_flatten {form : Form} {operands : List WrittenOperand}
    {parts : List Bytes} (h : form.Parts symbols next operands parts) (hFits : form.Fits operands) :
    parts.flatten.length = form.payloadSize := by
  rw [length_parts h, hFits.map_snd_zip, payloadSize]

/-- The symbols have values of 16 bits. -/
def SymbolTable.Bounded (symbols : SymbolTable) : Prop :=
  ∀ name symbol, symbols.lookup? name = some symbol → 0 ≤ symbol.value ∧ symbol.value ≤ 0xFFFF

variable {mnemonic : String} {form : Form} {operands : List WrittenOperand}

/-- What the operands of a measured instruction bring with them, pair by pair. -/
theorem Command.Measured.pair (h : (Command.instruction mnemonic form operands).Measured)
    (hSymbols : symbols.Bounded) :
    ∀ pair ∈ operands.zip form.operands,
      pair.1.written.fit pair.2 = .fits ∧ pair.1.written.Bounded symbols := by
  obtain ⟨-, -, hFits, hLiterals⟩ := h
  rintro ⟨operand, cls⟩ hMem
  exact ⟨List.forall₂_zip hFits hMem, hLiterals operand (List.of_mem_zip hMem).1, hSymbols⟩

/-- The operands of a form are built, resolved and written as some parts exactly when these are the
parts that they are to put there. -/
theorem parts_iff (h : (Command.instruction mnemonic form operands).Measured)
    (hSymbols : symbols.Bounded) {parts : List Bytes} :
    (∃ resolved,
        List.Forall₂ (fun pair operand => Settles symbols lineAt next pair.1 pair.2 operand)
          (operands.zip form.operands) resolved ∧ List.Forall₂ Emits resolved parts) ↔
      form.Parts symbols next operands parts := by
  rw [forall₂_comp]
  refine forall₂_iff_of_mem ?_
  intro pair hMem bytes
  obtain ⟨hFits, hBounded⟩ := h.pair hSymbols pair hMem
  exact yields_iff hFits hBounded

/-- Operands that are built and resolved have the keys of their classes, wait for nothing, and can
be written. -/
theorem settled_keys {pairs : List (WrittenOperand × OperandClass)} {resolved : List Operand}
    (hPairs : ∀ pair ∈ pairs,
      pair.1.written.fit pair.2 = .fits ∧ pair.1.written.Bounded symbols)
    (hSettled : List.Forall₂ (fun pair operand => Settles symbols lineAt next pair.1 pair.2 operand)
      pairs resolved) :
    MachineCode.keys resolved = .ok ((pairs.map Prod.snd).map OperandClass.key) ∧
      (∀ operand ∈ resolved, operand.isSymbol = false) ∧
      ∃ parts, List.Forall₂ Emits resolved parts := by
  induction hSettled with
  | nil => exact ⟨rfl, by simp, [], .nil⟩
  | @cons pair operand pairs resolved hSettles _ ih =>
    obtain ⟨hFits, hBounded⟩ := hPairs pair List.mem_cons_self
    obtain ⟨hKey, hSymbol, part, hPart⟩ := hSettles.yields hFits hBounded
    obtain ⟨hKeys, hSymbols, parts, hParts⟩ :=
      ih fun other hMem => hPairs other (List.mem_cons_of_mem pair hMem)
    refine ⟨?_, List.forall_mem_cons.2 ⟨hSymbol, hSymbols⟩, part :: parts, .cons hPart hParts⟩
    rw [MachineCode.keys, hKey]
    simp only [hKeys, List.map_cons]

/-- Operands that are built and resolved for a form are encoded as its opcode and their parts. -/
theorem encodeInstruction_settled (h : (Command.instruction mnemonic form operands).Measured)
    (hSymbols : symbols.Bounded) {resolved : List Operand} {parts : List Bytes}
    (hSettled : List.Forall₂ (fun pair operand => Settles symbols lineAt next pair.1 pair.2 operand)
      (operands.zip form.operands) resolved)
    (hParts : List.Forall₂ Emits resolved parts) (location : Location) :
    MachineCode.encodeInstruction location mnemonic resolved =
      .ok (form.opcode ++ parts.flatten) := by
  obtain ⟨hKeys, -, -⟩ := settled_keys (h.pair hSymbols) hSettled
  obtain ⟨hTable, rfl, hFits, -⟩ := h
  rw [hFits.map_snd_zip] at hKeys
  have hForm : Form.lookup? form.mnemonic.name (form.operands.map OperandClass.key) = some form :=
    Form.lookup?_keys hTable
  simp only [MachineCode.encodeInstruction, hKeys, hForm, payloads_of_emits hParts location]

/-! ## Items -/

/-- What a command puts into the output at an address. -/
inductive Encodes (symbols : SymbolTable) (address : Int) : Command → Bytes → Prop
  | instruction {mnemonic : String} {form : Form} {operands : List WrittenOperand}
    {parts : List Bytes} :
    form.Parts symbols (address + form.size) operands parts →
    Encodes symbols address (.instruction mnemonic form operands) (form.opcode ++ parts.flatten)
  | bytes {data : Bytes} : Encodes symbols address (.bytes data) data
  | string {data : StringData} : Encodes symbols address (.string data) data.payload
  | fill {count value : Int} :
    Encodes symbols address (.fill count value)
      (List.replicate count.toNat value.toNat.toUInt8)
  | origin {target value : Int} {targetLocation : Location} :
    Encodes symbols address (.origin target targetLocation value)
      (List.replicate (target - address).toNat value.toNat.toUInt8)
  | constant {name : String} {nameLocation : Location} {value : Int} :
    Encodes symbols address (.constant name nameLocation value) []
  | use {file : String} {fileLocation : Location} :
    Encodes symbols address (.use file fileLocation) []

/-- A command placed an item. -/
inductive Item.Placed (item : Item) : Command → Prop
  | content {command : Command} :
    Content.Of item.address command item.content → item.Placed command
  | constant {name : String} {nameLocation : Location} {value : Int} :
    item.content = .constant name value → item.Placed (.constant name nameLocation value)

/-- The writes of an item, in chunks of any size, are some bytes, as many as the item's size. -/
def Item.Delivers (item : Item) (bytes : Bytes) : Prop :=
  (bytes.length : Int) = item.size ∧ ∀ chunk, ∃ writes,
    MachineCode.itemWrites chunk item = .ok (writes, item.size) ∧ writes.flatten = bytes

/-- No operand of an item is a symbol. -/
def Item.Resolved (item : Item) : Prop :=
  ∀ mnemonic operands size, item.content = .instruction mnemonic operands size →
    ∀ operand ∈ operands, operand.isSymbol = false

/-- A run of a byte that fits in memory is delivered, whatever the chunk size. -/
theorem runWrites_ok (chunk : ChunkSize) {count value : Int} (hCount : count ≤ memorySize)
    (hValue : 0 ≤ value ∧ value ≤ 0xFF) :
    ∃ writes, MachineCode.runWrites chunk count value = .ok writes ∧
      writes.flatten = List.replicate count.toNat value.toNat.toUInt8 := by
  have hRun : ∃ writes, MachineCode.runWrites chunk count value = .ok writes := by
    unfold MachineCode.runWrites
    split
    · exact ⟨[], rfl⟩
    · have hLength : ¬Text.lengthLimit < (min count.toNat chunk.size : Nat) := by
        have hMemory : memorySize = 0x10000 := rfl
        unfold Text.lengthLimit
        omega
      rw [if_neg hLength]
      exact ⟨_, rfl⟩
  obtain ⟨writes, hRun⟩ := hRun
  exact ⟨writes, hRun, (MachineCode.runWrites_chunked hRun).flatten_eq⟩

theorem Item.Delivers.of_run {item : Item} {count value : Int} (hSize : item.size = count)
    (hWrites : ∀ chunk, MachineCode.itemWrites chunk item =
      match MachineCode.runWrites chunk count value with
      | .error fault => .error fault
      | .ok writes => .ok (writes, count))
    (hLow : 0 ≤ item.size) (hHigh : item.size ≤ memorySize) (hValue : 0 ≤ value ∧ value ≤ 0xFF) :
    item.Delivers (List.replicate count.toNat value.toNat.toUInt8) := by
  subst hSize
  refine ⟨?_, ?_⟩
  · rw [List.length_replicate]
    omega
  · intro chunk
    obtain ⟨writes, hRun, hFlat⟩ := runWrites_ok chunk hHigh hValue
    refine ⟨writes, ?_, hFlat⟩
    rw [hWrites, hRun]

theorem resolveItem_instruction_iff {location : Location} {address size : Int}
    {built : List Operand} {other : Item} :
    Assembly.resolveItem symbols lineAt ⟨location, address, .instruction mnemonic built size⟩ =
        .ok other ↔
      ∃ resolved, Assembly.resolveOperands symbols lineAt (address + size) built = .ok resolved ∧
        other = ⟨location, address, .instruction mnemonic resolved size⟩ := by
  simp only [Assembly.resolveItem]
  split
  · next resolved hResolved => simp [hResolved, eq_comm]
  · next hResolved => simp [hResolved]

/-- An item that a measured command placed delivers, once its symbols are resolved, what the command
puts into the output. -/
theorem Item.Placed.delivers {item other : Item} {command : Command} (h : item.Placed command)
    (hMeasured : command.Measured) (hSymbols : symbols.Bounded) (hLow : 0 ≤ item.size)
    (hHigh : item.size ≤ memorySize)
    (hResolve : Assembly.resolveItem symbols lineAt item = .ok other) :
    other.Resolved ∧
      ∃ bytes, Encodes symbols item.address command bytes ∧ other.Delivers bytes := by
  obtain ⟨location, address, content⟩ := item
  cases h with
  | constant hContent =>
    cases hContent
    cases hResolve
    exact ⟨nofun, [], .constant, rfl, fun chunk => ⟨[], rfl, rfl⟩⟩
  | content hContent =>
    cases hContent with
    | use =>
      cases hResolve
      exact ⟨nofun, [], .use, rfl, fun chunk => ⟨[], rfl, rfl⟩⟩
    | @bytes data =>
      cases hResolve
      exact ⟨nofun, data, .bytes, rfl, fun chunk => ⟨[data], rfl, List.append_nil data⟩⟩
    | @string data =>
      cases hResolve
      exact ⟨nofun, data.payload, .string, rfl,
        fun chunk => ⟨[data.payload], rfl, List.append_nil data.payload⟩⟩
    | @fill count value =>
      cases hResolve
      exact ⟨nofun, _, .fill, .of_run rfl (fun chunk => rfl) hLow hHigh hMeasured.2⟩
    | @origin target value _ hAhead =>
      cases hResolve
      exact ⟨nofun, _, .origin, .of_run rfl (fun chunk => rfl) hLow hHigh hMeasured⟩
    | @instruction mnemonic form operands built hBuilt =>
      obtain ⟨resolved, hOperands, rfl⟩ := resolveItem_instruction_iff.1 hResolve
      -- operands are built when the instruction is placed and resolved at the end; together they
      -- settle, operand by operand
      have hSettled := settled_iff.1 ⟨built, hBuilt, hOperands⟩
      obtain ⟨-, hNoSymbol, parts, hEmits⟩ := settled_keys (hMeasured.pair hSymbols) hSettled
      have hParts := (parts_iff hMeasured hSymbols).1 ⟨resolved, hSettled, hEmits⟩
      have hLength : ((form.opcode ++ parts.flatten).length : Int) = form.size := by
        rw [List.length_append, hParts.length_flatten hMeasured.2.2.1, Form.size]
      refine ⟨?_, form.opcode ++ parts.flatten, .instruction hParts, hLength, ?_⟩
      · intro _ _ _ hSame
        cases hSame
        exact hNoSymbol
      · intro chunk
        refine ⟨[form.opcode ++ parts.flatten], ?_, List.append_nil _⟩
        simp only [MachineCode.itemWrites,
          encodeInstruction_settled hMeasured hSymbols hSettled hEmits location, hLength, Item.size]

end

/-! ## Programs -/

/-- Items that deliver some bytes are accounted for, whatever the chunk size. -/
theorem accounted_of_delivers {items : List Item} {pieces : List Bytes}
    (h : List.Forall₂ Item.Delivers items pieces) (chunk : ChunkSize) :
    ∃ parts, List.Forall₂ (MachineCode.Accounted chunk) items parts ∧
      parts.map List.flatten = pieces := by
  induction h with
  | nil => exact ⟨[], .nil, rfl⟩
  | cons hFirst _ ih =>
    obtain ⟨writes, hWrites, rfl⟩ := hFirst.2 chunk
    obtain ⟨parts, hParts, rfl⟩ := ih
    exact ⟨writes :: parts, .cons hWrites hParts, rfl⟩

theorem generate_delivers {program : Program} {pieces : List Bytes}
    (h : List.Forall₂ Item.Delivers program.items pieces) (chunk : ChunkSize) :
    ∃ event, MachineCode.generate chunk program = .ok (pieces.flatten, event) := by
  obtain ⟨parts, hParts, rfl⟩ := accounted_of_delivers h chunk
  unfold MachineCode.generate
  simp only [MachineCode.deliver_accounted hParts, List.flatten_flatten]
  exact ⟨_, rfl⟩

theorem length_pieces {items : List Item} {pieces : List Bytes}
    (h : List.Forall₂ Item.Delivers items pieces) :
    (pieces.flatten.length : Int) = totalSize items := by
  induction h with
  | nil => rfl
  | @cons item piece items pieces hFirst _ ih =>
    rw [List.flatten_cons, List.length_append, Int.natCast_add, ih, hFirst.1, totalSize_cons]

theorem Item.Delivers.unique {item : Item} {bytes others : Bytes} (h : item.Delivers bytes)
    (hOthers : item.Delivers others) : bytes = others := by
  obtain ⟨writes, hWrites, rfl⟩ := h.2 .standard
  obtain ⟨writes', hWrites', rfl⟩ := hOthers.2 .standard
  rw [hWrites] at hWrites'
  cases hWrites'
  rfl

/-- The bytes of an item stand in the output at its address. -/
theorem Program.Laid.split_pieces {program : Program} (h : program.Laid) {pieces : List Bytes}
    (hPieces : List.Forall₂ Item.Delivers program.items pieces) {item : Item}
    (hMem : item ∈ program.items) :
    ∃ front piece back, item.Delivers piece ∧ pieces.flatten = front ++ piece ++ back ∧
      (front.length : Int) = item.address := by
  obtain ⟨before, after, hItems⟩ := List.append_of_mem hMem
  rw [hItems] at hPieces
  have hFront := List.forall₂_take before.length hPieces
  have hTail := List.forall₂_drop before.length hPieces
  rw [List.take_left] at hFront
  rw [List.drop_left, List.forall₂_cons_left_iff] at hTail
  obtain ⟨piece, back, hPiece, -, hDrop⟩ := hTail
  refine ⟨(pieces.take before.length).flatten, piece, back.flatten, hPiece, ?_, ?_⟩
  · calc pieces.flatten = (pieces.take before.length ++ pieces.drop before.length).flatten := by
          rw [List.take_append_drop]
      _ = (pieces.take before.length).flatten ++ piece ++ back.flatten := by simp [hDrop]
  · rw [length_pieces hFront, h.address_eq before item after hItems]

/-- An item lies in memory from its address to its end. -/
theorem Program.Laid.extent {program : Program} (h : program.Laid) {item : Item}
    (hMem : item ∈ program.items) :
    0 ≤ item.address ∧ item.address + item.size ≤ memorySize := by
  obtain ⟨before, after, hItems⟩ := List.append_of_mem hMem
  have hAddress := h.address_eq before item after hItems
  have hSizes := h.size_nonneg
  rw [hItems] at hSizes
  have hBefore := totalSize_nonneg fun other hOther => hSizes other (List.mem_append_left _ hOther)
  have hAfter := totalSize_nonneg fun other hOther =>
    hSizes other (List.mem_append_right _ (List.mem_cons_of_mem item hOther))
  have hTotal := h.location_eq
  rw [hItems, totalSize_append, totalSize_cons] at hTotal
  have hEnd := h.location_le
  omega

theorem Program.Laid.size_le {program : Program} (h : program.Laid) {item : Item}
    (hMem : item ∈ program.items) : item.size ≤ memorySize := by
  obtain ⟨hLow, hHigh⟩ := h.extent hMem
  omega

theorem Program.Laid.bounded {program : Program} (h : program.Laid) :
    program.symbols.Bounded := by
  intro name symbol hLookup
  have hMem : symbol ∈ program.symbols.symbols :=
    List.mem_reverse.2 (List.mem_of_find?_eq_some hLookup)
  exact h.value_range symbol hMem

/-- A command whose numbers fit placed an item. -/
def Item.Sound (item : Item) : Prop := ∃ command : Command, command.Measured ∧ item.Placed command

theorem Effect.sound {location : Location} {program after : Program} {command : Command}
    (h : Effect location program command after) (hMeasured : command.Measured)
    (hSound : ∀ item ∈ program.items, item.Sound) : ∀ item ∈ after.items, item.Sound := by
  have hConcat {item : Item} (hItem : item.Sound) :
      ∀ other ∈ program.items ++ [item], other.Sound := by
    intro other hMem
    rcases List.mem_append.1 hMem with hMem | hMem
    · exact hSound other hMem
    · rw [List.mem_singleton.1 hMem]
      exact hItem
  cases h with
  | blank | endInclude | sectionMark | label => exact hSound
  | place hContent _ =>
    rw [Program.items_append]
    exact hConcat ⟨_, hMeasured, .content hContent⟩
  | constant =>
    rw [Program.items_append]
    exact hConcat ⟨_, hMeasured, .constant rfl⟩

/-- Items that measured commands placed, once resolved, deliver their bytes. -/
theorem Program.Laid.delivers {program : Program} (h : program.Laid)
    (hSound : ∀ item ∈ program.items, item.Sound) {lineAt : Location → Option String}
    {items : List Item}
    (hResolve : Assembly.Resolving program.symbols lineAt program.items items) :
    (∀ item ∈ items, item.Resolved) ∧ ∃ pieces, List.Forall₂ Item.Delivers items pieces := by
  have hEach : ∀ item ∈ program.items, ∀ other,
      Assembly.resolveItem program.symbols lineAt item = .ok other →
        other.Resolved ∧ ∃ bytes, other.Delivers bytes := by
    intro item hMem other hOther
    obtain ⟨command, hMeasured, hPlaced⟩ := hSound item hMem
    obtain ⟨hResolved, bytes, -, hDelivers⟩ := hPlaced.delivers hMeasured h.bounded
      (h.size_nonneg item hMem) (h.size_le hMem) hOther
    exact ⟨hResolved, bytes, hDelivers⟩
  -- layout and symbols are those of the whole program, so only the items vary in the induction
  generalize program.items = originals at hResolve hEach
  induction hResolve with
  | nil => exact ⟨by simp, [], .nil⟩
  | @cons item other rest others hFirst _ ih =>
    obtain ⟨hResolved, piece, hPiece⟩ := hEach item List.mem_cons_self other hFirst
    obtain ⟨hRest, pieces, hPieces⟩ := ih fun next hMem => hEach next (List.mem_cons_of_mem _ hMem)
    exact ⟨List.forall_mem_cons.2 ⟨hResolved, hRest⟩, piece :: pieces, .cons hPiece hPieces⟩

namespace Assembly
variable {surroundings : Surroundings}

theorem Reaches.sound {first state : State} (h : Reaches surroundings first state)
    (hLive : first.Live) (hSound : ∀ item ∈ first.program.items, item.Sound) :
    ∀ item ∈ state.program.items, item.Sound := by
  induction h with
  | refl => exact hSound
  | tail hReaches hStep ih =>
    obtain ⟨_, _, _, hReads, hEffect⟩ := hStep.effect
    exact hEffect.sound (hReads.measured (Reaches.live hReaches hLive)) ih

/-- An assembly that succeeds: its run ends with no token left, its items are sound and laid out,
and the program is what resolution makes of them. -/
structure Assembles (surroundings : Surroundings) (source : Source) (first last : State)
    (program : Program) : Prop where
  start_eq : start surroundings source = .ok first
  live : first.Live
  reaches : Reaches surroundings first last
  finished : last.tokens = []
  laid : last.program.Laid
  sound : ∀ item ∈ last.program.items, item.Sound
  resolves : ∃ items, program = last.program.withItems items ∧
    Resolving last.program.symbols last.lineAt last.program.items items

theorem assembles {text file : String} {source : Source} {program : Program}
    (hScan : scan text file = .ok source.tokens)
    (h : (assemble surroundings source).result = .ok program) :
    ∃ first last, Assembles surroundings source first last program := by
  obtain ⟨first, last, after, hStart, hRun, hResolve, hProgram⟩ := assemble_ok_iff.1 h
  have hLive := start_live (scan_scanned hScan) hStart
  have hReaches := run_reaches surroundings (budgetFor surroundings first) first
  rw [hRun] at hReaches
  obtain ⟨items, hItems, hAll⟩ := resolve_ok_iff.1 ⟨after, hResolve, hProgram⟩
  have hEmpty : ∀ item ∈ first.program.items, item.Sound := by
    intro item hMem
    rw [Program.items, (start_ok hStart).2.1] at hMem
    exact absurd hMem List.not_mem_nil
  exact ⟨first, last, hStart, hLive, hReaches, run_finished hRun,
    hReaches.laid hLive (start_laid hStart), hReaches.sound hLive hEmpty, items, hAll, hItems⟩

theorem Assembles.program_laid {source : Source} {first last : State} {program : Program}
    (h : Assembles surroundings source first last program) : program.Laid := by
  obtain ⟨items, rfl, hItems⟩ := h.resolves
  refine h.laid.of_extents ?_ rfl rfl
  rw [Program.items_withItems, resolveItems_extents hItems]

theorem Assembles.pieces {source : Source} {first last : State} {program : Program}
    (h : Assembles surroundings source first last program) :
    (∀ item ∈ program.items, item.Resolved) ∧
      ∃ pieces, List.Forall₂ Item.Delivers program.items pieces := by
  obtain ⟨items, rfl, hItems⟩ := h.resolves
  rw [Program.items_withItems]
  exact h.laid.delivers h.sound hItems

/-- Every program that assembles can be encoded. No symbol is left in it, each item emits as many
bytes as its size says, they stand in the output at its address, and the output ends where the
location counter does. -/
theorem generate_assembled {text file : String} {source : Source} {program : Program}
    (hScan : scan text file = .ok source.tokens)
    (h : (assemble surroundings source).result = .ok program) (chunk : ChunkSize) :
    ∃ code event, MachineCode.generate chunk program = .ok (code, event) ∧
      (∀ item ∈ program.items, item.Resolved) ∧
      (∀ item ∈ program.items, 0 ≤ item.address ∧ 0 ≤ item.size ∧
        ∃ writes, MachineCode.itemWrites chunk item = .ok (writes, item.size) ∧
          (writes.flatten.length : Int) = item.size ∧
          (code.drop item.address.toNat).take item.size.toNat = writes.flatten) ∧
      (code.length : Int) = program.location ∧ program.location ≤ 0x10000 := by
  obtain ⟨first, last, hAssembles⟩ := assembles hScan h
  have hLaid := hAssembles.program_laid
  obtain ⟨hResolved, pieces, hPieces⟩ := hAssembles.pieces
  obtain ⟨event, hGenerate⟩ := generate_delivers hPieces chunk
  refine ⟨pieces.flatten, event, hGenerate, hResolved, ?_, ?_, hLaid.location_le⟩
  · intro item hMem
    obtain ⟨front, piece, back, ⟨hLength, hWrites⟩, hFlat, hAddress⟩ :=
      hLaid.split_pieces hPieces hMem
    obtain ⟨writes, hItem, rfl⟩ := hWrites chunk
    refine ⟨by omega, hLaid.size_nonneg item hMem, writes, hItem, hLength, ?_⟩
    have hStart : item.address.toNat = front.length := by omega
    have hSize : item.size.toNat = writes.flatten.length := by omega
    rw [hFlat, hStart, hSize, List.append_assoc, List.drop_left, List.take_left]
  · rw [length_pieces hPieces]
    exact hLaid.location_eq.symm

/-- A program with a reference forward and a run of three bytes in chunks of two. -/
theorem generate_assembled_forward :
    ∃ tokens program, scan "ld hl, end\n.fill 3, 7\nend: jr end\n" "<input>" = .ok tokens ∧
      (assemble ⟨.empty, [], none⟩ ⟨tokens, "<input>", none, .empty⟩).result = .ok program ∧
      program.location = 8 ∧
      ∃ code event, MachineCode.generate ⟨2, by decide⟩ program = .ok (code, event) ∧
        (code.length : Int) = 8 := by
  have hRun : ((scan "ld hl, end\n.fill 3, 7\nend: jr end\n" "<input>").toOption.map fun tokens =>
      (assemble ⟨.empty, [], none⟩ ⟨tokens, "<input>", none, .empty⟩).result.toOption.map
        Program.location) = some (some 8) := by decide +kernel
  obtain ⟨tokens, hScan, hRun⟩ := Option.map_eq_some_iff.1 hRun
  obtain ⟨program, hAssemble, hLocation⟩ := Option.map_eq_some_iff.1 hRun
  have hScan := eq_ok_of_toOption hScan
  have hAssemble := eq_ok_of_toOption hAssemble
  obtain ⟨code, event, hGenerate, -, -, hLength, -⟩ :=
    generate_assembled hScan hAssemble
      ⟨2, by decide⟩
  exact ⟨tokens, program, hScan, hAssemble, hLocation, code, event, hGenerate,
    hLength.trans hLocation⟩

/-- The bytes of a program that assembles are the same in chunks of any size, and as many as the
total says. Each run is delivered in full chunks and at most one that is shorter and not empty. -/
theorem deliver_assembled {text file : String} {source : Source} {program : Program}
    (hScan : scan text file = .ok source.tokens)
    (h : (assemble surroundings source).result = .ok program) :
    ∃ code : Bytes, ∀ chunk : ChunkSize, ∃ parts : List (List Bytes),
      MachineCode.deliver chunk program = ⟨parts.flatten, .ok code.length⟩ ∧
      parts.flatten.flatten = code ∧
      List.Forall₂ (fun item writes =>
        MachineCode.itemWrites chunk item = .ok (writes, item.size) ∧
        (writes.flatten.length : Int) = item.size ∧
        ∀ count value, item.run? = some (count, value) →
          MachineCode.Chunked chunk count value writes) program.items parts := by
  obtain ⟨first, last, hAssembles⟩ := assembles hScan h
  have hSizes := hAssembles.program_laid.size_nonneg
  obtain ⟨-, pieces, hPieces⟩ := hAssembles.pieces
  refine ⟨pieces.flatten, ?_⟩
  intro chunk
  obtain ⟨parts, hParts, rfl⟩ := accounted_of_delivers hPieces chunk
  refine ⟨parts, ?_, List.flatten_flatten, ?_⟩
  · rw [MachineCode.deliver_accounted hParts, length_pieces hPieces]
  · refine ((List.forall₂_and_left _ _).2 ⟨hSizes, hParts⟩).imp ?_
    rintro item writes ⟨hSize, hWrites⟩
    refine ⟨hWrites, (MachineCode.length_itemWrites hWrites).trans (Int.max_eq_right hSize), ?_⟩
    intro count value hRun
    obtain ⟨rfl, hChunked⟩ := MachineCode.itemWrites_chunked hRun hWrites
    rw [Int.max_eq_right hSize] at hChunked
    exact hChunked

/-- Ten bytes and then three, in chunks of four and of any other size. -/
theorem deliver_assembled_runs :
    ∃ tokens program, scan ".fill 10, 7\n.org 13, 1\n" "<input>" = .ok tokens ∧
      (assemble ⟨.empty, [], none⟩ ⟨tokens, "<input>", none, .empty⟩).result = .ok program ∧
      (MachineCode.deliver ⟨4, by decide⟩ program).writes.map List.length = [4, 4, 2, 3] ∧
      ∃ code : Bytes, ∀ chunk, (MachineCode.deliver chunk program).total = .ok code.length ∧
        (MachineCode.deliver chunk program).writes.flatten = code := by
  have hRun : ((scan ".fill 10, 7\n.org 13, 1\n" "<input>").toOption.map fun tokens =>
      (assemble ⟨.empty, [], none⟩ ⟨tokens, "<input>", none, .empty⟩).result.toOption.map
        fun program => (MachineCode.deliver ⟨4, by decide⟩ program).writes.map List.length) =
      some (some [4, 4, 2, 3]) := by decide +kernel
  obtain ⟨tokens, hScan, hRun⟩ := Option.map_eq_some_iff.1 hRun
  obtain ⟨program, hAssemble, hWrites⟩ := Option.map_eq_some_iff.1 hRun
  have hScan := eq_ok_of_toOption hScan
  have hAssemble := eq_ok_of_toOption hAssemble
  obtain ⟨code, hCode⟩ := deliver_assembled hScan hAssemble
  refine ⟨tokens, program, hScan, hAssemble, hWrites, code, ?_⟩
  intro chunk
  obtain ⟨parts, hDeliver, hFlat, -⟩ := hCode chunk
  rw [hDeliver]
  exact ⟨rfl, hFlat⟩

end Assembly
end Lr35902
