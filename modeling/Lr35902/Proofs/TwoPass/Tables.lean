import Lr35902.Proofs.TwoPass.Passes

/-!
What the two passes need to know of a table, and of the clauses before others. A table in which all
names keep their values leaves the bytes of a clause as they are (`encode?_mono`); so the order of
the definitions makes no difference to the second pass, nor do further ones. Clauses that follow
others start where these end (`addressed_append`), which is within the address space
(`reached_le`) and where their bytes end (`Encoded.reached_eq`).
-/
namespace Lr35902.TwoPass

/-! ## Tables -/

/-- Whatever has a value in a table has it in another one. -/
def Extends (table other : List Definition) : Prop :=
  ∀ name value, valueOf? table name = some value → valueOf? other name = some value

section
variable {table other : List Definition}

theorem valueOf?_of_mem {name : String} {value : Int} {isConstant : Bool}
    (hDistinct : (table.map Definition.name).Nodup) (h : ⟨name, value, isConstant⟩ ∈ table) :
    valueOf? table name = some value := by
  have hFound : (table.find? fun entry => entry.name == name) = some ⟨name, value, isConstant⟩ := by
    refine find?_eq_some_of_unique h (beq_self_eq_true name) ?_
    intro entry hEntry hName
    exact List.inj_on_of_nodup_map hDistinct hEntry h (beq_iff_eq.1 hName)
  rw [valueOf?, hFound]
  rfl

theorem extends_of_subset (hDistinct : (other.map Definition.name).Nodup) (h : table ⊆ other) :
    Extends table other := by
  intro name value hValue
  obtain ⟨entry, hFound, rfl⟩ := Option.map_eq_some_iff.1 hValue
  have hMem := h (List.mem_of_find?_eq_some hFound)
  have hName : entry.name = name := by simpa using List.find?_some hFound
  rw [← hName]
  exact valueOf?_of_mem hDistinct hMem

theorem part?_mono (h : Extends table other) {next : Int} {cls : OperandClass} {written : Written}
    {bytes : Bytes} (hPart : part? table next cls written = some bytes) :
    part? other next cls written = some bytes := by
  unfold part? at hPart ⊢
  split
  · next hImplied => rwa [if_pos hImplied] at hPart
  · next hSlot =>
    rw [if_neg hSlot] at hPart
    obtain ⟨value, hValue, hBytes⟩ := Option.bind_eq_some_iff.1 hPart
    refine Option.bind_eq_some_iff.2 ⟨value, ?_, hBytes⟩
    -- only names are looked up
    cases written with
    | name word | addressName word => exact h word value hValue
    | _ => exact hValue

theorem encode?_mono (h : Extends table other) {clause : Clause} {address : Int} {bytes : Bytes}
    (hEncode : clause.encode? table address = some bytes) :
    clause.encode? other address = some bytes := by
  cases clause with
  | instruction form operands =>
    simp only [Clause.encode?, Option.bind_eq_bind, Option.bind_eq_some_iff] at hEncode ⊢
    obtain ⟨parts, hParts, hBytes⟩ := hEncode
    refine ⟨parts, ?_, hBytes⟩
    rw [mapM_eq_some_iff] at hParts ⊢
    exact hParts.imp fun _ _ hPart => part?_mono h hPart
  | _ => exact hEncode

/-- The bytes of an instruction depend on the values of its operands only. -/
theorem encode?_congr (form : Form) {operands others : List Written}
    (h : operands.map (operandValue? table) = others.map (operandValue? other)) (address : Int) :
    (Clause.instruction form operands).encode? table address =
      (Clause.instruction form others).encode? other address := by
  have hParts (table : List Definition) (operands : List Written) :
      ((form.operands.zip operands).mapM fun pair =>
          part? table (address + form.size) pair.1 pair.2) =
        (form.operands.zip (operands.map (operandValue? table))).mapM fun pair =>
          if pair.1.size = 0 then some []
          else pair.2.bind (slot? pair.1 (address + form.size)) := by
    rw [List.zip_map_right, List.mapM_map]
    rfl
  simp only [Clause.encode?, hParts, h]

theorem Encoded.mono {placed : List (Int × Clause)} {parts : List Bytes}
    (h : Encoded table placed parts) (hExtends : Extends table other) :
    Encoded other placed parts :=
  h.imp fun _ _ hEncode => encode?_mono hExtends hEncode

/-- The order of the definitions makes no difference to the bytes. -/
theorem encoded_perm (h : table.Perm other) (hDistinct : (table.map Definition.name).Nodup)
    {placed : List (Int × Clause)} {parts : List Bytes} :
    Encoded table placed parts ↔ Encoded other placed parts := by
  have hOther : (other.map Definition.name).Nodup :=
    (h.map Definition.name).nodup_iff.1 hDistinct
  constructor
  · intro hEncoded
    exact hEncoded.mono (extends_of_subset hOther h.subset)
  · intro hEncoded
    exact hEncoded.mono (extends_of_subset hDistinct h.symm.subset)

/-- The names and addresses of the labels in a table. -/
def labelsOf (table : List Definition) : NameMap Int :=
  ⟨(table.filter fun entry => !entry.isConstant).map fun entry => (entry.name, entry.value)⟩

theorem labels_eq (program : Program) :
    program.symbols.labels = labelsOf (definitionsOf program) := by
  simp only [SymbolTable.labels, labelsOf, definitionsOf, List.filter_map, List.map_map]
  rfl

end

/-! ## Clauses one after the other -/

/-- The address after clauses that start at one. -/
def reached (address : Int) : List Clause → Int
  | [] => address
  | clause :: rest => reached (address + clause.size address) rest

theorem addressed_append (address : Int) (clauses more : List Clause) :
    addressed address (clauses ++ more) =
      addressed address clauses ++ addressed (reached address clauses) more := by
  induction clauses generalizing address with
  | nil => rfl
  | cons clause clauses ih => simp only [List.cons_append, addressed, reached, ih]

theorem definedIn_append (placed more : List (Int × Clause)) :
    definedIn (placed ++ more) = definedIn placed ++ definedIn more :=
  List.filterMap_append

/-- Clauses that may stand at their addresses do not leave the address space. -/
theorem reached_le {address : Int} {clauses : List Clause} (hAddress : address ≤ 0x10000)
    (h : ∀ place ∈ addressed address clauses, place.2.admissible place.1 = true) :
    reached address clauses ≤ 0x10000 := by
  induction clauses generalizing address with
  | nil => exact hAddress
  | cons clause clauses ih =>
    obtain ⟨hHere, hRest⟩ := List.forall_mem_cons.1 h
    exact ih (admissible_iff.1 hHere).1 hRest

theorem Encoded.split {table : List Definition} {placed more : List (Int × Clause)}
    {parts : List Bytes} (h : Encoded table (placed ++ more) parts) :
    ∃ front back, parts = front ++ back ∧ Encoded table placed front ∧ Encoded table more back :=
  ⟨parts.take placed.length, parts.drop placed.length, (List.take_append_drop _ _).symm,
    (List.forall₂_take_append _ _ _ h.flip).flip, (List.forall₂_drop_append _ _ _ h.flip).flip⟩

/-! ## Sizes -/

theorem length_slot? {cls : OperandClass} {next value : Int} {bytes : Bytes}
    (h : slot? cls next value = some bytes) : bytes.length = cls.size := by
  cases cls with
  | byte | relative =>
    simp only [slot?] at h
    split at h
    · cases h
      rfl
    · cases h
  | high =>
    simp only [slot?] at h
    split at h
    · cases h
      rfl
    · split at h
      · cases h
        rfl
      · cases h
  | _ =>
    cases h
    rfl

theorem length_part? {table : List Definition} {next : Int} {cls : OperandClass}
    {written : Written} {bytes : Bytes} (h : part? table next cls written = some bytes) :
    bytes.length = cls.size := by
  unfold part? at h
  split at h
  · next hImplied =>
    cases h
    exact hImplied.symm
  · obtain ⟨value, -, hSlot⟩ := Option.bind_eq_some_iff.1 h
    exact length_slot? hSlot

theorem length_parts? {table : List Definition} {next : Int} {pairs : List (OperandClass × Written)}
    {parts : List Bytes}
    (h : List.Forall₂ (fun pair part => part? table next pair.1 pair.2 = some part) pairs parts) :
    parts.flatten.length = OperandClass.payloadSize (pairs.map Prod.fst) :=
  OperandClass.length_flatten (List.forall₂_map_left_iff.2 (h.imp fun _ _ => length_part?))

/-- A clause has as many bytes as the first pass reckons with. -/
theorem length_encode? {command : Command} {clause : Clause} (hMeasured : command.Measured)
    (hClause : ofCommand command = [clause]) {address : Int}
    (hAdmissible : clause.admissible address = true) {table : List Definition} {bytes : Bytes}
    (h : clause.encode? table address = some bytes) :
    (bytes.length : Int) = clause.size address := by
  cases command with
  | blank | endInclude | use => cases hClause
  | label | constant | sectionMark | bytes | string =>
    cases hClause
    cases h
    rfl
  | fill count value =>
    cases hClause
    cases h
    rw [List.length_replicate]
    exact Int.toNat_of_nonneg hMeasured.1
  | origin target place value =>
    cases hClause
    cases h
    rw [List.length_replicate]
    exact Int.toNat_of_nonneg (Int.sub_nonneg_of_le ((admissible_iff.1 hAdmissible).2.2 _ _ rfl))
  | instruction mnemonic form operands =>
    cases hClause
    obtain ⟨-, -, hFits, -⟩ := hMeasured
    simp only [Clause.encode?, Option.bind_eq_bind, Option.bind_eq_some_iff] at h
    obtain ⟨parts, hParts, hBytes⟩ := h
    cases hBytes
    have hLength : form.operands.length ≤ (operands.map WrittenOperand.written).length := by
      rw [List.length_map, hFits.length_eq]
    rw [List.length_append, length_parts? (mapM_eq_some_iff.1 hParts), List.map_fst_zip hLength]
    rfl

/-- Whatever bytes a clause has at an address, they are as many as its size. -/
def Clause.Sized (address : Int) (clause : Clause) : Prop :=
  ∀ table bytes, clause.encode? table address = some bytes →
    (bytes.length : Int) = clause.size address

theorem mem_of_addressed {address : Int} {clauses : List Clause} {place : Int × Clause}
    (h : place ∈ addressed address clauses) : place.2 ∈ clauses := by
  induction clauses generalizing address with
  | nil => cases h
  | cons clause clauses ih =>
    rcases List.mem_cons.1 h with rfl | hLater
    · exact List.mem_cons_self
    · exact List.mem_cons_of_mem _ (ih hLater)

/-- Statements that are measured have clauses of the sizes that the first pass reckons with. -/
theorem sized_of_measured {statements : List Statement}
    (hMeasured : ∀ statement ∈ statements, statement.command.Measured)
    (hAdmissible : ∀ place ∈ addressed 0 (clausesOf statements),
      place.2.admissible place.1 = true) :
    ∀ place ∈ addressed 0 (clausesOf statements), place.2.Sized place.1 := by
  intro place hPlace table bytes hBytes
  obtain ⟨statement, hStatement, hMem⟩ := List.mem_flatMap.1 (mem_of_addressed hPlace)
  rcases ofCommand_cases statement.command with hNone | ⟨clause, hClause⟩
  · rw [hNone] at hMem
    cases hMem
  · rw [hClause, List.mem_singleton] at hMem
    rw [← hMem] at hClause
    exact length_encode? (hMeasured statement hStatement) hClause (hAdmissible place hPlace) hBytes

/-- Clauses at their addresses, and the bytes of them all, end at the same address, and no clause
stands beyond it. -/
theorem Encoded.reached_eq {table : List Definition} {address : Int} {clauses : List Clause}
    {parts : List Bytes} (h : Encoded table (addressed address clauses) parts)
    (hSized : ∀ place ∈ addressed address clauses, place.2.Sized place.1) :
    reached address clauses = address + parts.flatten.length ∧
      ∀ place ∈ addressed address clauses, place.1 ≤ address + parts.flatten.length := by
  induction clauses generalizing address parts with
  | nil =>
    cases h
    exact ⟨(Int.add_zero _).symm, List.forall_mem_nil _⟩
  | cons clause clauses ih =>
    obtain ⟨part, parts, hPart, hParts, rfl⟩ := List.forall₂_cons_left_iff.1 h
    obtain ⟨hHere, hLater⟩ := List.forall_mem_cons.1 hSized
    have hSize := hHere table part hPart
    obtain ⟨hReached, hPlaces⟩ := ih hParts hLater
    have hLength : address + ((part :: parts).flatten.length : Int) =
        address + clause.size address + parts.flatten.length := by
      rw [List.flatten_cons, List.length_append, Int.natCast_add, hSize, Int.add_assoc]
    rw [hLength]
    refine ⟨hReached, List.forall_mem_cons.2 ⟨?_, hPlaces⟩⟩
    simp only at hSize ⊢
    omega

/-- The bytes of clauses fit into the address space, and no clause stands after them. -/
theorem Output.address_le {defines : List (String × Int)} {statements : List Statement}
    {code : Bytes} {table : List Definition}
    (h : Output defines (clausesOf statements) code table)
    (hMeasured : ∀ statement ∈ statements, statement.command.Measured) :
    code.length ≤ 0x10000 ∧
      ∀ place ∈ addressed 0 (clausesOf statements), place.1 ≤ code.length := by
  obtain ⟨hAdmissible, -, -, parts, hParts, rfl⟩ := h
  obtain ⟨hReached, hPlaces⟩ := hParts.reached_eq (sized_of_measured hMeasured hAdmissible)
  have hEnd := reached_le (by decide) hAdmissible
  rw [Int.zero_add] at hReached hPlaces
  refine ⟨?_, hPlaces⟩
  omega

end Lr35902.TwoPass
