import Lr35902.MachineCode
import Lr35902.Proofs.Measured
import Lr35902.Assembly.Resolve

/-!
What a written operand puts into the output. An operand class either fixes its operand, and the
opcode implies it, or it is a slot that a number fills (`OperandClass.role`). A number in a slot is
the value of a literal or of a symbol; `NumberKind.Holds` says what the bytes of each kind of slot
have to do with that value. Building an operand, resolving it and writing its payload yields some
bytes exactly when they hold the value of what is written (`yields_iff`), and whatever has been
built and resolved can be written (`Settles.yields`).
-/
namespace Lr35902

/-! ## The roles of operand classes -/

/-- What an operand of a class is: a number that fills a slot after the opcode, or an operand that
the opcode implies. -/
inductive OperandClass.Role where
  | slot (kind : NumberKind)
  | implied (operand : Operand)

def OperandClass.role : OperandClass → Role
  | .register r => .implied (.name .register (.word r.name))
  | .pair p => .implied (.name .pair (.word p.name))
  | .condition k => .implied (.name .condition (.word k.name))
  | .highC => .implied (.name .indirect (.word Register.c.name))
  | .through p => .implied (.name .indirectPair (.word p.name))
  | .bit i => .implied (.number .bit (.number i.val))
  | .vector i => .implied (.number .vector (.number (8 * i.val)))
  | .byte => .slot .immediate8
  | .word => .slot .immediate16
  | .high => .slot .address8
  | .memory => .slot .address16
  | .relative => .slot .relative

section
variable {cls : OperandClass} {kind : NumberKind} {implied : Operand}

theorem WrittenOperand.build_slot (h : cls.role = .slot kind) (operand : WrittenOperand)
    (next : Int) : operand.build cls next = operand.fill kind next := by
  cases cls <;> cases h <;> rfl

theorem WrittenOperand.build_implied (h : cls.role = .implied implied) (operand : WrittenOperand)
    (next : Int) : operand.build cls next = .ok implied := by
  cases cls <;> cases h <;> rfl

theorem OperandClass.key?_implied (h : cls.role = .implied implied) :
    implied.key? = .ok cls.key := by
  have hBit : ∀ i : Fin 8, Operand.key? (.number .bit (.number i.val)) = .ok (bitText i) := by
    decide +kernel
  have hVector : ∀ i : Fin 8,
      Operand.key? (.number .vector (.number (8 * i.val))) = .ok (vectorText i) := by
    decide +kernel
  cases cls <;> cases h
  case bit i => exact hBit i
  case vector i => exact hVector i
  all_goals rfl

theorem OperandClass.key?_slot (h : cls.role = .slot kind) (value : OperandValue) :
    Operand.key? (.number kind value) = .ok cls.key := by
  cases cls <;> cases h <;> rfl

end

/-! ## What slots hold -/

/-- The value that an operand is written with: a literal, or the value of the symbol it names. -/
def Written.meaning? (symbols : SymbolTable) : Written → Option Int
  | .number value | .address value => some value
  | .name word | .addressName word => (symbols.lookup? word).map Symbol.value
  | _ => none

/-- The number that a slot of a kind keeps for a value, in an instruction that ends at `next`. -/
def NumberKind.Stores (kind : NumberKind) (next value number : Int) : Prop :=
  match kind with
  | .immediate8 => value ≤ 0xFF ∧ number = value
  | .address8 => highOffset? value = some number
  | .relative => (-128 ≤ number ∧ number ≤ 127) ∧ number = value - next
  | .immediate16 | .address16 | .bit | .vector => number = value

/-- The bytes in a slot of a kind hold a value, in an instruction that ends at `next`: a byte; a
word, its low byte first; an offset in the high page; a signed displacement from the end of the
instruction. -/
def NumberKind.Holds (kind : NumberKind) (next value : Int) (bytes : Bytes) : Prop :=
  match kind with
  | .immediate8 => ∃ b : UInt8, bytes = [b] ∧ value = b.toNat
  | .immediate16 | .address16 =>
    ∃ low high : UInt8, bytes = [low, high] ∧ value = low.toNat + 256 * high.toNat
  | .address8 => ∃ b : UInt8, bytes = [b] ∧ (value = b.toNat ∨ value = 0xFF00 + b.toNat)
  | .relative => ∃ b : UInt8, bytes = [b] ∧ next + b.toInt8.toInt = value
  | .bit | .vector => bytes = []

theorem NumberKind.convert_ok_iff {kind : NumberKind} (referent : Referent) {next number : Int} :
    kind.convert referent next = .ok number ↔ kind.Stores next referent.value number := by
  cases kind with
  | immediate8 =>
    simp only [convert, Stores]
    split
    · next hWide =>
      simp only [reduceCtorEq, false_iff, not_and]
      intro hNarrow
      omega
    · next hNarrow =>
      rw [Except.ok.injEq, eq_comm]
      exact ⟨fun h => ⟨Int.not_lt.1 hNarrow, h⟩, And.right⟩
  | address8 =>
    simp only [convert, Stores]
    split
    · next offset hOffset => rw [hOffset, Except.ok.injEq, Option.some.injEq]
    · next hNone => simp [hNone]
  | relative =>
    simp only [convert, Stores]
    split
    · next hRange =>
      rw [Except.ok.injEq]
      constructor
      · rintro rfl
        exact ⟨hRange, rfl⟩
      · exact fun h => h.2.symm
    · next hRange =>
      simp only [reduceCtorEq, false_iff]
      rintro ⟨hNear, rfl⟩
      exact hRange hNear
  | immediate16 | address16 | bit | vector =>
    simp only [convert, Stores, Except.ok.injEq]
    exact eq_comm

/-! ## Payloads -/

theorem toUInt8_eq_iff {n : Nat} (h : n < 256) {b : UInt8} : n.toUInt8 = b ↔ n = b.toNat := by
  constructor
  · rintro rfl
    exact (UInt8.toNat_ofNat_of_lt h).symm
  · rintro rfl
    exact UInt8.ofNat_toNat

/-- The value of a byte in two's complement. -/
theorem signed_eq (b : UInt8) :
    b.toInt8.toInt = if b.toNat < 128 then (b.toNat : Int) else b.toNat - 256 := by
  have hInt : b.toInt8.toInt = b.toBitVec.toInt := rfl
  rw [hInt, BitVec.toInt_eq_toNat_cond, UInt8.toNat_toBitVec]
  omega

namespace MachineCode

theorem payload_byte_iff {kind : NumberKind} (hKind : kind = .immediate8 ∨ kind = .address8)
    {number : Int} {bytes : Bytes} :
    payload kind (.number number) = .ok bytes ↔
      ∃ b : UInt8, bytes = [b] ∧ number = b.toNat := by
  have hPayload : payload kind (.number number) =
      if 0 ≤ number ∧ number ≤ 0xFF then .ok [number.toNat.toUInt8] else .error .operandByte := by
    rcases hKind with rfl | rfl <;> rfl
  rw [hPayload]
  split
  · next hRange =>
    rw [Except.ok.injEq]
    constructor
    · rintro rfl
      refine ⟨_, rfl, ?_⟩
      have hByte := (toUInt8_eq_iff (by omega : number.toNat < 256)).1 rfl
      omega
    · rintro ⟨b, rfl, hNumber⟩
      rw [(toUInt8_eq_iff (by omega)).2 (by omega : number.toNat = b.toNat)]
  · next hRange =>
    simp only [reduceCtorEq, false_iff, not_exists, not_and]
    intro b _ hNumber
    have hByte := b.toNat_lt
    omega

theorem payload_word_iff {kind : NumberKind} (hKind : kind = .immediate16 ∨ kind = .address16)
    {number : Int} {bytes : Bytes} :
    payload kind (.number number) = .ok bytes ↔
      ∃ low high : UInt8, bytes = [low, high] ∧ number = low.toNat + 256 * high.toNat := by
  have hPayload : payload kind (.number number) =
      if 0 ≤ number ∧ number ≤ 0xFFFF then
        .ok [(number.toNat % 256).toUInt8, (number.toNat / 256 % 256).toUInt8]
      else .error .operandWord := by
    rcases hKind with rfl | rfl <;> rfl
  rw [hPayload]
  split
  · next hRange =>
    rw [Except.ok.injEq]
    constructor
    · rintro rfl
      refine ⟨_, _, rfl, ?_⟩
      have hLow := (toUInt8_eq_iff (by omega : number.toNat % 256 < 256)).1 rfl
      have hHigh := (toUInt8_eq_iff (by omega : number.toNat / 256 % 256 < 256)).1 rfl
      omega
    · rintro ⟨low, high, rfl, hNumber⟩
      have hLow := low.toNat_lt
      have hHigh := high.toNat_lt
      rw [(toUInt8_eq_iff (by omega)).2 (by omega : number.toNat % 256 = low.toNat),
        (toUInt8_eq_iff (by omega)).2 (by omega : number.toNat / 256 % 256 = high.toNat)]
  · next hRange =>
    simp only [reduceCtorEq, false_iff, not_exists, not_and]
    intro low high _ hNumber
    have hLow := low.toNat_lt
    have hHigh := high.toNat_lt
    omega

theorem payload_relative_iff {number : Int} {bytes : Bytes} :
    payload .relative (.number number) = .ok bytes ↔
      ∃ b : UInt8, bytes = [b] ∧ number = b.toInt8.toInt := by
  simp only [payload]
  split
  · next hRange =>
    rw [Except.ok.injEq]
    constructor
    · rintro rfl
      refine ⟨_, rfl, ?_⟩
      have hByte := (toUInt8_eq_iff (by omega : (number % 256).toNat < 256)).1 rfl
      rw [signed_eq]
      omega
    · rintro ⟨b, rfl, hNumber⟩
      rw [signed_eq] at hNumber
      have hByte := b.toNat_lt
      rw [(toUInt8_eq_iff (by omega)).2 (by omega : (number % 256).toNat = b.toNat)]
  · next hRange =>
    simp only [reduceCtorEq, false_iff, not_exists, not_and]
    intro b _ hNumber
    rw [signed_eq] at hNumber
    have hByte := b.toNat_lt
    omega

end MachineCode

theorem highOffset?_eq_some {value number : Int} (h : value ≤ 0xFFFF) :
    highOffset? value = some number ∧ 0 ≤ number ∧ number ≤ 0xFF ↔
      (0 ≤ number ∧ number ≤ 0xFF) ∧ (value = number ∨ value = 0xFF00 + number) := by
  unfold highOffset? highPage
  split
  · simp only [Option.some.injEq]
    omega
  · split
    · simp only [Option.some.injEq]
      omega
    · simp only [reduceCtorEq, false_and, false_iff]
      omega

/-- The bytes that a slot's number is written as are those that hold its value. -/
theorem NumberKind.holds_iff {kind : NumberKind} {next value : Int} {bytes : Bytes}
    (hRange : 0 ≤ value ∧ value ≤ 0xFFFF) :
    (∃ number, kind.Stores next value number ∧
      MachineCode.payload kind (.number number) = .ok bytes) ↔ kind.Holds next value bytes := by
  cases kind with
  | immediate8 =>
    simp only [Stores, MachineCode.payload_byte_iff (.inl rfl), Holds]
    constructor
    · rintro ⟨number, ⟨-, rfl⟩, hBytes⟩
      exact hBytes
    · rintro ⟨b, rfl, hValue⟩
      have hByte := b.toNat_lt
      exact ⟨value, ⟨by omega, rfl⟩, b, rfl, hValue⟩
  | immediate16 =>
    simp only [Stores, MachineCode.payload_word_iff (.inl rfl), Holds, exists_eq_left]
  | address16 => simp only [Stores, MachineCode.payload_word_iff (.inr rfl), Holds, exists_eq_left]
  | address8 =>
    simp only [Stores, MachineCode.payload_byte_iff (.inr rfl), Holds]
    constructor
    · rintro ⟨number, hOffset, b, rfl, rfl⟩
      have hByte := b.toNat_lt
      exact ⟨b, rfl, ((highOffset?_eq_some hRange.2).1 ⟨hOffset, by omega, by omega⟩).2⟩
    · rintro ⟨b, rfl, hValue⟩
      have hByte := b.toNat_lt
      have hOffset := (highOffset?_eq_some hRange.2).2 ⟨⟨by omega, by omega⟩, hValue⟩
      exact ⟨b.toNat, hOffset.1, b, rfl, rfl⟩
  | relative =>
    simp only [Stores, MachineCode.payload_relative_iff, Holds]
    constructor
    · rintro ⟨number, ⟨-, rfl⟩, b, rfl, hNumber⟩
      exact ⟨b, rfl, by omega⟩
    · rintro ⟨b, rfl, hValue⟩
      have hSigned := signed_eq b
      have hByte := b.toNat_lt
      exact ⟨b.toInt8.toInt, ⟨by split at hSigned <;> omega, by omega⟩, b, rfl, rfl⟩
  | bit | vector =>
    simp only [Stores, MachineCode.payload, Holds, exists_eq_left, Except.ok.injEq]
    exact eq_comm

/-- Whatever a slot keeps for a value can be written. -/
theorem NumberKind.Stores.payload_ok {kind : NumberKind} {next value number : Int}
    (h : kind.Stores next value number) (hRange : 0 ≤ value ∧ value ≤ 0xFFFF) :
    ∃ bytes, MachineCode.payload kind (.number number) = .ok bytes := by
  cases kind with
  | immediate8 =>
    obtain ⟨hNarrow, rfl⟩ := h
    exact ⟨_, if_pos ⟨hRange.1, hNarrow⟩⟩
  | immediate16 | address16 =>
    obtain rfl := h
    exact ⟨_, if_pos hRange⟩
  | address8 =>
    refine ⟨_, if_pos ?_⟩
    unfold Stores highOffset? highPage at h
    simp only at h
    split at h
    · cases h
      omega
    · split at h
      · cases h
        omega
      · cases h
  | relative => exact ⟨_, if_pos h.1⟩
  | bit | vector => exact ⟨[], rfl⟩

/-! ## From the written operand to its bytes -/

section
variable {symbols : SymbolTable} {lineAt : Location → Option String} {next : Int}

/-- A conversion that succeeds puts a number into a slot. -/
theorem NumberKind.converted_iff {ε : Type} {kind : NumberKind} (referent : Referent)
    (fault : Objection → ε) {resolved : Operand} :
    (match kind.convert referent next with
      | .ok number => Except.ok (Operand.number kind (.number number))
      | .error objection => .error (fault objection)) = .ok resolved ↔
      ∃ number, kind.Stores next referent.value number ∧
        resolved = .number kind (.number number) := by
  simp only [← convert_ok_iff referent]
  split
  · next number hConvert =>
    rw [hConvert]
    constructor
    · intro h
      cases h
      exact ⟨number, rfl, rfl⟩
    · rintro ⟨_, hSame, rfl⟩
      cases hSame
      rfl
  · next objection hConvert => simp [hConvert]

theorem resolveOperand_symbol_iff {name : String} {kind : NumberKind} {location : Option Location}
    {resolved : Operand} :
    Assembly.resolveOperand symbols lineAt next
        (.symbol (.word name) (some (.number kind)) location) = .ok resolved ↔
      ∃ value, (symbols.lookup? name).map Symbol.value = some value ∧
        ∃ number, kind.Stores next value number ∧ resolved = .number kind (.number number) := by
  simp only [Assembly.resolveOperand]
  split
  · next hNone => simp [hNone]
  · next symbol hSymbol =>
    rw [hSymbol]
    simp only [Option.map_some, Option.some.injEq, exists_eq_left']
    exact NumberKind.converted_iff ⟨some name, symbol.value⟩ _

/-- A written operand is built for a class and resolved. -/
def Settles (symbols : SymbolTable) (lineAt : Location → Option String) (next : Int)
    (operand : WrittenOperand) (cls : OperandClass) (resolved : Operand) : Prop :=
  ∃ built, operand.build cls next = .ok built ∧
    Assembly.resolveOperand symbols lineAt next built = .ok resolved

theorem settles_implied_iff {operand : WrittenOperand} {cls : OperandClass}
    {implied resolved : Operand} (hRole : cls.role = .implied implied) :
    Settles symbols lineAt next operand cls resolved ↔ resolved = implied := by
  have hKept : Assembly.resolveOperand symbols lineAt next implied = .ok implied := by
    cases cls <;> cases hRole <;> rfl
  unfold Settles
  simp only [WrittenOperand.build_implied hRole, Except.ok.injEq, exists_eq_left', hKept]
  exact eq_comm

/-- In a slot stands what is kept for the value of the literal or of the symbol. -/
theorem settles_slot_iff {operand : WrittenOperand} {cls : OperandClass} {kind : NumberKind}
    {resolved : Operand} (hRole : cls.role = .slot kind) (hFits : operand.written.fit cls = .fits) :
    Settles symbols lineAt next operand cls resolved ↔
      ∃ value, operand.written.meaning? symbols = some value ∧
        ∃ number, kind.Stores next value number ∧ resolved = .number kind (.number number) := by
  obtain ⟨written, location⟩ := operand
  -- numbers are converted at once and then stay
  have hLiteral (value : Int) :
      (∃ built, WrittenOperand.fill ⟨.number value, location⟩ kind next = .ok built ∧
          Assembly.resolveOperand symbols lineAt next built = .ok resolved) ↔
        ∃ number, kind.Stores next value number ∧ resolved = .number kind (.number number) := by
    have hFill (built : Operand) :
        WrittenOperand.fill ⟨.number value, location⟩ kind next = .ok built ↔
          ∃ number, kind.Stores next value number ∧ built = .number kind (.number number) :=
      NumberKind.converted_iff ⟨none, value⟩ id
    simp only [hFill]
    constructor
    · rintro ⟨_, ⟨number, hStores, rfl⟩, hKept⟩
      cases hKept
      exact ⟨number, hStores, rfl⟩
    · rintro ⟨number, hStores, rfl⟩
      exact ⟨_, ⟨number, hStores, rfl⟩, rfl⟩
  unfold Settles
  simp only [WrittenOperand.build_slot hRole]
  cases written with
  | number value | address value =>
    simp only [Written.meaning?, Option.some.injEq, exists_eq_left']
    exact hLiteral value
  | name word | addressName word =>
    simp only [WrittenOperand.fill, Except.ok.injEq, exists_eq_left']
    exact resolveOperand_symbol_iff
  | register | pair | flag | indirect | indirectPair => cases cls <;> cases hRole <;> cases hFits

/-- The bytes that a resolved operand adds to an instruction. -/
inductive Emits : Operand → Bytes → Prop
  | name {kind : NameKind} {value : OperandValue} : Emits (.name kind value) []
  | number {kind : NumberKind} {value : OperandValue} {bytes : Bytes} :
    MachineCode.payload kind value = .ok bytes → Emits (.number kind value) bytes

/-- The bytes that an operand of a class puts after the opcode, as it is written: none if the opcode
implies it, and otherwise those that hold its value. -/
def OperandClass.Part (cls : OperandClass) (symbols : SymbolTable) (next : Int) (written : Written)
    (bytes : Bytes) : Prop :=
  match cls.role with
  | .implied _ => bytes = []
  | .slot kind => ∃ value, written.meaning? symbols = some value ∧ kind.Holds next value bytes

theorem OperandClass.emits_implied_iff {cls : OperandClass} {implied : Operand} {bytes : Bytes}
    (hRole : cls.role = .implied implied) : Emits implied bytes ↔ bytes = [] := by
  cases cls with
  | byte | word | high | memory | relative => cases hRole
  | bit | vector =>
    cases hRole
    constructor
    · intro h
      cases h with
      | number hPayload => exact (Except.ok.inj hPayload).symm
    · rintro rfl
      exact .number rfl
  | register | pair | condition | highC | through =>
    cases hRole
    constructor
    · intro h
      cases h
      rfl
    · rintro rfl
      exact .name

theorem OperandClass.Part.length_eq {cls : OperandClass} {written : Written} {bytes : Bytes}
    (h : cls.Part symbols next written bytes) : bytes.length = cls.size := by
  cases cls with
  | byte | high | relative =>
    obtain ⟨value, -, b, rfl, -⟩ := h
    rfl
  | word | memory =>
    obtain ⟨value, -, low, high, rfl, -⟩ := h
    rfl
  | register | pair | condition | highC | through | bit | vector =>
    obtain rfl := h
    rfl

/-- The values of the literals and symbols have 16 bits. -/
structure Written.Bounded (symbols : SymbolTable) (written : Written) : Prop where
  literal : ∀ value, written.value? = some value → 0 ≤ value ∧ value ≤ 0xFFFF
  symbol : ∀ name symbol, symbols.lookup? name = some symbol →
    0 ≤ symbol.value ∧ symbol.value ≤ 0xFFFF

theorem Written.Bounded.meaning?_range {written : Written} (h : written.Bounded symbols)
    {value : Int} (hValue : written.meaning? symbols = some value) :
    0 ≤ value ∧ value ≤ 0xFFFF := by
  cases written with
  | number | address => exact h.literal value hValue
  | name word | addressName word =>
    obtain ⟨symbol, hSymbol, rfl⟩ := Option.map_eq_some_iff.1 hValue
    exact h.symbol word symbol hSymbol
  | register | pair | flag | indirect | indirectPair => cases hValue

/-- An operand is built, resolved and written as some bytes exactly when these hold its value. -/
theorem yields_iff {operand : WrittenOperand} {cls : OperandClass} {bytes : Bytes}
    (hFits : operand.written.fit cls = .fits) (hBounded : operand.written.Bounded symbols) :
    (∃ resolved, Settles symbols lineAt next operand cls resolved ∧ Emits resolved bytes) ↔
      cls.Part symbols next operand.written bytes := by
  unfold OperandClass.Part
  split
  · next implied hRole =>
    simp only [settles_implied_iff hRole, exists_eq_left, OperandClass.emits_implied_iff hRole]
  · next kind hRole =>
    simp only [settles_slot_iff hRole hFits]
    constructor
    · rintro ⟨_, ⟨value, hValue, number, hStores, rfl⟩, hEmits⟩
      have hRange := hBounded.meaning?_range hValue
      cases hEmits with
      | number hPayload =>
        exact ⟨value, hValue, (NumberKind.holds_iff hRange).1 ⟨number, hStores, hPayload⟩⟩
    · rintro ⟨value, hValue, hHolds⟩
      have hRange := hBounded.meaning?_range hValue
      obtain ⟨number, hStores, hPayload⟩ := (NumberKind.holds_iff hRange).2 hHolds
      exact ⟨_, ⟨value, hValue, number, hStores, rfl⟩, .number hPayload⟩

/-- What is built and resolved for a class has its key, waits for nothing, and can be written. -/
theorem Settles.yields {operand : WrittenOperand} {cls : OperandClass} {resolved : Operand}
    (h : Settles symbols lineAt next operand cls resolved)
    (hFits : operand.written.fit cls = .fits) (hBounded : operand.written.Bounded symbols) :
    resolved.key? = .ok cls.key ∧ resolved.isSymbol = false ∧ ∃ bytes, Emits resolved bytes := by
  cases hRole : cls.role with
  | implied implied =>
    obtain rfl := (settles_implied_iff hRole).1 h
    refine ⟨OperandClass.key?_implied hRole, ?_, [], (OperandClass.emits_implied_iff hRole).2 rfl⟩
    cases cls <;> cases hRole <;> rfl
  | slot kind =>
    obtain ⟨value, hValue, number, hStores, rfl⟩ := (settles_slot_iff hRole hFits).1 h
    obtain ⟨bytes, hPayload⟩ := hStores.payload_ok (hBounded.meaning?_range hValue)
    exact ⟨OperandClass.key?_slot hRole _, rfl, bytes, .number hPayload⟩

end

end Lr35902
