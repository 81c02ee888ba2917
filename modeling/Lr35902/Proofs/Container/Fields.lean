import Lr35902.Library
import Lr35902.Proofs.NameMaps
import Lr35902.Proofs.Utf8

/-!
The fields of a container. Each field is taken exactly when the packed form of its value stands in
front (`takeNumber_ok_iff`, `takeBlock_ok_iff`, `takeText_ok_iff`, `takeSymbol_ok_iff`,
`takeSymbols_ok_iff`), so that what has been taken is what was packed, and nothing else is accepted.
-/
namespace Lr35902.Library

open MachineCode (littleEndian)
open FileSystem (byteLength)

/-! ## Numbers as bytes -/

/-- The number of values that `width` bytes can hold. -/
def capacity : Nat → Nat
  | 0 => 1
  | width + 1 => 256 * capacity width

/-- The number of 64-bit numbers: lengths and counts stay below it. -/
def lengthLimit : Nat := 0x10000000000000000

theorem length_littleEndian (width n : Nat) : (littleEndian width n).length = width := by
  induction width generalizing n with
  | zero => rfl
  | succ width ih => rw [littleEndian, List.length_cons, ih]

theorem valueOfBytes_lt (bytes : Bytes) : valueOfBytes bytes < capacity bytes.length := by
  induction bytes with
  | nil => exact Nat.one_pos
  | cons b rest ih =>
    have hByte := b.toNat_lt
    rw [valueOfBytes, List.length_cons, capacity]
    omega

theorem littleEndian_valueOfBytes (bytes : Bytes) :
    littleEndian bytes.length (valueOfBytes bytes) = bytes := by
  induction bytes with
  | nil => rfl
  | cons b rest ih =>
    have hByte := b.toNat_lt
    have hLow : (b.toNat + 256 * valueOfBytes rest) % 256 = b.toNat := by omega
    have hHigh : (b.toNat + 256 * valueOfBytes rest) / 256 = valueOfBytes rest := by omega
    rw [valueOfBytes, List.length_cons, littleEndian, hLow, hHigh, ih, Utf8.byte_eq rfl]

theorem valueOfBytes_littleEndian {width n : Nat} (h : n < capacity width) :
    valueOfBytes (littleEndian width n) = n := by
  induction width generalizing n with
  | zero =>
    rw [capacity] at h
    rw [littleEndian, valueOfBytes]
    omega
  | succ width ih =>
    rw [capacity] at h
    have hByte : (n % 256).toUInt8.toNat = n % 256 :=
      UInt8.toNat_ofNat_of_lt' (Nat.mod_lt n (by decide))
    rw [littleEndian, valueOfBytes, ih (by omega), hByte]
    omega

/-! ## What stands in front -/

/-- The bytes `piece` stand in front, and `after` is what follows them. -/
def Unread.Starts (unread : Unread) (piece : Bytes) (after : Unread) : Prop :=
  unread.bytes = piece ++ after.bytes ∧ after.offset = unread.offset + piece.length

theorem Unread.starts_append_iff {unread after : Unread} {first second : Bytes} :
    unread.Starts (first ++ second) after ↔
      ∃ between, unread.Starts first between ∧ between.Starts second after := by
  unfold Starts
  constructor
  · rintro ⟨hBytes, hOffset⟩
    refine ⟨⟨unread.offset + first.length, second ++ after.bytes⟩, ⟨?_, rfl⟩, rfl, ?_⟩
    · rw [hBytes, List.append_assoc]
    · rw [hOffset, List.length_append, Nat.add_assoc]
  · rintro ⟨between, ⟨hFirst, hBetween⟩, hSecond, hAfter⟩
    refine ⟨?_, ?_⟩
    · rw [hFirst, hSecond, List.append_assoc]
    · rw [hAfter, hBetween, List.length_append, Nat.add_assoc]

theorem Unread.starts_nil_iff {unread after : Unread} :
    unread.Starts [] after ↔ unread = after := by
  obtain ⟨offset, bytes⟩ := unread
  obtain ⟨offset', bytes'⟩ := after
  simp [Starts, and_comm, eq_comm]

/-! ## Readers one after another -/

/-- Takes a value from the front of what is unread. -/
abbrev Reader (α : Type) := Unread → Except FormatError (α × Unread)

/-- Takes a value, and then another that may depend on it. -/
def Reader.andThen {α β : Type} (first : Reader α) (next : α → Reader β) : Reader β :=
  fun unread =>
    match first unread with
    | .error error => .error error
    | .ok (value, rest) => next value rest

/-- Takes nothing and gives a value. -/
def Reader.give {α : Type} (value : α) : Reader α := fun unread => .ok (value, unread)

theorem Reader.andThen_ok_iff {α β : Type} {first : Reader α} {next : α → Reader β} {b : β}
    {unread after : Unread} :
    first.andThen next unread = .ok (b, after) ↔
      ∃ a between, first unread = .ok (a, between) ∧ next a between = .ok (b, after) := by
  unfold andThen
  cases h : first unread with
  | error error => simp
  | ok taken =>
    obtain ⟨a, between⟩ := taken
    simp

theorem Reader.give_ok_iff {α : Type} {a b : α} {unread after : Unread} :
    give a unread = .ok (b, after) ↔ a = b ∧ unread.Starts [] after := by
  rw [Unread.starts_nil_iff]
  simp [give]

/-- The text that some bytes spell. -/
def textOf (field : LibraryField) (bytes : Bytes) : Reader String := fun unread =>
  match Utf8.decode bytes with
  | .ok text => .ok (String.ofList text, unread)
  | .error _ => .error (.notUtf8 field)

section
variable (field lengthField : LibraryField)

theorem takeNumber_eq (width : Nat) :
    takeNumber field width =
      Reader.andThen (takeBytes field width) fun bytes => Reader.give (valueOfBytes bytes) := by
  funext unread
  unfold takeNumber Reader.andThen
  cases takeBytes field width unread <;> rfl

theorem takeBlock_eq :
    takeBlock lengthField field =
      Reader.andThen (takeNumber lengthField 8) fun length => takeBytes field length := by
  funext unread
  unfold takeBlock Reader.andThen
  cases takeNumber lengthField 8 unread <;> rfl

theorem takeText_eq :
    takeText lengthField field = Reader.andThen (takeBlock lengthField field) (textOf field) := by
  funext unread
  unfold takeText Reader.andThen
  cases takeBlock lengthField field unread <;> rfl

theorem takeSymbol_eq :
    takeSymbol =
      Reader.andThen (takeText .symbolNameLength .symbolName) fun name =>
        Reader.andThen (takeNumber .symbolAddress 2) fun address =>
          Reader.give (name, address) := by
  funext unread
  unfold takeSymbol Reader.andThen
  cases takeText .symbolNameLength .symbolName unread with
  | error error => rfl
  | ok taken =>
    obtain ⟨name, rest⟩ := taken
    dsimp only
    cases takeNumber .symbolAddress 2 rest <;> rfl

theorem takeSymbols_eq (known : NameMap Nat) (count : Nat) :
    takeSymbols known (count + 1) =
      Reader.andThen takeSymbol fun symbol =>
        takeSymbols (known.insert symbol.1 symbol.2) count := by
  funext unread
  unfold takeSymbols Reader.andThen
  cases takeSymbol unread <;> rfl

end

/-! ## What the readers accept -/

/-- A name and an address whose packed form can be read back. -/
structure SymbolFits (symbol : String × Nat) : Prop where
  name : byteLength symbol.1 < lengthLimit
  address : symbol.2 ≤ 0xFFFF

instance (symbol : String × Nat) : Decidable (SymbolFits symbol) :=
  decidable_of_iff (byteLength symbol.1 < lengthLimit ∧ symbol.2 ≤ 0xFFFF)
    ⟨fun h => ⟨h.1, h.2⟩, fun h => ⟨h.name, h.address⟩⟩

section
variable {field lengthField : LibraryField} {unread after : Unread}

theorem takeBytes_ok_iff {n : Nat} {bytes : Bytes} :
    takeBytes field n unread = .ok (bytes, after) ↔
      bytes.length = n ∧ unread.Starts bytes after := by
  simp only [takeBytes]
  constructor
  · intro h
    split at h
    · next hLength =>
      cases h
      refine ⟨hLength, (List.take_append_drop n unread.bytes).symm, ?_⟩
      rw [hLength]
    · cases h
  · rintro ⟨rfl, hBytes, hOffset⟩
    obtain ⟨offset, rest⟩ := after
    subst hOffset
    rw [hBytes, List.take_left, List.drop_left, if_pos rfl]

theorem takeNumber_ok_iff {width n : Nat} :
    takeNumber field width unread = .ok (n, after) ↔
      n < capacity width ∧ unread.Starts (littleEndian width n) after := by
  rw [takeNumber_eq, Reader.andThen_ok_iff]
  simp only [takeBytes_ok_iff, Reader.give_ok_iff, Unread.starts_nil_iff]
  constructor
  · rintro ⟨bytes, _, ⟨rfl, hStarts⟩, rfl, rfl⟩
    rw [littleEndian_valueOfBytes]
    exact ⟨valueOfBytes_lt bytes, hStarts⟩
  · rintro ⟨hLimit, hStarts⟩
    exact ⟨littleEndian width n, after, ⟨length_littleEndian width n, hStarts⟩,
      valueOfBytes_littleEndian hLimit, rfl⟩

theorem takeBlock_ok_iff {bytes : Bytes} :
    takeBlock lengthField field unread = .ok (bytes, after) ↔
      bytes.length < lengthLimit ∧ unread.Starts (packBytes bytes) after := by
  rw [takeBlock_eq, Reader.andThen_ok_iff, packBytes, Unread.starts_append_iff]
  simp only [takeNumber_ok_iff, takeBytes_ok_iff]
  constructor
  · rintro ⟨_, between, ⟨hLimit, hLength⟩, rfl, hBytes⟩
    exact ⟨hLimit, between, hLength, hBytes⟩
  · rintro ⟨hLimit, between, hLength, hBytes⟩
    exact ⟨bytes.length, between, ⟨hLimit, hLength⟩, rfl, hBytes⟩

theorem textOf_ok_iff {bytes : Bytes} {text : String} :
    textOf field bytes unread = .ok (text, after) ↔
      bytes = Utf8.encode text.toList ∧ unread = after := by
  unfold textOf
  constructor
  · intro h
    split at h
    · next cs hDecode =>
      cases h
      rw [String.toList_ofList]
      exact ⟨Utf8.decode_ok_iff.1 hDecode, rfl⟩
    · cases h
  · rintro ⟨hBytes, rfl⟩
    rw [Utf8.decode_ok_iff.2 hBytes]
    simp only [String.ofList_toList]

theorem textOf_error_iff {bytes : Bytes} {error : FormatError} :
    textOf field bytes unread = .error error ↔
      error = .notUtf8 field ∧ ∀ text, bytes ≠ Utf8.encode text := by
  unfold textOf
  cases hDecode : Utf8.decode bytes with
  | ok text =>
    constructor
    · intro h
      cases h
    · rintro ⟨-, hNone⟩
      exact absurd (Utf8.decode_ok_iff.1 hDecode) (hNone text)
  | error fault =>
    constructor
    · intro h
      cases h
      refine ⟨rfl, ?_⟩
      rintro text rfl
      rw [Utf8.decode_ok_iff.2 rfl] at hDecode
      cases hDecode
    · rintro ⟨rfl, -⟩
      rfl

theorem takeText_ok_iff {text : String} :
    takeText lengthField field unread = .ok (text, after) ↔
      byteLength text < lengthLimit ∧ unread.Starts (packText text) after := by
  rw [takeText_eq, Reader.andThen_ok_iff, packText]
  simp only [takeBlock_ok_iff, textOf_ok_iff]
  constructor
  · rintro ⟨_, _, hBlock, rfl, rfl⟩
    exact hBlock
  · intro hBlock
    exact ⟨_, after, hBlock, rfl, rfl⟩

theorem takeSymbol_ok_iff {symbol : String × Nat} :
    takeSymbol unread = .ok (symbol, after) ↔
      SymbolFits symbol ∧ unread.Starts (packSymbol symbol) after := by
  have hCapacity : ∀ n, n < capacity 2 ↔ n ≤ 0xFFFF := fun n => Nat.lt_succ_iff
  rw [takeSymbol_eq, Reader.andThen_ok_iff, packSymbol, Unread.starts_append_iff]
  simp only [takeText_ok_iff, Reader.andThen_ok_iff, takeNumber_ok_iff, Reader.give_ok_iff,
    Unread.starts_nil_iff, hCapacity]
  constructor
  · rintro ⟨name, between, ⟨hName, hFirst⟩, address, _, ⟨hAddress, hSecond⟩, rfl, rfl⟩
    exact ⟨⟨hName, hAddress⟩, between, hFirst, hSecond⟩
  · rintro ⟨⟨hName, hAddress⟩, between, hFirst, hSecond⟩
    exact ⟨symbol.1, between, ⟨hName, hFirst⟩, symbol.2, after, ⟨hAddress, hSecond⟩, rfl, rfl⟩

/-- A number of symbols is taken exactly when so many packed symbols stand in front; they are added
in their order. -/
theorem takeSymbols_ok_iff {known map : NameMap Nat} {count : Nat} :
    takeSymbols known count unread = .ok (map, after) ↔
      ∃ symbols : List (String × Nat), symbols.length = count ∧
        (∀ symbol ∈ symbols, SymbolFits symbol) ∧
        unread.Starts (symbols.flatMap packSymbol) after ∧ map = known.insertAll symbols := by
  induction count generalizing known unread with
  | zero =>
    constructor
    · intro h
      cases h
      exact ⟨[], rfl, List.forall_mem_nil _, Unread.starts_nil_iff.2 rfl, rfl⟩
    · rintro ⟨symbols, hLength, -, hStarts, rfl⟩
      obtain rfl := List.length_eq_zero_iff.1 hLength
      obtain rfl := Unread.starts_nil_iff.1 hStarts
      rfl
  | succ count ih =>
    rw [takeSymbols_eq, Reader.andThen_ok_iff]
    simp only [takeSymbol_ok_iff, ih]
    constructor
    · rintro ⟨symbol, between, ⟨hFits, hFirst⟩, symbols, rfl, hAll, hRest, rfl⟩
      refine ⟨symbol :: symbols, rfl, List.forall_mem_cons.2 ⟨hFits, hAll⟩, ?_, rfl⟩
      rw [List.flatMap_cons]
      exact Unread.starts_append_iff.2 ⟨between, hFirst, hRest⟩
    · rintro ⟨symbols, hLength, hAll, hStarts, rfl⟩
      obtain ⟨symbol, symbols, rfl⟩ := List.exists_cons_of_length_eq_add_one hLength
      rw [List.flatMap_cons] at hStarts
      obtain ⟨between, hFirst, hRest⟩ := Unread.starts_append_iff.1 hStarts
      obtain ⟨hFits, hAll⟩ := List.forall_mem_cons.1 hAll
      exact ⟨symbol, between, ⟨hFits, hFirst⟩, symbols, Nat.succ.inj hLength, hAll, hRest, rfl⟩

end
/-! ## Packed values in front -/

/-- A reader takes a value exactly when it fits and its packed form stands in front. -/
structure Reader.Finds {α : Type} (take : Reader α) (Fits : α → Prop) (pack : α → Bytes) :
    Prop where
  ok_iff : ∀ {value unread after},
    take unread = .ok (value, after) ↔ Fits value ∧ unread.Starts (pack value) after

/-- Packed forms of different values differ, whatever follows them. -/
theorem Reader.Finds.inj {α : Type} {take : Reader α} {Fits : α → Prop} {pack : α → Bytes}
    (h : take.Finds Fits pack) {value other : α} {rest more : Bytes} (hValue : Fits value)
    (hOther : Fits other) (hBytes : pack value ++ rest = pack other ++ more) :
    value = other ∧ rest = more := by
  have hFirst : take ⟨0, pack value ++ rest⟩ = .ok (value, ⟨0 + (pack value).length, rest⟩) :=
    h.ok_iff.2 ⟨hValue, rfl, rfl⟩
  have hSecond : take ⟨0, pack value ++ rest⟩ = .ok (other, ⟨0 + (pack other).length, more⟩) :=
    h.ok_iff.2 ⟨hOther, hBytes, rfl⟩
  rw [hFirst] at hSecond
  cases hSecond
  exact ⟨rfl, rfl⟩

theorem flatMap_packSymbol_inj {symbols others : List (String × Nat)}
    (hLength : symbols.length = others.length) (hSymbols : ∀ symbol ∈ symbols, SymbolFits symbol)
    (hOthers : ∀ symbol ∈ others, SymbolFits symbol)
    (h : symbols.flatMap packSymbol = others.flatMap packSymbol) : symbols = others := by
  have hFinds : Reader.Finds takeSymbol SymbolFits packSymbol := ⟨takeSymbol_ok_iff⟩
  induction symbols generalizing others with
  | nil => exact (List.length_eq_zero_iff.1 hLength.symm).symm
  | cons symbol symbols ih =>
    obtain ⟨other, others, rfl⟩ := List.exists_cons_of_length_eq_add_one hLength.symm
    rw [List.forall_mem_cons] at hSymbols hOthers
    rw [List.flatMap_cons, List.flatMap_cons] at h
    obtain ⟨rfl, hRest⟩ := hFinds.inj hSymbols.1 hOthers.1 h
    rw [ih (Nat.succ.inj hLength) hSymbols.2 hOthers.2 hRest]

end Lr35902.Library
