import Lr35902.Proofs.Container.Fields

/-!
What a container holds. `Contents` are a version, code and symbols that have a container, and the
symbols stand in the order of the container, where a name may come again. Reading accepts exactly
the containers of contents (`read_ok_iff`), refuses what has anything behind one
(`read_bytes_append`), and different contents have different containers
(`Contents.bytes_injective`).
-/
namespace Lr35902.Library

open MachineCode (littleEndian)
open FileSystem (byteLength)

/-- What a container holds. -/
@[ext]
structure Contents where
  version : String
  code : Bytes
  symbols : List (String × Nat)
  version_fits : byteLength version < lengthLimit
  code_fits : code.length < lengthLimit
  count_fits : symbols.length < lengthLimit
  symbols_fit : ∀ symbol ∈ symbols, SymbolFits symbol

namespace Contents

/-- The container of the contents. -/
def bytes (contents : Contents) : Bytes :=
  packText standardMagic ++ packText contents.version ++ packBytes contents.code ++
    littleEndian 8 contents.symbols.length ++ contents.symbols.flatMap packSymbol

/-- The library of the contents; of a repeated name the last address counts. -/
def library (contents : Contents) : Library :=
  ⟨standardMagic, contents.version, contents.code, NameMap.ofList contents.symbols⟩

end Contents

/-! ## Reading as one reader -/

/-- Refuses a magic text that is not the standard one. -/
def checkMagic (magic : String) : Reader Unit := fun unread =>
  if magic ≠ standardMagic then .error (.badMagic magic) else .ok ((), unread)

/-- Takes what stands behind the magic text. -/
def takeBody (magic : String) : Reader Library :=
  Reader.andThen (takeText .versionLength .version) fun version =>
  Reader.andThen (takeBlock .codeLength .code) fun code =>
  Reader.andThen (takeNumber .symbolCount 8) fun count =>
  Reader.andThen (takeSymbols .empty count) fun symbols =>
    Reader.give ⟨magic, version, code, symbols⟩

/-- Takes a library, after which more may follow. -/
def takeLibrary : Reader Library :=
  Reader.andThen (takeText .magicLength .magic) fun magic =>
  Reader.andThen (checkMagic magic) fun _ => takeBody magic

/-- Reading a container is taking a library behind which nothing is left. -/
theorem read_eq (bytes : Bytes) :
    read bytes =
      match takeLibrary ⟨0, bytes⟩ with
      | .error error => .error error
      | .ok (library, rest) =>
        if rest.bytes.isEmpty then .ok library else .error (.trailing rest.bytes.length) := by
  unfold read takeLibrary takeBody Reader.andThen checkMagic
  cases takeText .magicLength .magic ⟨0, bytes⟩ with
  | error error => rfl
  | ok taken =>
    obtain ⟨magic, rest⟩ := taken
    by_cases hMagic : magic = standardMagic
    · simp only [ne_eq, hMagic, not_true_eq_false, if_false]
      cases takeText .versionLength .version rest with
      | error error => rfl
      | ok taken =>
        obtain ⟨version, rest⟩ := taken
        dsimp only
        cases takeBlock .codeLength .code rest with
        | error error => rfl
        | ok taken =>
          obtain ⟨code, rest⟩ := taken
          dsimp only
          cases takeNumber .symbolCount 8 rest with
          | error error => rfl
          | ok taken =>
            obtain ⟨count, rest⟩ := taken
            dsimp only
            cases takeSymbols .empty count rest <;> rfl
    · simp only [ne_eq, hMagic, not_false_eq_true, if_true]

theorem checkMagic_ok_iff {magic : String} {checked : Unit} {unread after : Unread} :
    checkMagic magic unread = .ok (checked, after) ↔ magic = standardMagic ∧ unread = after := by
  unfold checkMagic
  by_cases hMagic : magic = standardMagic
  · simp [hMagic]
  · simp [hMagic]

/-- A library is taken exactly when the container of contents with that library stands in front. -/
theorem takeLibrary_ok_iff {library : Library} {unread after : Unread} :
    takeLibrary unread = .ok (library, after) ↔
      ∃ contents : Contents, unread.Starts contents.bytes after ∧ library = contents.library := by
  unfold takeLibrary takeBody
  simp only [Reader.andThen_ok_iff, takeText_ok_iff, checkMagic_ok_iff, takeBlock_ok_iff,
    takeNumber_ok_iff, takeSymbols_ok_iff, Reader.give_ok_iff, Unread.starts_nil_iff,
    Contents.bytes, Unread.starts_append_iff]
  constructor
  · rintro ⟨_, _, ⟨-, hMagic⟩, _, _, ⟨rfl, rfl⟩, version, _, ⟨hVersion, hVersionAt⟩, code, _,
      ⟨hCode, hCodeAt⟩, _, _, ⟨hCount, hCountAt⟩, _, _, ⟨symbols, rfl, hSymbols, hSymbolsAt, rfl⟩,
      rfl, rfl⟩
    exact ⟨⟨version, code, symbols, hVersion, hCode, hCount, hSymbols⟩,
      ⟨_, ⟨_, ⟨_, ⟨_, hMagic, hVersionAt⟩, hCodeAt⟩, hCountAt⟩, hSymbolsAt⟩, rfl⟩
  · rintro ⟨contents, ⟨_, ⟨_, ⟨_, ⟨_, hMagic, hVersionAt⟩, hCodeAt⟩, hCountAt⟩, hSymbolsAt⟩, rfl⟩
    exact ⟨_, _, ⟨by decide, hMagic⟩, (), _, ⟨rfl, rfl⟩, _, _, ⟨contents.version_fits, hVersionAt⟩,
      _, _, ⟨contents.code_fits, hCodeAt⟩, _, _, ⟨contents.count_fits, hCountAt⟩, _, _,
      ⟨_, rfl, contents.symbols_fit, hSymbolsAt, rfl⟩, rfl, rfl⟩

/-- A container is read back, and anything behind it is refused and counted. -/
theorem read_bytes_append (contents : Contents) (more : Bytes) :
    read (contents.bytes ++ more) =
      if more.isEmpty then .ok contents.library else .error (.trailing more.length) := by
  have hTake : takeLibrary ⟨0, contents.bytes ++ more⟩ =
      .ok (contents.library, ⟨0 + contents.bytes.length, more⟩) :=
    takeLibrary_ok_iff.2 ⟨contents, ⟨rfl, rfl⟩, rfl⟩
  rw [read_eq, hTake]

/-- Reading accepts exactly the containers of contents, and gives their library. -/
theorem read_ok_iff {bytes : Bytes} {library : Library} :
    read bytes = .ok library ↔
      ∃ contents : Contents, bytes = contents.bytes ∧ library = contents.library := by
  constructor
  · intro h
    rw [read_eq] at h
    split at h
    · cases h
    · next found rest hTake =>
      obtain ⟨contents, ⟨hBytes, -⟩, rfl⟩ := takeLibrary_ok_iff.1 hTake
      split at h
      · next hEnd =>
        cases h
        rw [List.isEmpty_iff.1 hEnd, List.append_nil] at hBytes
        exact ⟨contents, hBytes, rfl⟩
      · cases h
  · rintro ⟨contents, rfl, rfl⟩
    have hRead := read_bytes_append contents []
    rw [List.append_nil] at hRead
    exact hRead

/-- Different contents have different containers. -/
theorem Contents.bytes_injective : Function.Injective Contents.bytes := by
  have hText : Reader.Finds (takeText .versionLength .version)
      (fun text => byteLength text < lengthLimit) packText := ⟨takeText_ok_iff⟩
  have hBlock : Reader.Finds (takeBlock .codeLength .code)
      (fun bytes => bytes.length < lengthLimit) packBytes := ⟨takeBlock_ok_iff⟩
  have hNumber : Reader.Finds (takeNumber .symbolCount 8) (· < lengthLimit) (littleEndian 8) :=
    ⟨takeNumber_ok_iff⟩
  intro contents other h
  unfold bytes at h
  simp only [List.append_assoc] at h
  have h := List.append_cancel_left h
  obtain ⟨hVersion, h⟩ := hText.inj contents.version_fits other.version_fits h
  obtain ⟨hCode, h⟩ := hBlock.inj contents.code_fits other.code_fits h
  obtain ⟨hCount, h⟩ := hNumber.inj contents.count_fits other.count_fits h
  have hSymbols := flatMap_packSymbol_inj hCount contents.symbols_fit other.symbols_fit h
  exact Contents.ext hVersion hCode hSymbols

end Lr35902.Library
