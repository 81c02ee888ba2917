import Lr35902.Event
import Lr35902.File.System
import Lr35902.MachineCode
import Lr35902.NameMap

/-!
Library containers: machine code together with the addresses of its labels. A container is a magic
text, a version text, the code, and the symbols sorted by name; lengths and counts are 64-bit
numbers, addresses 16-bit ones, all with the least significant byte first. Nothing follows the last
symbol.
-/
namespace Lr35902

/-- A library. -/
structure Library where
  magic : String
  version : String
  code : Bytes
  symbols : NameMap Nat
  deriving DecidableEq

/-- The fields of a container, as messages name them. -/
inductive LibraryField where
  | magicLength | magic | versionLength | version | codeLength | code | symbolCount
  | symbolNameLength | symbolName | symbolAddress
  deriving DecidableEq

/-- Why bytes are not a library. -/
inductive FormatError where
  | truncated (field : LibraryField) (needed offset left : Nat)
  | badMagic (found : String)
  | notUtf8 (field : LibraryField)
  | trailing (count : Nat)
  deriving DecidableEq

/-- An address that does not fit in 16 bits. -/
structure AddressError where
  name : String
  address : Int
  deriving DecidableEq

/-- The wording of a field. -/
def LibraryField.text : LibraryField → String
  | .magicLength => "magic length"
  | .magic => "magic"
  | .versionLength => "version length"
  | .version => "version"
  | .codeLength => "code length"
  | .code => "code"
  | .symbolCount => "symbol count"
  | .symbolNameLength => "symbol name length"
  | .symbolName => "symbol name"
  | .symbolAddress => "symbol address"

/-- The wording of a format error. -/
def FormatError.message : FormatError → String
  | .truncated field needed offset left =>
    "truncated library: " ++ field.text ++ " needs " ++ Text.decimalNat needed ++
      " bytes at offset " ++ Text.decimalNat offset ++ ", only " ++ Text.decimalNat left ++ " left"
  | .badMagic found => "not a library: bad magic " ++ Text.quoted found
  | .notUtf8 field => "invalid " ++ field.text ++ ": not UTF-8"
  | .trailing count => Text.decimalNat count ++ " trailing bytes after library data"

/-- The wording of an address error. -/
def AddressError.message (error : AddressError) : String :=
  "address of '" ++ error.name ++ "' must be in 0..$FFFF, got " ++ Text.decimal error.address

namespace Library

/-- The magic text of every library. -/
def standardMagic : String := "GB-O!"

/-- The version of the libraries written here. -/
def standardVersion : String := "1.0.0"

/-- A library without symbols. -/
def ofCode (code : Bytes) : Library := ⟨standardMagic, standardVersion, code, .empty⟩

/-- Gives a name an address, in place of an earlier one. -/
def addSymbol (library : Library) (name : String) (address : Int) :
    Except AddressError Library :=
  if 0 ≤ address ∧ address ≤ 0xFFFF then
    .ok { library with symbols := library.symbols.insert name address.toNat }
  else .error ⟨name, address⟩

/-- Gives several names addresses, in order. -/
def addSymbols (library : Library) : List (String × Int) → Except AddressError Library
  | [] => .ok library
  | (name, address) :: rest =>
    match library.addSymbol name address with
    | .ok library => library.addSymbols rest
    | .error error => .error error

/-- The library of some code and its symbols. -/
def make (code : Bytes) (symbols : NameMap Int) : Except AddressError Library :=
  (ofCode code).addSymbols symbols.entries

/-- Whether two libraries hold the same, whatever the order of their symbols. -/
def agrees (library other : Library) : Bool :=
  library.magic == other.magic && library.version == other.version &&
    library.code == other.code && library.symbols.agrees other.symbols

/-- Bytes after their number. -/
def packBytes (bytes : Bytes) : Bytes := MachineCode.littleEndian 8 bytes.length ++ bytes

/-- A text as UTF-8 after its number of bytes. -/
def packText (text : String) : Bytes := packBytes (Utf8.encode text.toList)

/-- A name and its address. -/
def packSymbol (symbol : String × Nat) : Bytes :=
  packText symbol.1 ++ MachineCode.littleEndian 2 symbol.2

/-- Whether a name comes before another or is equal to it, code point by code point. -/
def nameLE (symbol other : String × Nat) : Bool :=
  decide (symbol.1 ≤ other.1)

/-- The symbols in the order of the container. -/
def sortedSymbols (library : Library) : List (String × Nat) :=
  library.symbols.entries.mergeSort nameLE

/-- The container of a library. -/
def write (library : Library) : Bytes :=
  packText library.magic ++ packText library.version ++ packBytes library.code ++
    MachineCode.littleEndian 8 library.symbols.size ++ library.sortedSymbols.flatMap packSymbol

/-- The event that reports a written container. -/
def writeEvent (library : Library) : Event :=
  .serialized library.code.length library.symbols.size library.write.length

/-- The bytes of a container that are still to be read, and where they start. -/
structure Unread where
  offset : Nat
  bytes : Bytes

/-- Takes the bytes of a field, of which there have to be enough. -/
def takeBytes (field : LibraryField) (n : Nat) (unread : Unread) :
    Except FormatError (Bytes × Unread) :=
  let first := unread.bytes.take n
  if first.length = n then .ok (first, ⟨unread.offset + n, unread.bytes.drop n⟩)
  else .error (.truncated field n unread.offset unread.bytes.length)

/-- The number whose bytes these are, the least significant first. -/
def valueOfBytes : Bytes → Nat
  | [] => 0
  | b :: rest => b.toNat + 256 * valueOfBytes rest

/-- Takes a number of `width` bytes. -/
def takeNumber (field : LibraryField) (width : Nat) (unread : Unread) :
    Except FormatError (Nat × Unread) :=
  match takeBytes field width unread with
  | .ok (bytes, rest) => .ok (valueOfBytes bytes, rest)
  | .error error => .error error

/-- Takes a length and as many bytes. -/
def takeBlock (lengthField field : LibraryField) (unread : Unread) :
    Except FormatError (Bytes × Unread) :=
  match takeNumber lengthField 8 unread with
  | .ok (length, rest) => takeBytes field length rest
  | .error error => .error error

/-- Takes a text. -/
def takeText (lengthField field : LibraryField) (unread : Unread) :
    Except FormatError (String × Unread) :=
  match takeBlock lengthField field unread with
  | .error error => .error error
  | .ok (bytes, rest) =>
    match Utf8.decode bytes with
    | .ok text => .ok (String.ofList text, rest)
    | .error _ => .error (.notUtf8 field)

/-- Takes a name and its address. -/
def takeSymbol (unread : Unread) : Except FormatError ((String × Nat) × Unread) :=
  match takeText .symbolNameLength .symbolName unread with
  | .error error => .error error
  | .ok (name, rest) =>
    match takeNumber .symbolAddress 2 rest with
    | .ok (address, rest) => .ok ((name, address), rest)
    | .error error => .error error

/-- Takes a number of symbols, adding them to those known; of a repeated name the last address
counts. -/
def takeSymbols (known : NameMap Nat) : Nat → Unread → Except FormatError (NameMap Nat × Unread)
  | 0, unread => .ok (known, unread)
  | count + 1, unread =>
    match takeSymbol unread with
    | .ok ((name, address), rest) => takeSymbols (known.insert name address) count rest
    | .error error => .error error

/-- Reads a container. -/
def read (bytes : Bytes) : Except FormatError Library :=
  match takeText .magicLength .magic ⟨0, bytes⟩ with
  | .error error => .error error
  | .ok (magic, rest) =>
    if magic ≠ standardMagic then .error (.badMagic magic)
    else
      match takeText .versionLength .version rest with
      | .error error => .error error
      | .ok (version, rest) =>
        match takeBlock .codeLength .code rest with
        | .error error => .error error
        | .ok (code, rest) =>
          match takeNumber .symbolCount 8 rest with
          | .error error => .error error
          | .ok (count, rest) =>
            match takeSymbols .empty count rest with
            | .error error => .error error
            | .ok (symbols, rest) =>
              if rest.bytes.isEmpty then .ok ⟨magic, version, code, symbols⟩
              else .error (.trailing rest.bytes.length)

/-- Writes the container of a library to a file. -/
def writeFile (files : FileSystem) (library : Library) (path : Path) :
    Except FileError FileSystem :=
  files.write path library.write

end Library
end Lr35902
