import Lr35902.Error

/-!
Sessions: an assembler with its settings and the result of its last assembly. A new assembly drops
the earlier result before it begins, so that a failure leaves none; a source file that cannot be
read does not begin one.

The operations of the assembler and what stands for them here:
* making an assembler: `Session.make`, which adds include paths and constants one by one
  (`Session.addIncludePath`, `Session.define`);
* assembling a string or a file: `Session.assembleString`, `Session.assembleFile`;
* asking for the result of the last assembly, which there may be none of: `Session.code`,
  `Session.program`, `Session.symbols`, `Session.exports`;
* building a library and formatting the symbols: `Session.library`, `Session.listing`;
* writing each of these to a file: `Session.writeBinary`, `Session.writeLibrary`,
  `Session.writeSymbols`.
-/
namespace Lr35902

/-- An assembled program and its code. -/
structure Assembled where
  program : Program
  code : Bytes

/-- An assembler. -/
structure Session where
  includePaths : List Path
  defines : NameMap Int
  verbose : Bool
  chunk : ChunkSize
  last : Option Assembled

/-- The answer to a request: the session afterwards, the events on the way, and a value or an
error. -/
structure Answer (α : Type) where
  session : Session
  events : List Event
  result : Except Error α

namespace SymbolTable

/-- The order of the symbol listing: by value, then by name, code point by code point. -/
def listingLE (symbol other : Symbol) : Bool :=
  decide (symbol.value < other.value) ||
    (symbol.value == other.value && decide (symbol.name ≤ other.name))

/-- The width to which the listing fills names. -/
def nameWidth : Nat := 24

/-- One line of the symbol listing. -/
def listingLine (symbol : Symbol) : String :=
  let fill := String.ofList (List.replicate (nameWidth - symbol.name.length) ' ')
  symbol.name ++ fill ++ " = $" ++ Text.hex 4 symbol.value ++
    if symbol.isConstant then "  (equ)" else ""

/-- The symbol listing: a heading, and one line for each symbol. -/
def listing (table : SymbolTable) : String :=
  "\n".intercalate
    ("; symbol table" :: (table.symbols.mergeSort listingLE).map listingLine) ++ "\n"

end SymbolTable

namespace Session

/-- An assembler without settings. -/
def plain (chunk : ChunkSize) (verbose : Bool) : Session := ⟨[], .empty, verbose, chunk, none⟩

/-- Adds a directory in which included files are looked for. What is not a directory is reported
and left out; a path that is too long is an error. -/
def addIncludePath (files : FileSystem) (session : Session) (path : Path) :
    Except Error (Session × List Event) :=
  match files.isDirectory path with
  | .error error => .error (.file error)
  | .ok false => .ok (session, [.notDirectory path])
  | .ok true =>
    if session.includePaths.contains path then .ok (session, [])
    else .ok ({ session with includePaths := session.includePaths ++ [path] }, [])

/-- Predefines a constant, which has to fit in 16 bits. -/
def define (session : Session) (name : String) (value : Int) : Except Error Session :=
  if 0 ≤ value ∧ value ≤ maxAddress then
    .ok { session with defines := session.defines.insert name value }
  else .error (.symbolValue name value)

/-- Adds several directories. -/
def addIncludePaths (files : FileSystem) (session : Session) :
    List Path → Except Error (Session × List Event)
  | [] => .ok (session, [])
  | path :: rest =>
    match session.addIncludePath files path with
    | .error error => .error error
    | .ok (session, events) =>
      match session.addIncludePaths files rest with
      | .error error => .error error
      | .ok (session, more) => .ok (session, events ++ more)

/-- Predefines several constants. -/
def defineAll (session : Session) : List (String × Int) → Except Error Session
  | [] => .ok session
  | (name, value) :: rest =>
    match session.define name value with
    | .ok session => session.defineAll rest
    | .error error => .error error

/-- A session with the settings asked for. -/
def make (files : FileSystem) (includePaths : List Path) (defines : NameMap Int)
    (verbose : Bool) (chunkSize : Int) : Except Error (Session × List Event) :=
  match ChunkSize.ofInt? chunkSize with
  | none => .error (.chunkSize chunkSize)
  | some chunk =>
    match addIncludePaths files (plain chunk verbose) includePaths with
    | .error error => .error error
    | .ok (session, events) =>
      match session.defineAll defines.entries with
      | .ok session => .ok (session, events)
      | .error error => .error error

/-- Where the session finds included files. -/
def surroundings (session : Session) (files : FileSystem) : Surroundings :=
  ⟨files, session.includePaths, none⟩

/-- Assembles a text. -/
def assembleString (files : FileSystem) (session : Session) (source file : String) :
    Answer Bytes :=
  let cleared := { session with last := none }
  let outcome := assembleText (session.surroundings files) source file session.defines
  match outcome.result with
  | .error fault => ⟨cleared, outcome.events, .error (.assembly fault)⟩
  | .ok program =>
    match MachineCode.generate session.chunk program with
    | .error fault => ⟨cleared, outcome.events, .error (.encoding fault)⟩
    | .ok (code, emitted) =>
      let events := outcome.events ++ [emitted]
      let events :=
        if session.verbose then
          events ++ [.assembled file code.length program.symbols.size]
        else events
      ⟨{ session with last := some ⟨program, code⟩ }, events, .ok code⟩

/-- The error for a source file that cannot be read. -/
def sourceError (path : Path) : ReadError → Error
  | .file error => .file error
  | .encoding fault => .sourceNotUtf8 path.text fault.byte fault.offset

/-- Assembles a file. -/
def assembleFile (files : FileSystem) (session : Session) (path : Path) : Answer Bytes :=
  match files.readText path with
  | .error error => ⟨session, [.reading path], .error (sourceError path error)⟩
  | .ok text =>
    let answer := assembleString files session (String.ofList text) path.text
    { answer with events := [.reading path] ++ answer.events }

/-- The result of the last assembly. -/
def result (session : Session) : Except Error Assembled :=
  match session.last with
  | some assembled => .ok assembled
  | none => .error .nothingAssembled

/-- The machine code of the last assembly. -/
def code (session : Session) : Except Error Bytes :=
  match session.result with
  | .ok assembled => .ok assembled.code
  | .error error => .error error

/-- The program of the last assembly. -/
def program (session : Session) : Except Error Program :=
  match session.result with
  | .ok assembled => .ok assembled.program
  | .error error => .error error

/-- All symbols of the last assembly. -/
def symbols (session : Session) : Except Error (NameMap Int) :=
  match session.program with
  | .ok program => .ok program.symbols.values
  | .error error => .error error

/-- The labels of the last assembly, which a library exports. -/
def exports (session : Session) : Except Error (NameMap Int) :=
  match session.program with
  | .ok program => .ok program.symbols.labels
  | .error error => .error error

/-- The library of the last assembly. -/
def library (session : Session) : Except Error Library :=
  match session.result with
  | .error error => .error error
  | .ok assembled =>
    match Library.make assembled.code assembled.program.symbols.labels with
    | .ok library => .ok library
    | .error error => .error (.address error)

/-- The symbol listing of the last assembly. -/
def listing (session : Session) : Except Error String :=
  match session.program with
  | .ok program => .ok program.symbols.listing
  | .error error => .error error

/-- Writes the machine code to a file. -/
def writeBinary (files : FileSystem) (session : Session) (path : String) :
    Except Error (FileSystem × List Event) :=
  match session.code with
  | .error error => .error error
  | .ok code =>
    match files.write (Path.ofString path) code with
    | .error error => .error (.file error)
    | .ok files => .ok (files, [.wroteBytes code.length path])

/-- Writes the library to a file. The container is made, and reported, before the file is
written. -/
def writeLibrary (files : FileSystem) (session : Session) (path : String) :
    List Event × Except Error FileSystem :=
  match session.library with
  | .error error => ([], .error error)
  | .ok library =>
    let made := [library.writeEvent]
    match files.write (Path.ofString path) library.write with
    | .error error => (made, .error (.file error))
    | .ok files => (made ++ [.wroteLibrary path], .ok files)

/-- Writes the symbol listing to a file. -/
def writeSymbols (files : FileSystem) (session : Session) (path : String) :
    Except Error (FileSystem × List Event) :=
  match session.program with
  | .error error => .error error
  | .ok program =>
    match files.write (Path.ofString path) (Utf8.encode program.symbols.listing.toList) with
    | .error error => .error (.file error)
    | .ok files => .ok (files, [.wroteSymbols program.symbols.size path])

end Session
end Lr35902
