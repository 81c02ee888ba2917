import Lr35902.CommandLine.Define
import Lr35902.CommandLine.Report
import Lr35902.Session

/-!
The assembler as a command: a request names the file to assemble, and what is written if everything
went well. How a request is put on the command line is told apart, in `CommandLine.Arguments`.
-/
namespace Lr35902
namespace AssembleCommand

/-- The two output formats. -/
inductive Format where
  | binary | library
  deriving DecidableEq

/-- A request to assemble. -/
structure Request where
  input : Path
  output : Path
  format : Format
  includePaths : List Path
  defines : List String
  symbols : Option Path
  verbose : Bool
  deriving DecidableEq

def Format.name : Format → String
  | .binary => "bin" | .library => "lib"

/-- What has been printed so far. -/
structure Printed where
  out : String
  err : String

namespace Printed

def nothing : Printed := ⟨"", ""⟩

/-- Prints a line on standard output, if asked for details. -/
def detail (printed : Printed) (verbose : Bool) (line : String) : Printed :=
  if verbose then { printed with out := printed.out ++ Text.stripSequences line ++ "\n" }
  else printed

/-- Prints events on standard error, if asked for details. -/
def events (printed : Printed) (verbose : Bool) (events : List Event) : Printed :=
  if verbose then
    { printed with
      err := events.foldl (fun text event => text ++ event.line ++ "\n") printed.err }
  else printed

end Printed

/-- The end of a command that failed. -/
def fail (printed : Printed) (request : Request) (files : FileSystem) (error : Error) : Report :=
  let complaint := error.complaint
  ⟨complaint.sort.exitCode, printed.out,
    printed.err ++ complaint.lines request.verbose (some "Assembly"), files⟩

/-- Predefines the constants that are asked for. -/
def defineAll (session : Session) : List String → Except Error Session
  | [] => .ok session
  | text :: rest =>
    match Define.parse text with
    | .error error => .error (.define error)
    | .ok (name, value) =>
      match session.define name value with
      | .error error => .error error
      | .ok session => defineAll session rest

/-- How files are written and removed. -/
structure Access where
  write : FileSystem.Writer
  remove : FileSystem.Remover

/-- Writing and removing as the file system does it. -/
def Access.standard : Access := ⟨FileSystem.write, FileSystem.remove⟩

/-- Removes files in order, as far as that can be done. -/
def removeAll (access : Access) (files : FileSystem) :
    List Path → FileSystem × Except FileError Unit
  | [] => (files, .ok ())
  | path :: rest =>
    match access.remove files path with
    | .ok files => removeAll access files rest
    | .error error => (files, .error error)

/-- Writes files in order. If one cannot be written, those already written are removed; if one of
these cannot be removed, that is the error. -/
def writeOutputs (access : Access) (files : FileSystem) (written : List Path) :
    List (Path × Bytes) → FileSystem × Except FileError Unit
  | [] => (files, .ok ())
  | (path, data) :: rest =>
    match access.write files path data with
    | .ok files => writeOutputs access files (written ++ [path]) rest
    | .error error =>
      match removeAll access files written with
      | (files, .ok ()) => (files, .error error)
      | (files, .error error) => (files, .error error)

/-- The content of the output file, and the events of making it. -/
def outputData (request : Request) (session : Session) (code : Bytes) :
    Except Error (Bytes × List Event) :=
  match request.format with
  | .binary => .ok (code, [])
  | .library =>
    match session.library with
    | .error error => .error error
    | .ok library => .ok (library.write, [library.writeEvent])

/-- The symbol listing as a file, if it is asked for. -/
def symbolsData (request : Request) (session : Session) : List (Path × Bytes) :=
  match request.symbols, session.listing with
  | some path, .ok listing => [(path, Utf8.encode listing.toList)]
  | _, _ => []

/-- The lines at the end of a successful run. -/
def summary (printed : Printed) (request : Request) (code : Bytes) (session : Session) :
    Printed :=
  let verbose := request.verbose
  let printed := printed.detail verbose
    ("Wrote " ++ Text.decimalNat code.length ++ " bytes (" ++ request.format.name ++ ") to " ++
      request.output.text)
  let printed :=
    match request.symbols with
    | some path => printed.detail verbose ("Wrote symbols to " ++ path.text)
    | none => printed
  let count :=
    match session.symbols with
    | .ok symbols => symbols.size
    | .error _ => 0
  printed.detail verbose ("Defined " ++ Text.decimalNat count ++ " symbols")

/-- Writes the outputs of a successful assembly. -/
def deliver (access : Access) (files : FileSystem) (request : Request)
    (printed : Printed) (session : Session) (code : Bytes) : Report :=
  match outputData request session code with
  | .error error => fail printed request files error
  | .ok (data, events) =>
    let printed := printed.events request.verbose events
    match writeOutputs access files [] ((request.output, data) :: symbolsData request session) with
    | (files, .error error) => fail printed request files (.file error)
    | (files, .ok ()) =>
      let printed := summary printed request code session
      ⟨0, printed.out, printed.err, files⟩

/-- Assembles the input with a session that has the include paths asked for. -/
def performWith (access : Access) (files : FileSystem) (request : Request)
    (printed : Printed) (session : Session) : Report :=
  match defineAll session request.defines with
  | .error error => fail printed request files error
  | .ok session =>
    let printed := printed.detail request.verbose ("Assembling " ++ request.input.text ++ "...")
    let answer := session.assembleFile files request.input
    let printed := printed.events request.verbose answer.events
    match answer.result with
    | .error error => fail printed request files error
    | .ok code => deliver access files request printed answer.session code

/-- Carries out a request. -/
def perform (access : Access) (files : FileSystem) (request : Request) : Report :=
  let session := Session.plain .standard request.verbose
  match session.addIncludePaths files request.includePaths with
  | .error error => fail .nothing request files error
  | .ok (session, events) =>
    performWith access files request (Printed.nothing.events request.verbose events) session

end AssembleCommand
end Lr35902
