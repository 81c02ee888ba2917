import Lr35902.Assembly.Inclusion
import Lr35902.Assembly.Place
import Lr35902.Event
import Lr35902.Text.Lines

/-!
The state of an assembly between two statements, and what each statement does to it. Tokens of an
included file go in front of the tokens ahead, followed by a mark that closes the file again; the
files that are open are those whose marks are still ahead, and the file that the source came from.

The operations of the parser and what stands for them here:
* parsing one statement: `State.step`, which reads it and has `State.perform` carry it out;
* emitting an item, refused beyond the last address: `State.place`;
* parsing a label: `State.bindLabel`;
* building the operands of an instruction: `State.placeInstruction`;
* the directives that do more than emit: `State.placeOrigin`, `State.defineConstant`,
  `State.includeFile`;
* finishing an inclusion at its mark: `State.closeFile`;
* making an error with the quoted line: `State.diagnose`, `State.lineAt`.
-/
namespace Lr35902
namespace Assembly

/-- Why an assembly stops. Beside diagnostics there are paths too long to be looked for, texts that
have no bytes, and faults of tokens and surroundings made by hand; `exhausted` says that the step
budget ran out. -/
inductive Fault where
  | diagnostic (d : Diagnostic)
  | file (error : FileError)
  | unencodable (data : RefusedString)
  | unknownDirective (name : String)
  | negativeByte
  | notOpen (file : FileMark)
  | notSupplied (path : String)
  | exhausted
  deriving DecidableEq

/-- Between two statements: the tokens ahead, the program so far, the lines of the texts read so
far, the files that are open, and the events, the last one first. -/
structure State where
  tokens : List Token
  program : Program
  sources : List (String × Array String)
  openFiles : List Spot
  reported : List Event

/-- The lines of a text that diagnostics quote. -/
def quotedLines (text : List Char) : Array String :=
  ((Text.displayLines text).map String.ofList).toArray

namespace State

/-- The source line at a place, if its text is known. -/
def lineAt (state : State) (location : Location) : Option String :=
  match state.sources.lookup location.file with
  | some lines => if location.line ≤ 0 then none else lines[location.line.toNat - 1]?
  | none => none

/-- A diagnostic at a place, quoting its line. -/
def diagnose (state : State) (cause : Cause) (location : Location) (hint : Option String) :
    Fault :=
  .diagnostic ⟨cause, some location, hint, state.lineAt location⟩

/-- A fault of reading a statement, as a fault of the assembly. -/
def ofReading (state : State) : Statement.Fault → Fault
  | .rejected cause location hint => state.diagnose cause location hint
  | .unencodable data => .unencodable data
  | .unknownDirective name => .unknownDirective name
  | .negativeByte => .negativeByte

/-- Reports an event. -/
def report (state : State) (event : Event) : State :=
  { state with reported := event :: state.reported }

/-- Places what a statement at some location puts at the current address. -/
def place (state : State) (location : Location) (content : Content) : Except Fault State :=
  match state.program.place ⟨location, state.program.location, content⟩ with
  | .ok program => .ok { state with program := program }
  | .error (objection, location) =>
    .error (state.diagnose objection.cause location objection.hint)

/-- Defines a symbol at a place. -/
def define (state : State) (name : String) (value : Int) (location : Location)
    (isConstant : Bool) : Except Fault State :=
  match state.program.symbols.define ⟨name, value, some location, isConstant⟩
      (state.lineAt location) with
  | .ok symbols => .ok { state with program := { state.program with symbols := symbols } }
  | .error diagnostic => .error (.diagnostic diagnostic)

/-- Binds a label to the current address. -/
def bindLabel (state : State) (name : String) (location : Location) : Except Fault State :=
  let address := state.program.location
  if maxAddress < address then
    .error (state.diagnose (.labelBeyondMemory name address) location none)
  else
    match state.define name address location false with
    | .error fault => .error fault
    | .ok state => .ok (state.report (.label name address))

/-- Places an instruction of a form. -/
def placeInstruction (state : State) (location : Location) (mnemonic : String) (form : Form)
    (operands : List WrittenOperand) : Except Fault State :=
  match buildOperands (state.program.location + form.size) operands form.operands with
  | .error (objection, location) =>
    .error (state.diagnose objection.cause location objection.hint)
  | .ok built => state.place location (.instruction mnemonic built form.size)

/-- Pads up to a target, which cannot lie behind. -/
def placeOrigin (state : State) (location : Location) (target : Int) (targetLocation : Location)
    (value : Int) : Except Fault State :=
  if target < state.program.location then
    .error (state.diagnose (.originBehind target state.program.location) targetLocation none)
  else state.place location (.pad target value)

/-- Defines a constant and notes it in the program. -/
def defineConstant (state : State) (location : Location) (name : String)
    (nameLocation : Location) (value : Int) : Except Fault State :=
  match state.define name value nameLocation true with
  | .error fault => .error fault
  | .ok state =>
    match state.place location (.constant name value) with
    | .error fault => .error fault
    | .ok state => .ok (state.report (.constant name value))

/-- The mark that closes a file after its tokens. -/
def closingMark (spot : Spot) (file : String) (tokens : List Token) : Token :=
  let line := (tokens.getLast?.map fun token => token.location.line).getD 1
  ⟨.endInclude (.spot spot), ⟨file, line, 1⟩⟩

/-- Puts the tokens of a file and its closing mark in front, and opens the file. -/
def splice (state : State) (spot : Spot) (file : String) (text : List CodePoint)
    (tokens : List Token) : State :=
  { state with
    tokens := tokens ++ closingMark spot file tokens :: state.tokens
    sources := (file, quotedLines (text.map CodePoint.shadow)) :: state.sources
    openFiles := state.openFiles ++ [spot] }

/-- Includes a file: it has to be found, not to be open, to be readable, and to scan. A path that is
too long ends the search. -/
def includeFile (surroundings : Surroundings) (state : State) (location : Location)
    (name : String) (nameLocation : Location) : Except Fault State :=
  let refuse (fault : InclusionFault) (searched : List String) : Fault :=
    .diagnostic (.inclusion name fault (some nameLocation) (state.lineAt nameLocation) searched)
  match surroundings.find nameLocation.file name with
  | .failed error => .error (.file error)
  | .absent searched => .error (refuse .notFound searched)
  | .found path spot =>
    if state.openFiles.contains spot then
      .error (refuse (.circular (state.openFiles.map Spot.name ++ [path.name])) [])
    else
      match surroundings.readText path with
      | .error (.unreadable reason) => .error (refuse (.unreadable reason) [])
      | .error .notSupplied => .error (.notSupplied path.text)
      | .ok text =>
        match scanText text path.text with
        | .error diagnostic => .error (.diagnostic diagnostic)
        | .ok tokens =>
          match (state.splice spot path.text text tokens).place location
              (.inclusion name) with
          | .error fault => .error fault
          | .ok state => .ok (state.report (.included path.text tokens.length))

/-- Closes a file that is open. -/
def closeFile (state : State) (file : FileMark) : Except Fault State :=
  match state.openFiles.find? file.closes with
  | some spot => .ok { state with openFiles := state.openFiles.erase spot }
  | none => .error (.notOpen file)

/-- What a statement does. -/
def perform (surroundings : Surroundings) (state : State) (statement : Statement) :
    Except Fault State :=
  match statement.command with
  | .blank => .ok state
  | .endInclude file => state.closeFile file
  | .label name => state.bindLabel name statement.location
  | .instruction mnemonic form operands =>
    state.placeInstruction statement.location mnemonic form operands
  | .bytes data => state.place statement.location (.bytes data)
  | .string data => state.place statement.location (.string data)
  | .fill count value => state.place statement.location (.fill count value)
  | .origin target targetLocation value =>
    state.placeOrigin statement.location target targetLocation value
  | .constant name nameLocation value =>
    state.defineConstant statement.location name nameLocation value
  | .use file fileLocation => includeFile surroundings state statement.location file fileLocation
  | .sectionMark name => .ok (state.report (.sectionMark name state.program.location))

/-- One statement: it is read from the tokens ahead and performed. -/
def step (surroundings : Surroundings) (state : State) (token : Token) (rest : List Token) :
    Except Fault State :=
  match Statement.read token rest with
  | .error fault => .error (state.ofReading fault)
  | .ok (statement, rest) => perform surroundings { state with tokens := rest } statement

end State
end Assembly
end Lr35902
