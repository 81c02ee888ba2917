import Lr35902.Assembly.Resolve

/-!
Whole assemblies: statement after statement until no token is left, then resolution. The number of
steps is bounded by a budget computed from the tokens and the files that exist.
-/
namespace Lr35902
namespace Assembly

/-- Where a run ended: the state it reached, and the fault that stopped it there, if one did. -/
structure Stop where
  state : State
  fault : Option Fault

/-- Performs statements until the tokens run out, a fault arises, or the budget is spent. -/
def run (surroundings : Surroundings) : Nat → State → Stop
  | budget, state =>
    match state.tokens with
    | [] => ⟨state, none⟩
    | token :: rest =>
      match budget with
      | 0 => ⟨state, some .exhausted⟩
      | budget + 1 =>
        match state.step surroundings token rest with
        | .error fault => ⟨state, some fault⟩
        | .ok state => run surroundings budget state

/-- The steps that one token may take when `depth` more files may be opened below it: the token
itself, and all the tokens that it may bring in. -/
def tokenCost (longest : Nat) : Nat → Nat
  | 0 => 1
  | depth + 1 => 1 + (longest + 1) * tokenCost longest depth

/-- A number of steps that suffices for the tokens of a state. -/
def budgetFor (surroundings : Surroundings) (state : State) : Nat :=
  state.tokens.length * tokenCost surroundings.longestText surroundings.fileCount

/-- What an assembly starts from: its tokens, the file they came from, its text if diagnostics shall
quote it, and constants that are defined beforehand. -/
structure Source where
  tokens : List Token
  file : String
  text : Option (List Char)
  defines : NameMap Int

/-- Defines constants that have no place in the source. -/
def predefine (table : SymbolTable) : List (String × Int) → Except Diagnostic SymbolTable
  | [] => .ok table
  | (name, value) :: rest =>
    match table.define ⟨name, value, none, true⟩ none with
    | .ok table => predefine table rest
    | .error diagnostic => .error diagnostic

/-- The files that are open at the start: the file of the source, if it exists. -/
def initiallyOpen (surroundings : Surroundings) (file : String) :
    Except FileError (List Spot) :=
  if file = Location.input then .ok []
  else
    let path := Path.ofString file
    match surroundings.files.fileSpot? path with
    | .error error => .error error
    | .ok (some spot) => .ok [spot]
    | .ok none => .ok []

/-- The state before the first statement. -/
def start (surroundings : Surroundings) (source : Source) : Except Fault State :=
  match initiallyOpen surroundings source.file with
  | .error error => .error (.file error)
  | .ok openFiles =>
    match predefine .empty source.defines.entries with
    | .error diagnostic => .error (.diagnostic diagnostic)
    | .ok symbols =>
      .ok {
        tokens := source.tokens
        program := { Program.empty with symbols := symbols }
        sources :=
          match source.text with
          | some text => [(source.file, quotedLines text)]
          | none => []
        openFiles := openFiles
        reported := [] }

/-- The events of an assembly, and its program or the fault that stopped it. -/
structure Outcome where
  events : List Event
  result : Except Fault Program

/-- Assembles a source. -/
def assemble (surroundings : Surroundings) (source : Source) : Outcome :=
  match start surroundings source with
  | .error fault => ⟨[], .error fault⟩
  | .ok state =>
    match run surroundings (budgetFor surroundings state) state with
    | ⟨state, some fault⟩ => ⟨state.reported.reverse, .error fault⟩
    | ⟨state, none⟩ =>
      match state.resolve with
      | .error fault => ⟨state.reported.reverse, .error fault⟩
      | .ok state => ⟨state.reported.reverse, .ok state.program⟩

end Assembly

/-- Scans and assembles a text. -/
def assembleText (surroundings : Surroundings) (text : String) (file : String)
    (defines : NameMap Int) : Assembly.Outcome :=
  match scan text file with
  | .error diagnostic => ⟨[], .error (.diagnostic diagnostic)⟩
  | .ok tokens => Assembly.assemble surroundings ⟨tokens, file, some text.toList, defines⟩

/-- Scans and assembles a text that may hold surrogates. -/
def assemblePoints (surroundings : Surroundings) (text : List CodePoint) (file : String)
    (defines : NameMap Int) : Assembly.Outcome :=
  match scanText text file with
  | .error diagnostic => ⟨[], .error (.diagnostic diagnostic)⟩
  | .ok tokens =>
    Assembly.assemble surroundings ⟨tokens, file, some (text.map CodePoint.shadow), defines⟩

end Lr35902
