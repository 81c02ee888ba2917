import Lr35902.CommandLine.Assemble

/-!
The library tool: it shows what a library holds, or extracts its code.
-/
namespace Lr35902
namespace InspectCommand

/-- The end of a command that failed. -/
def fail (files : FileSystem) (error : Error) : Report :=
  let complaint := error.complaint
  ⟨complaint.sort.exitCode, "", complaint.lines false none, files⟩

/-- The library in a file. -/
def load (files : FileSystem) (path : Path) : Except Error Library :=
  match files.read path with
  | .error error => .error (.file error)
  | .ok bytes =>
    match Library.read bytes with
    | .error error => .error (.format error)
    | .ok library => .ok library

/-- The order in which symbols are shown: by address, then by name. -/
def symbolLE (symbol other : String × Nat) : Bool :=
  decide (symbol.2 < other.2) || (symbol.2 == other.2 && Library.nameLE symbol other)

/-- The lines that show a library. -/
def describe (path : Path) (library : Library) : List String :=
  ["Library: " ++ path.text,
    String.ofList (List.replicate 40 '='),
    "Version:     " ++ library.version,
    "Code size:   " ++ Text.decimalNat library.code.length ++ " bytes",
    "Symbols:     " ++ Text.decimalNat library.symbols.size] ++
  (library.symbols.entries.mergeSort symbolLE).map fun symbol =>
    "  $" ++ Text.hex 4 symbol.2 ++ "  " ++ symbol.1

/-- Lines as they are printed. -/
def printLines (lines : List String) : String :=
  String.join (lines.map fun line => Text.stripSequences line ++ "\n")

/-- Shows a library. -/
def showLibrary (files : FileSystem) (path : Path) : Report :=
  match load files path with
  | .error error => fail files error
  | .ok library => ⟨0, printLines (describe path library), "", files⟩

/-- Extracts the code of a library. -/
def extract (files : FileSystem) (path output : Path) : Report :=
  match load files path with
  | .error error => fail files error
  | .ok library =>
    match files.write output library.code with
    | .error error => fail files (.file error)
    | .ok files =>
      ⟨0, printLines ["Extracted " ++ Text.decimalNat library.code.length ++ " bytes to " ++
        output.text], "", files⟩

end InspectCommand
end Lr35902
