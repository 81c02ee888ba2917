import Lr35902.CommandLine.Inspect
import Lr35902.CommandLine.Options

/-!
The commands as they are typed: which options and arguments they take, and the requests that these
make. Everything that the commands then do depends on the requests alone.
-/
namespace Lr35902

namespace AssembleCommand

/-- The version that both commands report. -/
def version : String := "1.0.0"

/-- What the command takes. -/
def spec : CommandSpec where
  options :=
    [⟨some 'o', "output", .file false, false, some "out.gb", false⟩,
      ⟨some 'f', "format", .choice ["bin", "lib"], false, some "bin", false⟩,
      ⟨some 'I', "include", .directory, true, none, false⟩,
      ⟨some 'D', "define", .text, true, none, false⟩,
      ⟨some 's', "symbols", .file false, false, none, false⟩,
      .flag (some 'v') "verbose",
      .flag none "version",
      .flag none "help"]
  argument := some ("INPUT_FILE", .file true)
  argumentsLast := false

/-- The request that a checked command line makes. -/
def request (words : Words) : Request where
  input := Path.ofString (words.arguments.headD "")
  output := Path.ofString ((spec.valueOf? words "output").getD "")
  format :=
    if ((spec.valueOf? words "format").getD "").map Char.toLower = "lib" then .library
    else .binary
  includePaths := (words.valuesOf "include").map Path.ofString
  defines := words.valuesOf "define"
  symbols := (spec.valueOf? words "symbols").map Path.ofString
  verbose := words.has "verbose"

/-- The report on a command line that is refused. -/
def refuse (files : FileSystem) (error : UsageError) : Report :=
  ⟨2, "", Text.stripSequences ("Error: " ++ error.message) ++ "\n", files⟩

/-- Runs the command. -/
def run (files : FileSystem) (arguments : List String) : Report :=
  match spec.readWords .none arguments with
  | .error error => refuse files error
  | .ok words =>
    match words.firstOf? ["help", "version"] with
    | some "help" => ⟨0, "Usage: gbasm [OPTIONS] INPUT_FILE\n", "", files⟩
    | some _ => ⟨0, "gbasm, version " ++ version ++ "\n", "", files⟩
    | none =>
      match spec.check files words with
      | .error error => refuse files error
      | .ok () => perform .standard files (request words)

end AssembleCommand

namespace InspectCommand

/-- What the tool takes before the name of a subcommand. -/
def spec : CommandSpec where
  options := [.flag (some 'V') "version", .flag none "help"]
  argument := none
  argumentsLast := true

/-- What the subcommand that shows a library takes. -/
def infoSpec : CommandSpec where
  options := [.flag none "help"]
  argument := some ("LIB_FILE", .file true)
  argumentsLast := false

/-- What the subcommand that extracts code takes. -/
def extractSpec : CommandSpec where
  options := [⟨some 'o', "output", .file false, false, none, true⟩, .flag none "help"]
  argument := some ("LIB_FILE", .file true)
  argumentsLast := false

/-- The report that shows how the tool is called. -/
def help (files : FileSystem) : Report :=
  ⟨0, "Usage: gbobj [OPTIONS] COMMAND [ARGS]...\n", "", files⟩

/-- Runs a subcommand on the words after its name. -/
def runSubcommand (files : FileSystem) (spec : CommandSpec) (arguments : List String)
    (perform : Words → Report) : Report :=
  match spec.readWords .none arguments with
  | .error error => AssembleCommand.refuse files error
  | .ok words =>
    if words.has "help" then help files
    else
      match spec.check files words with
      | .error error => AssembleCommand.refuse files error
      | .ok () => perform words

/-- Runs the tool. -/
def run (files : FileSystem) (arguments : List String) : Report :=
  match spec.readWords .none arguments with
  | .error error => AssembleCommand.refuse files error
  | .ok words =>
    match words.firstOf? ["help", "version"], words.arguments with
    | some "help", _ => help files
    | some _, _ => ⟨0, "gbobj, version " ++ AssembleCommand.version ++ "\n", "", files⟩
    | none, [] =>
      if arguments.isEmpty then help files else AssembleCommand.refuse files .missingCommand
    | none, "info" :: rest =>
      runSubcommand files infoSpec rest fun words =>
        showLibrary files (Path.ofString (words.arguments.headD ""))
    | none, "extract" :: rest =>
      runSubcommand files extractSpec rest fun words =>
        extract files (Path.ofString (words.arguments.headD ""))
          (Path.ofString ((extractSpec.valueOf? words "output").getD ""))
    | none, name :: _ => AssembleCommand.refuse files (.noSuchCommand name)

end InspectCommand
end Lr35902
