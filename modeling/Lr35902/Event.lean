import Lr35902.File.Path
import Lr35902.Text.Numeral

/-!
Events: what the tools report about their progress. Every event has a level, a channel and one
wording.
-/
namespace Lr35902

/-- How loud an event is. -/
inductive Level where
  | debug | info | warning
  deriving DecidableEq

/-- Something worth reporting. -/
inductive Event where
  | label (name : String) (address : Int)
  | constant (name : String) (value : Int)
  | sectionMark (name : String) (address : Int)
  | included (file : String) (tokens : Nat)
  | resolved (instructions : Nat)
  | parsed (items : Nat) (size : Int) (symbols : Nat)
  | emitted (size : Int) (items : Nat)
  | reading (path : Path)
  | assembled (file : String) (size symbols : Nat)
  | wroteBytes (count : Nat) (path : String)
  | wroteSymbols (count : Nat) (path : String)
  | notDirectory (path : Path)
  | serialized (code symbols size : Nat)
  | wroteLibrary (path : String)
  deriving DecidableEq

namespace Level

def name : Level → String
  | .debug => "DEBUG" | .info => "INFO" | .warning => "WARNING"

end Level

namespace Event

def level : Event → Level
  | .assembled _ _ _ => .info
  | .notDirectory _ => .warning
  | _ => .debug

/-- The channel on which an event is reported. -/
def channel : Event → String
  | .label _ _ | .constant _ _ | .sectionMark _ _ | .included _ _ | .resolved _ | .parsed _ _ _ =>
    "gb_sdk.assembler.parser"
  | .emitted _ _ => "gb_sdk.assembler.codegen"
  | .reading _ | .assembled _ _ _ | .wroteBytes _ _ | .wroteSymbols _ _ | .notDirectory _ =>
    "gb_sdk.assembler.assembler"
  | .serialized _ _ _ | .wroteLibrary _ => "gb_sdk.obj.library"

/-- The wording of an event. -/
def message : Event → String
  | .label name address => "Label " ++ name ++ " = $" ++ Text.hex 4 address
  | .constant name value => "Constant " ++ name ++ " = $" ++ Text.hex 4 value
  | .sectionMark name address => "Section marker " ++ name ++ " at $" ++ Text.hex 4 address
  | .included file tokens =>
    "Included " ++ file ++ " (" ++ Text.decimalNat tokens ++ " tokens)"
  | .resolved instructions =>
    "Back-patched " ++ Text.decimalNat instructions ++ " instruction(s)"
  | .parsed items size symbols =>
    "Parsed " ++ Text.decimalNat items ++ " units, " ++ Text.decimal size ++ " bytes, " ++
      Text.decimalNat symbols ++ " symbols"
  | .emitted size items =>
    "Emitted " ++ Text.decimal size ++ " bytes for " ++ Text.decimalNat items ++ " units"
  | .reading path => "Reading " ++ path.text
  | .assembled file size symbols =>
    "Assembled " ++ file ++ ": " ++ Text.decimalNat size ++ " bytes, " ++
      Text.decimalNat symbols ++ " symbols"
  | .wroteBytes count path => "Wrote " ++ Text.decimalNat count ++ " bytes to " ++ path
  | .wroteSymbols count path => "Wrote " ++ Text.decimalNat count ++ " symbols to " ++ path
  | .notDirectory path => "Include path '" ++ path.text ++ "' is not a directory"
  | .serialized code symbols size =>
    "Serialized library: " ++ Text.decimalNat code ++ " code bytes, " ++
      Text.decimalNat symbols ++ " symbols, " ++ Text.decimalNat size ++ " bytes total"
  | .wroteLibrary path => "Wrote library to " ++ path

/-- An event as a record of the log: level, channel and wording. -/
def record (event : Event) : String :=
  event.level.name ++ " " ++ event.channel ++ ": " ++ event.message

/-- An event as the command line shows it: channel and wording. -/
def line (event : Event) : String := event.channel ++ ": " ++ event.message

end Event
end Lr35902
