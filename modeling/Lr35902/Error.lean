import Lr35902.Assembly.Run
import Lr35902.Library

/-!
Errors of the tools as a whole: every way in which assembling, packing, reading and writing can
fail, with one wording each.
-/
namespace Lr35902

/-- Why a predefinition on the command line is refused. -/
inductive DefineError where
  | missingName (text : String)
  | invalidValue (text : String)
  | wideValue (text : String)
  deriving DecidableEq

/-- Any error. -/
inductive Error where
  | assembly (fault : Assembly.Fault)
  | encoding (fault : EncodeFault)
  | nothingAssembled
  | sourceNotUtf8 (path : String) (byte : UInt8) (offset : Nat)
  | format (error : FormatError)
  | file (error : FileError)
  | chunkSize (size : Int)
  | symbolValue (name : String) (value : Int)
  | address (error : AddressError)
  | define (error : DefineError)
  deriving DecidableEq

/-- The wording of a refused predefinition. -/
def DefineError.message : DefineError → String
  | .missingName text => "missing symbol name in -D " ++ text
  | .invalidValue text => "invalid value in -D " ++ text
  | .wideValue text => "value in -D " ++ text ++ " does not fit in 16 bits"

/-- The wording of an assembly fault. -/
def Assembly.Fault.message : Assembly.Fault → String
  | .diagnostic d =>
    match d.obstacle? with
    | some obstacle => obstacle.message
    | none => d.render
  | .file error => error.message
  | .unencodable data => data.message
  | .unknownDirective name => Text.quoted name
  | .negativeByte => "bytes must be in range(0, 256)"
  | .notOpen _ => "list.remove(x): x not in list"
  | .notSupplied path => Text.quoted path
  | .exhausted => "too many steps"

/-- The wording of an error. -/
def Error.message : Error → String
  | .assembly fault => fault.message
  | .encoding fault => fault.message
  | .nothingAssembled => "nothing has been assembled"
  | .sourceNotUtf8 path byte offset =>
    path ++ ": source is not valid UTF-8 (byte $" ++ Text.hex 2 byte.toNat ++ " at offset " ++
      Text.decimalNat offset ++ ")"
  | .format error => error.message
  | .file error => error.message
  | .chunkSize size => "chunk size must be positive, got " ++ Text.decimal size
  | .symbolValue name value =>
    "value of '" ++ name ++ "' must be in 0..$FFFF, got " ++ Text.decimal value
  | .address error => error.message
  | .define error => error.message

end Lr35902
