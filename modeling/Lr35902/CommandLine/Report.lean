import Lr35902.Error
import Lr35902.Text.Ansi

/-!
Reports: what a tool prints, and the code with which it exits. An error is printed according to the
sort of thing that went wrong.
-/
namespace Lr35902

/-- What a tool leaves behind: exit code, standard output, standard error, and the files. -/
structure Report where
  exitCode : Nat
  out : String
  err : String
  files : FileSystem

/-- The sorts of errors that exits distinguish. -/
inductive ErrorSort where
  | source | inner | tool | parameter | system | other
  deriving DecidableEq

/-- An error as reports see it: its sort and its wording. -/
structure Complaint where
  sort : ErrorSort
  text : String
  deriving DecidableEq

namespace ErrorSort

/-- The exit code after an error: one for bad input, two for bad arguments or files, three for a
fault of the tool itself. -/
def exitCode : ErrorSort → Nat
  | .source | .tool => 1
  | .parameter | .system => 2
  | .inner | .other => 3

end ErrorSort

namespace Complaint

/-- What stands before the wording. Errors in a source speak for themselves. -/
def opening (complaint : Complaint) (errorType : Option String) : String :=
  match complaint.sort with
  | .source => ""
  | .inner | .other => "Internal error: "
  | .parameter | .system => "Error: "
  | .tool =>
    match errorType with
    | none | some "" => "Error: "
    | some name => name ++ " error: "

/-- The lines that a tool prints for a complaint. Asked for details about a fault of its own, it has
none to give. -/
def lines (complaint : Complaint) (verbose : Bool) (errorType : Option String) : String :=
  let details :=
    match complaint.sort with
    | .inner | .other => if verbose then "NoneType: None\n" else ""
    | _ => ""
  Text.stripSequences (complaint.opening errorType ++ complaint.text) ++ "\n" ++ details

end Complaint

/-- The sort of an encoding fault. -/
def EncodeFault.sort : EncodeFault → ErrorSort
  | .noEncoding _ _ | .unresolved _ _ | .sizeMismatch _ _ _ _ _ => .inner
  | _ => .other

/-- The sort of a file error: a path that no file could have is no fault of the system. -/
def FileError.sort (error : FileError) : ErrorSort :=
  match error.fault with
  | .embeddedNul => .other
  | _ => .system

/-- The sort of an error. A diagnostic that cannot be put into words is a fault of the tool. -/
def Error.sort : Error → ErrorSort
  | .assembly (.diagnostic d) => if d.obstacle?.isNone then .source else .other
  | .assembly (.file error) => error.sort
  | .assembly _ => .other
  | .encoding fault => fault.sort
  | .nothingAssembled | .sourceNotUtf8 _ _ _ | .format _ => .tool
  | .file error => error.sort
  | .chunkSize _ | .symbolValue _ _ | .address _ => .other
  | .define _ => .parameter

/-- The complaint about an error. -/
def Error.complaint (error : Error) : Complaint := ⟨error.sort, error.message⟩

end Lr35902
