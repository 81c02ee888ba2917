import Lr35902.Error
import Lr35902.Text.Case
import Lr35902.Text.Integer

/-!
Predefinitions on the command line: a name alone, which stands for one, or a name and a value in
decimal, hexadecimal or binary notation.
-/
namespace Lr35902
namespace Define

/-- The value that a text denotes. -/
def value? (text : String) : Option Int :=
  match (Text.lower (Text.trim text)).toList with
  | '$' :: digits => Text.readInteger? 16 digits
  | '0' :: 'x' :: digits => Text.readInteger? 16 digits
  | '0' :: 'b' :: digits => Text.readInteger? 2 digits
  | digits => Text.readInteger? 10 digits

/-- The name and the value of a predefinition, cut at its first equals sign. -/
def parse (text : String) : Except DefineError (String × Int) :=
  let before := text.toList.takeWhile (· != '=')
  let name := Text.trim (String.ofList before)
  if name.isEmpty then .error (.missingName text)
  else
    match text.toList.drop before.length with
    | [] => .ok (name, 1)
    | _ :: after =>
      match value? (String.ofList after) with
      | none => .error (.invalidValue text)
      | some value =>
        if 0 ≤ value ∧ value ≤ maxAddress then .ok (name, value) else .error (.wideValue text)

end Define
end Lr35902
