/-!
Lengths of texts and runs of bytes: there is a greatest one.
-/
namespace Lr35902.Text

/-- The greatest length that a text or a run of bytes can have. -/
def lengthLimit : Int := 0x7FFFFFFFFFFFFFFF

/-- The wording of the fault that a length exceeds the greatest one. -/
def lengthLimitMessage : String := "cannot fit 'int' into an index-sized integer"

end Lr35902.Text
