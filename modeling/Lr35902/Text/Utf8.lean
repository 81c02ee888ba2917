import Lr35902.Text.Quoted

/-!
UTF-8. A lead byte decides how many tail bytes follow and which the first of them may be; decoding
stops at the first sequence that is not well formed and says where it stands.
-/
namespace Lr35902

/-- A sequence of bytes. -/
abbrev Bytes := List UInt8

namespace Utf8

/-- The bytes of one character. -/
def encodeChar (c : Char) : Bytes :=
  let n := c.toNat
  if n < 0x80 then [n.toUInt8]
  else if n < 0x800 then [(0xC0 + n / 64).toUInt8, (0x80 + n % 64).toUInt8]
  else if n < 0x10000 then
    [(0xE0 + n / 4096).toUInt8, (0x80 + n / 64 % 64).toUInt8, (0x80 + n % 64).toUInt8]
  else
    [(0xF0 + n / 262144).toUInt8, (0x80 + n / 4096 % 64).toUInt8, (0x80 + n / 64 % 64).toUInt8,
      (0x80 + n % 64).toUInt8]

/-- The bytes of a list of characters. -/
def encode (cs : List Char) : Bytes := cs.flatMap encodeChar

/-- Why a sequence is not well formed. -/
inductive Reason where
  | invalidStart
  | invalidContinuation
  | unexpectedEnd
  deriving DecidableEq

/-- A sequence that is not well formed: where it starts, how many of its bytes could still begin a
character (at least the first is counted), and its first byte. -/
structure Fault where
  offset : Nat
  length : Nat
  byte : UInt8
  reason : Reason
  deriving DecidableEq

/-- What a lead byte says: its own bits of the code point, the number of tails, and the bounds of
the first tail. -/
structure Lead where
  bits : Nat
  tails : Nat
  low : Nat
  high : Nat

/-- The meaning of a lead byte beyond ASCII. -/
def lead? (b : Nat) : Option Lead :=
  if b < 0xC2 then none
  else if b < 0xE0 then some ⟨b - 0xC0, 1, 0x80, 0xBF⟩
  else if b < 0xF0 then
    some ⟨b - 0xE0, 2, if b = 0xE0 then 0xA0 else 0x80, if b = 0xED then 0x9F else 0xBF⟩
  else if b < 0xF5 then
    some ⟨b - 0xF0, 3, if b = 0xF0 then 0x90 else 0x80, if b = 0xF4 then 0x8F else 0xBF⟩
  else none

/-- Reads `count` tails, the first within the bounds, and appends their bits to `bits`. A failure
counts the bytes of the sequence that were still good, of which `seen` came before. -/
def readTails (low high bits seen : Nat) : Nat → Bytes → Except (Nat × Reason) Nat
  | 0, _ => .ok bits
  | _ + 1, [] => .error (seen, .unexpectedEnd)
  | count + 1, b :: rest =>
    if low ≤ b.toNat ∧ b.toNat ≤ high then
      readTails 0x80 0xBF (bits * 64 + (b.toNat - 0x80)) (seen + 1) count rest
    else .error (seen, .invalidContinuation)

/-- Decodes bytes that stand at an offset, after the characters `done`, the last one first. -/
def decodeFrom (offset : Nat) (done : List Char) : Bytes → Except Fault (List Char)
  | [] => .ok done.reverse
  | b :: rest =>
    if b.toNat < 0x80 then decodeFrom (offset + 1) (Char.ofNat b.toNat :: done) rest
    else
      match lead? b.toNat with
      | none => .error ⟨offset, 1, b, .invalidStart⟩
      | some lead =>
        match readTails lead.low lead.high lead.bits 1 lead.tails rest with
        | .error (length, reason) => .error ⟨offset, length, b, reason⟩
        | .ok n => decodeFrom (offset + 1 + lead.tails) (Char.ofNat n :: done) (rest.drop lead.tails)
termination_by bytes => bytes.length
decreasing_by all_goals simp only [List.length_cons, List.length_drop]; omega

/-- The characters that bytes spell, or the first fault. -/
def decode (bytes : Bytes) : Except Fault (List Char) := decodeFrom 0 [] bytes

/-- The wording of a reason. -/
def Reason.text : Reason → String
  | .invalidStart => "invalid start byte"
  | .invalidContinuation => "invalid continuation byte"
  | .unexpectedEnd => "unexpected end of data"

/-- The wording of a fault: one byte is named by its value, several by their positions. -/
def Fault.message (fault : Fault) : String :=
  let span :=
    if fault.length = 1 then
      "byte 0x" ++ String.ofList (Text.smallHex 2 fault.byte.toNat) ++ " in position " ++
        Text.decimalNat fault.offset
    else
      "bytes in position " ++ Text.decimalNat fault.offset ++ "-" ++
        Text.decimalNat (fault.offset + fault.length - 1)
  "'utf-8' codec can't decode " ++ span ++ ": " ++ fault.reason.text

end Utf8
end Lr35902
