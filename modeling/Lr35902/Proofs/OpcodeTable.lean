import Lr35902.Cpu.Form
import Mathlib.Data.List.Nodup

/-!
Facts about the opcode table that hold form by form. Names and keys can be read back
(`ofName?_name`, `ofKey?_key`), and no two forms of a mnemonic share their operand classes, so that
looking a form up by its mnemonic and its keys finds that form and no other (`lookup?_keys`). The
last fact compares every form with every other; forms are numbered, so that one pass over the table
with a set of the numbers seen settles it.
-/
namespace Lr35902

/-! ## Names and keys -/

theorem Mnemonic.ofName?_name (m : Mnemonic) : ofName? m.name = some m := by
  cases m <;> decide +kernel

theorem Mnemonic.ofName?_eq_some {text : String} {m : Mnemonic} :
    ofName? text = some m ↔ m.name = text := by
  constructor
  · intro h
    have hm := List.find?_some h
    simpa using hm
  · rintro rfl
    exact ofName?_name m

theorem OperandClass.ofKey?_key (cls : OperandClass) : ofKey? cls.key = some cls := by
  have hAll : ∀ c ∈ all, ofKey? c.key = some c := by decide +kernel
  have hMem : cls ∈ all := by
    cases cls with
    | register r => cases r <;> decide
    | pair p => cases p <;> decide
    | condition k => cases k <;> decide
    | through p => cases p <;> decide
    | bit i => revert i; decide
    | vector i => revert i; decide
    | highC | byte | word | high | memory | relative => decide
  exact hAll cls hMem

/-! ## One form for each mnemonic and operand classes -/

/-- A search stops at the only element that passes its test. -/
theorem find?_eq_some_of_unique {α : Type} {test : α → Bool} {a : α} {list : List α}
    (hMem : a ∈ list) (hTest : test a = true)
    (hUnique : ∀ b ∈ list, test b = true → b = a) : list.find? test = some a := by
  have hFound : (list.find? test).isSome = true := List.find?_isSome.2 ⟨a, hMem, hTest⟩
  obtain ⟨b, hb⟩ := Option.isSome_iff_exists.1 hFound
  rw [hb, hUnique b (List.mem_of_find?_eq_some hb) (List.find?_some hb)]

namespace OperandClass

/-- A number for a class. Classes that one written operand may fit have the same number, single
values of bits and vectors apart: a number may be a byte, a word or a target, and `c` may be the
register or the carry condition. -/
def shape : OperandClass → Nat
  | .byte | .word | .relative => 1
  | .high | .memory => 2
  | .highC => 3
  | .register .a => 4
  | .register .b => 5
  | .register .c | .condition .cr => 6
  | .register .d => 7
  | .register .e => 8
  | .register .h => 9
  | .register .l => 10
  | .condition .nz => 11
  | .condition .z => 12
  | .condition .nc => 13
  | .pair p => 14 + p.ctorIdx
  | .through p => 20 + p.ctorIdx
  | .bit i => 26 + i.val
  | .vector i => 34 + i.val

end OperandClass

namespace Form

/-- A number for a mnemonic with operand classes. -/
def signature (mnemonic : Mnemonic) (operands : List OperandClass) : Nat :=
  operands.foldl (fun n cls => n * 64 + cls.shape) (64 + mnemonic.ctorIdx)

/-- Whether numbers are all different, and different from those in a set of bits. -/
def distinctFrom : Nat → List Nat → Bool
  | _, [] => true
  | seen, n :: rest => !seen.testBit n && distinctFrom (seen ||| 1 <<< n) rest

theorem distinctFrom_sound {seen : Nat} {numbers : List Nat}
    (h : distinctFrom seen numbers = true) :
    numbers.Nodup ∧ ∀ n ∈ numbers, seen.testBit n = false := by
  induction numbers generalizing seen with
  | nil => simp
  | cons n rest ih =>
    simp only [distinctFrom, Bool.and_eq_true, Bool.not_eq_true'] at h
    obtain ⟨hFresh, hRest⟩ := h
    obtain ⟨hNodup, hUnseen⟩ := ih hRest
    have hSplit : ∀ m ∈ rest, seen.testBit m = false ∧ n ≠ m := by
      intro m hm
      have hBit := hUnseen m hm
      rw [Nat.testBit_or, Bool.or_eq_false_iff, Nat.one_shiftLeft, Nat.testBit_two_pow] at hBit
      exact ⟨hBit.1, of_decide_eq_false hBit.2⟩
    refine ⟨List.nodup_cons.2 ⟨fun hMem => (hSplit n hMem).2 rfl, hNodup⟩, ?_⟩
    intro m hm
    rcases List.mem_cons.1 hm with rfl | hm
    · exact hFresh
    · exact (hSplit m hm).1

theorem signatures_nodup :
    (table.map fun form => signature form.mnemonic form.operands).Nodup := by
  have hDistinct : distinctFrom 0
      (table.map fun form => signature form.mnemonic form.operands) = true := by decide +kernel
  exact (distinctFrom_sound hDistinct).1

/-- Forms of one mnemonic whose operand classes have the same shapes are one form. -/
theorem eq_of_signature {form other : Form} (hForm : form ∈ table) (hOther : other ∈ table)
    (h : signature form.mnemonic form.operands = signature other.mnemonic other.operands) :
    form = other :=
  List.inj_on_of_nodup_map signatures_nodup hForm hOther h

theorem find?_operands {form : Form} (h : form ∈ table) :
    find? form.mnemonic form.operands = some form := by
  refine find?_eq_some_of_unique h (by simp) ?_
  intro other hOther hSame
  simp only [Bool.and_eq_true, beq_iff_eq] at hSame
  exact eq_of_signature hOther h (by rw [hSame.1, hSame.2])

theorem mapM_ofKey?_key (operands : List OperandClass) :
    (operands.map OperandClass.key).mapM OperandClass.ofKey? = some operands := by
  induction operands with
  | nil => rfl
  | cons cls rest ih => simp [List.mapM_cons, OperandClass.ofKey?_key, ih]

/-- A form is found by its mnemonic and its keys. -/
theorem lookup?_keys {form : Form} (h : form ∈ table) :
    lookup? form.mnemonic.name form.keys = some form := by
  simp only [lookup?, keys, Mnemonic.ofName?_name, mapM_ofKey?_key]
  exact find?_operands h

theorem mem_ofName {form : Form} {mnemonic : String} :
    form ∈ ofName mnemonic ↔ form ∈ table ∧ form.mnemonic.name = mnemonic := by
  unfold ofName
  split
  · next m hm =>
    rw [List.mem_filter, beq_iff_eq]
    constructor
    · rintro ⟨hTable, rfl⟩
      exact ⟨hTable, Mnemonic.ofName?_eq_some.1 hm⟩
    · rintro ⟨hTable, hName⟩
      have hm' := Mnemonic.ofName?_eq_some.2 hName
      exact ⟨hTable, Option.some.inj (hm'.symm.trans hm)⟩
  · next hNone =>
    constructor
    · intro hMem
      exact absurd hMem List.not_mem_nil
    · rintro ⟨-, hName⟩
      rw [Mnemonic.ofName?_eq_some.2 hName] at hNone
      cases hNone

end Form
end Lr35902
