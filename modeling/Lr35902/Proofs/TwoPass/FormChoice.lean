import Lr35902.Proofs.TwoPass.Parsing

/-!
Written operands choose at most one form. A mnemonic takes bit numbers or restart vectors as its
first operand in all of its forms or in none (`numberRoles_eq`); apart from these, the classes that
an operand suits have one shape (`shape_of_suits`). So the form that is found first is the only one
whose classes all operands suit (`form?_eq_some_iff`).
-/
namespace Lr35902

/-! ## What numbers are taken for -/

/-- What a class takes a number for: a value, or the bit or the restart vector that it stands
for. -/
inductive NumberRole where
  | value
  | bit
  | vector
  deriving DecidableEq

def OperandClass.numberRole : OperandClass → NumberRole
  | .bit _ => .bit
  | .vector _ => .vector
  | _ => .value

/-- What the first operand of a mnemonic is taken for if it is a number. -/
def Mnemonic.numberRole : Mnemonic → NumberRole
  | .bit | .res | .set => .bit
  | .rst => .vector
  | _ => .value

/-- What the operands of a mnemonic are taken for, as many as there are. -/
def Mnemonic.numberRoles (m : Mnemonic) : Nat → List NumberRole
  | 0 => []
  | n + 1 => m.numberRole :: List.replicate n .value

theorem Form.numberRoles_eq {form : Form} (h : form ∈ table) :
    form.operands.map OperandClass.numberRole = form.mnemonic.numberRoles form.operands.length := by
  have hAll : ∀ form ∈ table, form.operands.map OperandClass.numberRole =
      form.mnemonic.numberRoles form.operands.length := by decide +kernel
  exact hAll form h

/-! ## The shape of written operands -/

/-- The shape of the class for what a word spells. -/
def shapeNamed {α : Type} (all : List α) (spelling : α → String) (cls : α → OperandClass)
    (word : String) : Nat :=
  ((all.find? fun a => spelling a == word).map fun a => (cls a).shape).getD 0

/-- The shape of the classes that a written operand suits, by what a number is taken for. -/
def Written.shape (role : NumberRole) : Written → Nat
  | .number value =>
    match role with
    | .value => OperandClass.byte.shape
    | .bit => 26 + value.toNat
    | .vector => 34 + value.toNat / 8
  | .name _ => OperandClass.byte.shape
  | .address _ | .addressName _ => OperandClass.memory.shape
  | .indirect _ => OperandClass.highC.shape
  | .register word => shapeNamed Register.all Register.name .register word
  | .pair word => shapeNamed Pair.all Pair.name .pair word
  | .flag word => shapeNamed Condition.all Condition.name .condition word
  | .indirectPair word => shapeNamed Pair.all Pair.name .through word

namespace TwoPass

theorem shape_of_suits {cls : OperandClass} {written : Written} (h : suits cls written = true) :
    cls.shape = written.shape cls.numberRole := by
  cases cls with
  | register r =>
    cases written with
    | register name =>
      obtain rfl := beq_iff_eq.1 h
      cases r <;> rfl
    | _ => cases h
  | pair p =>
    cases written with
    | pair name =>
      obtain rfl := beq_iff_eq.1 h
      cases p <;> rfl
    | _ => cases h
  | condition k =>
    cases written with
    | flag name =>
      obtain rfl := beq_iff_eq.1 h
      cases k <;> rfl
    | register name =>
      obtain ⟨hCarry, hName⟩ := Bool.and_eq_true_iff.1 h
      obtain rfl := beq_iff_eq.1 hCarry
      obtain rfl := beq_iff_eq.1 hName
      rfl
    | _ => cases h
  | highC =>
    cases written with
    | indirect => rfl
    | _ => cases h
  | through p =>
    cases written with
    | indirectPair name =>
      obtain rfl := beq_iff_eq.1 h
      cases p <;> rfl
    | _ => cases h
  | byte | word | relative =>
    cases written with
    | number | name => rfl
    | _ => cases h
  | high | memory =>
    cases written with
    | address | addressName => rfl
    | _ => cases h
  | bit i =>
    cases written with
    | number value =>
      obtain rfl := beq_iff_eq.1 h
      rfl
    | _ => cases h
  | vector i =>
    cases written with
    | number value =>
      have hValue := beq_iff_eq.1 h
      show 34 + i.val = 34 + value.toNat / 8
      omega
    | _ => cases h

theorem shapes_eq {classes others : List OperandClass} {operands : List Written}
    (hRoles : classes.map OperandClass.numberRole = others.map OperandClass.numberRole)
    (hClasses : List.Forall₂ (fun cls written => suits cls written = true) classes operands)
    (hOthers : List.Forall₂ (fun cls written => suits cls written = true) others operands) :
    classes.map OperandClass.shape = others.map OperandClass.shape := by
  induction hClasses generalizing others with
  | nil =>
    obtain rfl := List.forall₂_nil_right_iff.1 hOthers
    rfl
  | @cons cls written classes operands hSuits _ ih =>
    obtain ⟨other, rest, hOther, hRest, rfl⟩ := List.forall₂_cons_right_iff.1 hOthers
    obtain ⟨hRole, hRoles⟩ := List.cons.inj hRoles
    have hShape : cls.shape = other.shape := by
      rw [shape_of_suits hSuits, hRole, ← shape_of_suits hOther]
    rw [List.map_cons, List.map_cons, hShape, ih hRoles hRest]

theorem signature_congr (m : Mnemonic) {classes others : List OperandClass}
    (h : classes.map OperandClass.shape = others.map OperandClass.shape) :
    Form.signature m classes = Form.signature m others := by
  have hShapes (operands : List OperandClass) : Form.signature m operands =
      (operands.map OperandClass.shape).foldl (fun n shape => n * 64 + shape) (64 + m.ctorIdx) :=
    List.foldl_map.symm
  rw [hShapes, hShapes, h]

/-! ## The form -/

/-- A form of a mnemonic has classes that operands suit one by one. -/
structure Chosen (mnemonic : String) (operands : List Written) (form : Form) : Prop where
  mem : form ∈ Form.table
  name_eq : form.mnemonic.name = mnemonic
  suits_all : List.Forall₂ (fun cls written => suits cls written = true) form.operands operands

theorem Chosen.unique {mnemonic : String} {operands : List Written} {form other : Form}
    (h : Chosen mnemonic operands form) (hOther : Chosen mnemonic operands other) :
    form = other := by
  have hMnemonic : form.mnemonic = other.mnemonic := by
    apply Option.some.inj
    rw [← Mnemonic.ofName?_name, ← Mnemonic.ofName?_name, h.name_eq, hOther.name_eq]
  have hLength : form.operands.length = other.operands.length := by
    rw [h.suits_all.length_eq, hOther.suits_all.length_eq]
  have hRoles : form.operands.map OperandClass.numberRole =
      other.operands.map OperandClass.numberRole := by
    rw [Form.numberRoles_eq h.mem, Form.numberRoles_eq hOther.mem, hMnemonic, hLength]
  apply Form.eq_of_signature h.mem hOther.mem
  rw [hMnemonic]
  exact signature_congr _ (shapes_eq hRoles h.suits_all hOther.suits_all)

/-- Operands choose the one form whose classes they suit. -/
theorem form?_eq_some_iff {mnemonic : String} {operands : List Written} {form : Form} :
    form? mnemonic operands = some form ↔ Chosen mnemonic operands form := by
  have hTest (other : Form) : (other.mnemonic.name == mnemonic &&
      other.operands.length == operands.length &&
        (other.operands.zip operands).all fun pair => suits pair.1 pair.2) = true ↔
      other.mnemonic.name = mnemonic ∧
        List.Forall₂ (fun cls written => suits cls written = true) other.operands operands := by
    simp [List.forall₂_iff_zip, and_assoc]
  constructor
  · intro h
    have hFound := List.find?_some h
    obtain ⟨hName, hSuits⟩ := (hTest form).1 hFound
    exact ⟨List.mem_of_find?_eq_some h, hName, hSuits⟩
  · intro h
    refine find?_eq_some_of_unique h.mem ((hTest form).2 ⟨h.name_eq, h.suits_all⟩) ?_
    intro other hOther hFound
    obtain ⟨hName, hSuits⟩ := (hTest other).1 hFound
    exact Chosen.unique ⟨hOther, hName, hSuits⟩ h

end TwoPass
end Lr35902
