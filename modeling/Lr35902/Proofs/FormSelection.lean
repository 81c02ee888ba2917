import Lr35902.Proofs.Encoding
import Lr35902.Proofs.TwoPass.FormChoice

/-!
The choice of a form by written operands. A form is rejected where an operand has the wrong shape;
it matches where operands fit or are numbers out of range (`Form.Matches`). No form takes more than
one number (`Form.countP_takesNumber`), so the number that is out of range is the same for every
form that matches (`Form.Matches.literal_eq`), and a form that operands fit is the only one that
they match (`Form.eq_of_fits`). Hence neither the form nor the error depends on the order of the
table (`Form.verdict_selectAmong`). The operands built for a form belong to its classes, also after
symbols have been resolved (`Item.OfForm.patches`), and so the form can be told from their keys.
-/
namespace Lr35902

/-! ## Lists -/

theorem eq_of_length_le_one {α : Type} {list : List α} (h : list.length ≤ 1) {a b : α}
    (ha : a ∈ list) (hb : b ∈ list) : a = b := by
  cases list with
  | nil => cases ha
  | cons first rest =>
    obtain rfl : rest = [] :=
      List.eq_nil_of_length_eq_zero (Nat.le_zero.1 (Nat.le_of_succ_le_succ h))
    rw [List.mem_singleton.1 ha, List.mem_singleton.1 hb]

theorem length_le_one {α : Type} {list : List α} (hNodup : list.Nodup)
    (h : ∀ a ∈ list, ∀ b ∈ list, a = b) : list.length ≤ 1 := by
  cases list with
  | nil => exact Nat.zero_le 1
  | cons a rest =>
    cases rest with
    | nil => exact Nat.le_refl 1
    | cons b more =>
      obtain rfl := h a List.mem_cons_self b (by simp)
      simp at hNodup

/-- A search does not depend on the order where all that it can find is the same. -/
theorem findSome?_perm {α β : Type} {f : α → Option β} {list other : List α} (h : list.Perm other)
    (hSame : ∀ a ∈ list, ∀ b ∈ list, ∀ x y, f a = some x → f b = some y → x = y) :
    list.findSome? f = other.findSome? f := by
  cases hOther : other.findSome? f with
  | none =>
    rw [List.findSome?_eq_none_iff] at hOther ⊢
    exact fun a hMem => hOther a (h.subset hMem)
  | some y =>
    obtain ⟨b, hb, hy⟩ := List.exists_of_findSome?_eq_some hOther
    have hFound : (list.findSome? f).isSome = true :=
      List.findSome?_isSome_iff.2 ⟨b, h.symm.subset hb, by rw [hy]; rfl⟩
    obtain ⟨x, hx⟩ := Option.isSome_iff_exists.1 hFound
    obtain ⟨a, ha, hax⟩ := List.exists_of_findSome?_eq_some hx
    rw [hx, hSame a ha b (h.symm.subset hb) x y hax hy]

/-! ## Numbers among the operands -/

/-- Whether an operand of the class is a number. -/
def OperandClass.takesNumber : OperandClass → Bool
  | .byte | .word | .high | .memory | .relative | .bit _ | .vector _ => true
  | .register _ | .pair _ | .condition _ | .highC | .through _ => false

/-- Whether an operand is written as a number, bare or in parentheses. -/
def WrittenOperand.isLiteral (operand : WrittenOperand) : Bool := operand.written.value?.isSome

theorem Form.countP_takesNumber {form : Form} (h : form ∈ table) :
    form.operands.countP OperandClass.takesNumber ≤ 1 := by
  have hAll : ∀ form ∈ table, form.operands.countP OperandClass.takesNumber ≤ 1 := by
    decide +kernel
  exact hAll form h

theorem Written.takesNumber_of_fit {written : Written} {cls : OperandClass}
    (h : written.fit cls ≠ .mismatch) (hValue : written.value?.isSome = true) :
    cls.takesNumber = true := by
  cases written with
  | number | address =>
    cases cls with
    | byte | word | high | memory | relative | bit | vector => rfl
    | _ => exact absurd rfl h
  | _ => cases hValue

theorem Fit.when_ne_outOfRange (condition : Bool) : Fit.when condition ≠ .outOfRange := by
  cases condition <;> decide

/-- Only numbers can be out of range. -/
theorem Written.value?_of_outOfRange {written : Written} {cls : OperandClass}
    (h : written.fit cls = .outOfRange) : written.value?.isSome = true := by
  have hWhen := Fit.when_ne_outOfRange
  cases written with
  | number | address => rfl
  | name | addressName => cases cls <;> cases h
  | register =>
    cases cls with
    | register => exact absurd h (hWhen _)
    | condition k =>
      cases k with
      | cr => exact absurd h (hWhen _)
      | nz | z | nc => cases h
    | _ => cases h
  | pair =>
    cases cls with
    | pair => exact absurd h (hWhen _)
    | _ => cases h
  | flag =>
    cases cls with
    | condition => exact absurd h (hWhen _)
    | _ => cases h
  | indirect =>
    cases cls with
    | highC => exact absurd h (hWhen _)
    | _ => cases h
  | indirectPair =>
    cases cls with
    | through => exact absurd h (hWhen _)
    | _ => cases h

namespace Form
variable {form other : Form} {operands : List WrittenOperand}

/-- No operand has the wrong shape for the class in its place, though a number may be out of range.
-/
def Matches (form : Form) (operands : List WrittenOperand) : Prop :=
  List.Forall₂ (fun operand cls => operand.written.fit cls ≠ .mismatch) operands form.operands

theorem Fits.matches (h : form.Fits operands) : form.Matches operands := by
  refine h.imp ?_
  intro operand cls hFits hMismatch
  rw [hFits] at hMismatch
  cases hMismatch

theorem Matches.countP_isLiteral (h : form.Matches operands) :
    operands.countP WrittenOperand.isLiteral ≤ form.operands.countP OperandClass.takesNumber := by
  unfold Matches at h
  generalize form.operands = classes at h
  induction h with
  | nil => exact Nat.le_refl 0
  | @cons operand cls operands classes hFit _ ih =>
    rw [List.countP_cons, List.countP_cons]
    by_cases hLiteral : operand.isLiteral = true
    · rw [if_pos hLiteral, if_pos (Written.takesNumber_of_fit hFit hLiteral)]
      omega
    · rw [if_neg hLiteral]
      omega

/-- A form that matches has one number at most among its operands. -/
theorem Matches.literal_eq (hForm : form ∈ table) (h : form.Matches operands)
    {first second : WrittenOperand} (hFirst : first ∈ operands) (hSecond : second ∈ operands)
    (hLiteral : first.isLiteral = true) (hOther : second.isLiteral = true) : first = second := by
  have hCount : (operands.filter WrittenOperand.isLiteral).length ≤ 1 := by
    rw [← List.countP_eq_length_filter]
    exact Nat.le_trans h.countP_isLiteral (countP_takesNumber hForm)
  exact eq_of_length_le_one hCount (List.mem_filter.2 ⟨hFirst, hLiteral⟩)
    (List.mem_filter.2 ⟨hSecond, hOther⟩)

/-! ## The operand that is out of range -/

theorem matches_iff : form.Matches operands ↔ operands.length = form.operands.length ∧
    ∀ pair ∈ operands.zip form.operands, pair.1.written.fit pair.2 ≠ .mismatch := by
  rw [Matches, List.forall₂_iff_zip]
  simp

/-- The operand that is to blame is the first one out of range in a form that matches. -/
theorem culprit?_eq_some_iff {culprit : WrittenOperand} :
    form.culprit? operands = some culprit ↔ form.Matches operands ∧
      ((operands.zip form.operands).find? fun pair =>
        pair.1.written.fit pair.2 == .outOfRange).map Prod.fst = some culprit := by
  rw [matches_iff]
  by_cases hLength : operands.length = form.operands.length
  · have hFits : form.fits? operands =
        some ((operands.zip form.operands).map fun pair => pair.1.written.fit pair.2) := by
      rw [fits?, if_pos hLength.symm, List.map_zip_eq_zipWith]
      rfl
    have hZip : operands.zip ((operands.zip form.operands).map fun pair =>
        pair.1.written.fit pair.2) =
          (operands.zip form.operands).map fun pair => (pair.1, pair.1.written.fit pair.2) := by
      conv_lhs => arg 1; rw [← List.map_fst_zip (Nat.le_of_eq hLength)]
      exact List.zip_map' ..
    simp only [culprit?, hFits, hZip, List.find?_map, Option.map_map, hLength, true_and]
    split
    · next hContains =>
      obtain ⟨pair, hMem, hMismatch⟩ := List.mem_map.1 (List.contains_iff_mem.1 hContains)
      exact iff_of_false (Option.some_ne_none culprit).symm fun h => h.1 pair hMem hMismatch
    · next hContains =>
      refine (and_iff_right ?_).symm
      intro pair hMem hMismatch
      exact hContains (List.contains_iff_mem.2 (List.mem_map.2 ⟨pair, hMem, hMismatch⟩))
  · have hFits : form.fits? operands = none := if_neg fun h => hLength h.symm
    simp [culprit?, hFits, hLength]

theorem culprit?_some {culprit : WrittenOperand} (h : form.culprit? operands = some culprit) :
    form.Matches operands ∧ culprit ∈ operands ∧ culprit.isLiteral = true := by
  obtain ⟨hMatches, hFind⟩ := culprit?_eq_some_iff.1 h
  obtain ⟨pair, hPair, rfl⟩ := Option.map_eq_some_iff.1 hFind
  have hOut := List.find?_some hPair
  simp only [beq_iff_eq] at hOut
  exact ⟨hMatches, (List.of_mem_zip (List.mem_of_find?_eq_some hPair)).1,
    Written.value?_of_outOfRange hOut⟩

theorem Matches.culprit?_ne_none (h : form.Matches operands) (hFits : ¬form.Fits operands) :
    form.culprit? operands ≠ none := by
  intro hNone
  apply hFits
  have hAll : ∀ pair ∈ operands.zip form.operands, ¬pair.1.written.fit pair.2 = .outOfRange := by
    intro pair hMem hOut
    obtain ⟨found, hFound⟩ : ∃ found, ((operands.zip form.operands).find? fun pair =>
        pair.1.written.fit pair.2 == .outOfRange) = some found :=
      Option.isSome_iff_exists.1 (List.find?_isSome.2 ⟨pair, hMem, beq_iff_eq.2 hOut⟩)
    rw [culprit?_eq_some_iff.2 ⟨h, by rw [hFound]; rfl⟩] at hNone
    cases hNone
  obtain ⟨hLength, hMatches⟩ := matches_iff.1 h
  refine List.forall₂_iff_zip.2 ⟨hLength, ?_⟩
  intro operand cls hMem
  cases hFit : operand.written.fit cls with
  | fits => rfl
  | mismatch => exact absurd hFit (hMatches (operand, cls) hMem)
  | outOfRange => exact absurd hFit (hAll (operand, cls) hMem)

/-! ## One form at most -/

/-- Two classes of one shape: an operand fits one of them and has no wrong shape for the other.
Where the operand selects a bit or a vector, a number that fits one class is in range for all of
them. -/
theorem shape_eq_of_fit {written : Written} {cls other : OperandClass}
    (hRole : cls.numberRole = other.numberRole) (hFits : written.fit cls = .fits)
    (hMatch : written.fit other ≠ .mismatch) : cls.shape = other.shape := by
  have hSuits := TwoPass.suits_iff.2 hFits
  cases hOther : written.fit other with
  | fits =>
    rw [TwoPass.shape_of_suits hSuits, hRole,
      TwoPass.shape_of_suits (TwoPass.suits_iff.2 hOther)]
  | mismatch => exact absurd hOther hMatch
  | outOfRange =>
    cases other with
    | byte =>
      cases written with
      | number value =>
        cases cls with
        | byte | word | relative => rfl
        | bit | vector => cases hRole
        | _ => cases hFits
      | _ => cases hOther
    | high =>
      cases written with
      | address value =>
        cases cls with
        | high | memory => rfl
        | _ => cases hFits
      | _ => cases hOther
    | bit i =>
      cases written with
      | number value =>
        cases cls with
        | bit j =>
          obtain rfl := beq_iff_eq.1 hSuits
          rw [Written.fit, if_neg (by omega)] at hOther
          exact absurd hOther (Fit.when_ne_outOfRange _)
        | _ => cases hRole
      | _ => cases hOther
    | vector i =>
      cases written with
      | number value =>
        cases cls with
        | vector j =>
          obtain rfl := beq_iff_eq.1 hSuits
          have hVector : (OperandClass.octet.any fun k => 8 * (j.val : Int) == 8 * k.val) = true :=
            List.any_eq_true.2 ⟨j, List.mem_finRange j, beq_self_eq_true _⟩
          rw [Written.fit, if_pos hVector] at hOther
          exact absurd hOther (Fit.when_ne_outOfRange _)
        | _ => cases hRole
      | _ => cases hOther
    | register | pair | condition | highC | through | word | memory | relative =>
      have hValue := Written.value?_of_outOfRange hOther
      cases written with
      | number | address => cases hOther
      | _ => cases hValue

theorem shapes_eq_of_fits {classes others : List OperandClass}
    (hRoles : classes.map OperandClass.numberRole = others.map OperandClass.numberRole)
    (hFits : List.Forall₂ (fun operand cls => operand.written.fit cls = .fits) operands classes)
    (hMatches : List.Forall₂ (fun operand cls => operand.written.fit cls ≠ .mismatch)
      operands others) :
    classes.map OperandClass.shape = others.map OperandClass.shape := by
  induction hFits generalizing others with
  | nil =>
    obtain rfl := List.forall₂_nil_left_iff.1 hMatches
    rfl
  | cons hFirst _ ih =>
    obtain ⟨other, rest, hOther, hRest, rfl⟩ := List.forall₂_cons_left_iff.1 hMatches
    obtain ⟨hRole, hRoles⟩ := List.cons.inj hRoles
    rw [List.map_cons, List.map_cons, shape_eq_of_fit hRole hFirst hOther, ih hRoles hRest]

/-- A form that operands fit is the only one of its mnemonic that they match. -/
theorem eq_of_fits (hForm : form ∈ table) (hOther : other ∈ table)
    (hMnemonic : form.mnemonic = other.mnemonic) (hFits : form.Fits operands)
    (hMatches : other.Matches operands) : form = other := by
  have hLength : form.operands.length = other.operands.length :=
    (List.Forall₂.length_eq hFits).symm.trans (List.Forall₂.length_eq hMatches)
  have hRoles : form.operands.map OperandClass.numberRole =
      other.operands.map OperandClass.numberRole := by
    rw [numberRoles_eq hForm, numberRoles_eq hOther, hMnemonic, hLength]
  apply eq_of_signature hForm hOther
  rw [hMnemonic]
  apply TwoPass.signature_congr
  exact shapes_eq_of_fits hRoles hFits hMatches

theorem mnemonic_eq_of_mem {mnemonic : String} (hForm : form ∈ ofName mnemonic)
    (hOther : other ∈ ofName mnemonic) : form.mnemonic = other.mnemonic := by
  apply Option.some.inj
  rw [← Mnemonic.ofName?_name, ← Mnemonic.ofName?_name, (mem_ofName.1 hForm).2,
    (mem_ofName.1 hOther).2]

theorem eq_of_accepts {mnemonic : String} (hForm : form ∈ ofName mnemonic)
    (hOther : other ∈ ofName mnemonic) (hFits : form.Fits operands)
    (hMatches : other.Matches operands) : form = other :=
  eq_of_fits (mem_ofName.1 hForm).1 (mem_ofName.1 hOther).1 (mnemonic_eq_of_mem hForm hOther) hFits
    hMatches

theorem nodup_ofName (mnemonic : String) : (ofName mnemonic).Nodup := by
  unfold ofName
  split
  · exact (List.Nodup.of_map _ signatures_nodup).filter _
  · exact List.nodup_nil

theorem length_filter_accepts (mnemonic : String) (operands : List WrittenOperand) :
    ((ofName mnemonic).filter fun form => form.accepts operands).length ≤ 1 := by
  apply length_le_one ((nodup_ofName mnemonic).filter _)
  intro form hForm other hOther
  obtain ⟨hForm, hFits⟩ := List.mem_filter.1 hForm
  obtain ⟨hOther, hOtherFits⟩ := List.mem_filter.1 hOther
  exact eq_of_accepts hForm hOther (accepts_iff.1 hFits) (accepts_iff.1 hOtherFits).matches

/-! ## The order of the table -/

/-- The choice among some forms of a mnemonic, which may come in any order. -/
def selectAmong (forms : List Form) (mnemonic : String) (operands : List WrittenOperand)
    (location : Location) : Except (Cause × Location × Option String) Form :=
  match forms.find? fun form => form.accepts operands with
  | some form => .ok form
  | none =>
    match forms.findSome? fun form => form.culprit? operands with
    | some culprit =>
      .error (.operandOutOfRange (culprit.written.value?.getD 0) mnemonic, culprit.location, none)
    | none =>
      let cause : Cause :=
        if (arities forms).contains operands.length then .noMatchingForm mnemonic
        else .wrongArity mnemonic (arities forms) operands.length
      .error (cause, (operands.head?.map WrittenOperand.location).getD location,
        some (listing forms))

theorem select_eq_selectAmong (mnemonic : String) (operands : List WrittenOperand)
    (location : Location) :
    select mnemonic operands location = selectAmong (ofName mnemonic) mnemonic operands location :=
  rfl

/-- The form, or the cause and the place of the error. The hint, which lists forms in their order,
is left out. -/
def verdict (choice : Except (Cause × Location × Option String) Form) :
    Except (Cause × Location) Form :=
  choice.mapError fun error => (error.1, error.2.1)

theorem verdict_selectAmong {mnemonic : String} {forms : List Form}
    (h : forms.Perm (ofName mnemonic)) (operands : List WrittenOperand) (location : Location) :
    verdict (selectAmong forms mnemonic operands location) =
      verdict (select mnemonic operands location) := by
  have hMem {form : Form} (hForm : form ∈ forms) : form ∈ ofName mnemonic := h.subset hForm
  have hAccepts : (forms.find? fun form => form.accepts operands) =
      (ofName mnemonic).find? fun form => form.accepts operands := by
    rw [List.find?_eq_findSome?_guard, List.find?_eq_findSome?_guard]
    apply findSome?_perm h
    intro form hForm other hOther x y hx hy
    obtain ⟨rfl, hFits⟩ := Option.guard_eq_some_iff.1 hx
    obtain ⟨rfl, hOtherFits⟩ := Option.guard_eq_some_iff.1 hy
    exact eq_of_accepts (hMem hForm) (hMem hOther) (accepts_iff.1 hFits)
      (accepts_iff.1 hOtherFits).matches
  have hCulprit : (forms.findSome? fun form => form.culprit? operands) =
      (ofName mnemonic).findSome? fun form => form.culprit? operands := by
    apply findSome?_perm h
    intro form hForm other hOther x y hx hy
    obtain ⟨hMatches, hx, hLiteral⟩ := culprit?_some hx
    obtain ⟨-, hy, hOtherLiteral⟩ := culprit?_some hy
    exact hMatches.literal_eq (mem_ofName.1 (hMem hForm)).1 hx hy hLiteral hOtherLiteral
  have hArities : arities forms = arities (ofName mnemonic) := by
    unfold arities
    simp only [h.any_eq]
  rw [select_eq_selectAmong, selectAmong, selectAmong, hAccepts, hCulprit, hArities]
  cases (ofName mnemonic).find? fun form => form.accepts operands with
  | some form => rfl
  | none =>
    cases (ofName mnemonic).findSome? fun form => form.culprit? operands with
    | some culprit => rfl
    | none => rfl

end Form

/-! ## The keys of operands -/

/-- An operand of a class, resolved or not: the one that the opcode implies, or a number or a symbol
in a slot. -/
inductive OperandClass.Includes (cls : OperandClass) : Operand → Prop
  | implied {operand : Operand} : cls.role = .implied operand → Includes cls operand
  | number {kind : NumberKind} {value : OperandValue} :
    cls.role = .slot kind → Includes cls (.number kind value)
  | symbol {kind : NumberKind} {name : String} {location : Option Location} :
    cls.role = .slot kind → Includes cls (.symbol (.word name) (some (.number kind)) location)

section
variable {cls : OperandClass} {operand : WrittenOperand} {built resolved : Operand} {next : Int}
  {symbols : SymbolTable} {lineAt : Location → Option String}

theorem OperandClass.Includes.key?_eq (h : cls.Includes built) : built.key? = .ok cls.key := by
  cases h with
  | implied hRole => exact key?_implied hRole
  | number hRole => exact key?_slot hRole _
  | symbol hRole => exact key?_slot hRole _

theorem WrittenOperand.includes_of_build (h : operand.build cls next = .ok built) :
    cls.Includes built := by
  cases hRole : cls.role with
  | implied implied =>
    rw [build_implied hRole] at h
    cases h
    exact .implied hRole
  | slot kind =>
    rw [build_slot hRole] at h
    unfold fill at h
    split at h
    case h_1 | h_2 =>
      split at h
      · cases h
        exact .number hRole
      · cases h
    all_goals
      cases h
      exact .symbol hRole

/-- Resolution keeps the class of an operand. -/
theorem OperandClass.Includes.resolve (h : cls.Includes built)
    (hResolve : Assembly.resolveOperand symbols lineAt next built = .ok resolved) :
    cls.Includes resolved := by
  cases h with
  | implied hRole =>
    have hKept : resolved = built := by cases cls <;> cases hRole <;> cases hResolve <;> rfl
    rw [hKept]
    exact .implied hRole
  | number hRole =>
    cases hResolve
    exact .number hRole
  | symbol hRole =>
    obtain ⟨value, -, number, -, rfl⟩ := resolveOperand_symbol_iff.1 hResolve
    exact .number hRole

/-- If an operand has become a bit or a vector, this is the number that is written. -/
def WrittenOperand.KeepsIndex (operand : WrittenOperand) (built : Operand) : Prop :=
  ∀ kind number, kind = .bit ∨ kind = .vector → built = .number kind (.number number) →
    operand.written = .number number

theorem WrittenOperand.keepsIndex_of_build (hFits : operand.written.fit cls = .fits)
    (h : operand.build cls next = .ok built) : operand.KeepsIndex built := by
  have hSuits := TwoPass.suits_iff.2 hFits
  rintro kind number hKind rfl
  cases includes_of_build h with
  | number hRole => rcases hKind with rfl | rfl <;> cases cls <;> cases hRole
  | implied hRole =>
    cases cls with
    | bit | vector =>
      cases hRole
      cases hWritten : operand.written with
      | number value =>
        rw [hWritten] at hSuits
        rw [beq_iff_eq.1 hSuits]
      | _ =>
        rw [hWritten] at hSuits
        cases hSuits
    | _ => cases hRole

end

theorem MachineCode.keys_of_includes {classes : List OperandClass} {operands : List Operand}
    (h : List.Forall₂ OperandClass.Includes classes operands) :
    keys operands = .ok (classes.map OperandClass.key) := by
  induction h with
  | nil => rfl
  | cons hFirst _ ih =>
    rw [keys, hFirst.key?_eq]
    simp only [ih, List.map_cons]

/-! ## Instructions of a form -/

/-- An instruction of a form at a place and an address: its operands belong to the classes of the
form, and it takes as many bytes as the form. -/
def Item.OfForm (form : Form) (location : Location) (address : Int) (item : Item) : Prop :=
  ∃ operands, item = ⟨location, address, .instruction form.mnemonic.name operands form.size⟩ ∧
    List.Forall₂ OperandClass.Includes form.operands operands

/-- An item becomes another when symbols are looked up in some table. -/
def Item.Patches (item other : Item) : Prop :=
  ∃ symbols lineAt, Assembly.resolveItem symbols lineAt item = .ok other

section
variable {form : Form} {location : Location} {address : Int} {item other : Item}

theorem Item.OfForm.patch (h : item.OfForm form location address) (hPatch : item.Patches other) :
    other.OfForm form location address := by
  obtain ⟨operands, rfl, hOperands⟩ := h
  obtain ⟨symbols, lineAt, hResolve⟩ := hPatch
  obtain ⟨resolved, hResolved, rfl⟩ := resolveItem_instruction_iff.1 hResolve
  refine ⟨resolved, rfl, ?_⟩
  have hSteps := resolveOperands_ok_iff.1 hResolved
  -- every operand is of the class before the step, and so it is after the step
  exact (forall₂_comp.1 ⟨operands, hOperands, hSteps⟩).imp
    fun _ _ ⟨_, hIncludes, hStep⟩ => hIncludes.resolve hStep

theorem Item.OfForm.patches (h : item.OfForm form location address)
    (hPatches : Relation.ReflTransGen Item.Patches item other) :
    other.OfForm form location address := by
  induction hPatches with
  | refl => exact h
  | tail _ hPatch ih => exact ih.patch hPatch

theorem Form.Fits.includes {operands : List WrittenOperand} (h : form.Fits operands) {next : Int}
    {built : List Operand} (hBuilt : buildOperands next operands form.operands = .ok built) :
    List.Forall₂ OperandClass.Includes form.operands built := by
  have hPairs := (buildOperands_ok_iff.1 hBuilt).imp
    fun pair operand hBuild => WrittenOperand.includes_of_build hBuild
  rw [← List.forall₂_map_left_iff (f := Prod.snd)] at hPairs
  rwa [h.map_snd_zip] at hPairs

theorem Form.Fits.indices {operands : List WrittenOperand} (h : form.Fits operands) {next : Int}
    {built : List Operand} (hBuilt : buildOperands next operands form.operands = .ok built) :
    List.Forall₂ WrittenOperand.KeepsIndex operands built := by
  have hEach : ∀ pair ∈ operands.zip form.operands, pair.1.written.fit pair.2 = .fits :=
    fun _ hMem => List.forall₂_zip h hMem
  have hPairs := ((List.forall₂_and_left _ _).2 ⟨hEach, buildOperands_ok_iff.1 hBuilt⟩).imp
    fun _ _ hPair => WrittenOperand.keepsIndex_of_build hPair.1 hPair.2
  rw [← List.forall₂_map_left_iff (f := Prod.fst)] at hPairs
  rwa [List.map_fst_zip (Nat.le_of_eq (List.Forall₂.length_eq h))] at hPairs

end

/-- At most one form of a mnemonic accepts some operands, so the choice does not depend on the order
of the table. The form is in the table under its keys; whatever the address after the instruction
is, the operands built for the form, and those that symbols are resolved to, have just these keys,
and the instruction has the size of the form. -/
theorem Form.select_keyed (mnemonic : String) (operands : List WrittenOperand)
    (location : Location) :
    ((ofName mnemonic).filter fun form => form.accepts operands).length ≤ 1 ∧
    (∀ forms : List Form, forms.Perm (ofName mnemonic) →
      verdict (selectAmong forms mnemonic operands location) =
        verdict (select mnemonic operands location)) ∧
    ∀ form, select mnemonic operands location = .ok form →
      lookup? mnemonic form.keys = some form ∧
      ∀ next built, buildOperands next operands form.operands = .ok built →
        List.Forall₂ WrittenOperand.KeepsIndex operands built ∧
        ∀ place address item,
          Relation.ReflTransGen Item.Patches
            ⟨place, address, .instruction mnemonic built form.size⟩ item →
          ∃ patched, item = ⟨place, address, .instruction mnemonic patched form.size⟩ ∧
            MachineCode.keys patched = .ok form.keys := by
  refine ⟨length_filter_accepts mnemonic operands, ?_, ?_⟩
  · intro forms hForms
    exact verdict_selectAmong hForms operands location
  · intro form hSelect
    obtain ⟨hTable, rfl, hFits⟩ := select_ok hSelect
    refine ⟨lookup?_keys hTable, ?_⟩
    intro next built hBuilt
    refine ⟨hFits.indices hBuilt, ?_⟩
    intro place address item hPatches
    have hFirst : Item.OfForm form place address
        ⟨place, address, .instruction form.mnemonic.name built form.size⟩ :=
      ⟨built, rfl, hFits.includes hBuilt⟩
    obtain ⟨patched, rfl, hPatched⟩ := hFirst.patches hPatches
    exact ⟨patched, rfl, MachineCode.keys_of_includes hPatched⟩

/-- A jump on carry to a label that stands further on, before and after the label is known. -/
theorem Form.select_keyed_carry :
    let place : Location := ⟨"<input>", 1, 1⟩
    let operands : List WrittenOperand :=
      [⟨.register "c", ⟨"<input>", 1, 4⟩⟩, ⟨.name "there", ⟨"<input>", 1, 7⟩⟩]
    ∃ form built item, select "jp" operands place = .ok form ∧
      buildOperands 3 operands form.operands = .ok built ∧
      Assembly.resolveItem ⟨[⟨"there", 0x1234, none, false⟩]⟩ (fun _ => none)
        ⟨place, 0, .instruction "jp" built form.size⟩ = .ok item ∧ item.size = 3 ∧
      ∃ patched, item = ⟨place, 0, .instruction "jp" patched form.size⟩ ∧
        MachineCode.keys patched = .ok ["cr", "n16"] := by
  intro place operands
  have hSelect : select "jp" operands place = .ok ⟨.jp, [.condition .cr, .word], [0xDA]⟩ := by
    decide +kernel
  obtain ⟨-, -, hForm⟩ := select_keyed "jp" operands place
  obtain ⟨-, hPatched⟩ := (hForm _ hSelect).2 3 _ rfl
  refine ⟨_, _, _, hSelect, rfl, rfl, rfl, hPatched place 0 _ (.single ?_)⟩
  exact ⟨⟨[⟨"there", 0x1234, none, false⟩]⟩, fun _ => none, rfl⟩

end Lr35902
