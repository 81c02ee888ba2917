import Lr35902.Program.Symbol
import Lr35902.Proofs.EditDistance

/-!
Names that may have been meant by another. Two names are close if in lower case they are equal or at
most two edits apart (`Close`), and the names to suggest are the first three close ones
(`closest`). The table looks at lengths first, and so leaves out the close names that are two
characters longer or shorter (`Dropped`, `dropped_iff`). What it suggests are therefore the closest
names exactly if none of these is one that it drops (`similar_eq_closest_iff`).
-/
namespace Lr35902

namespace Text

/-- Only the dotted capital I has more than one small letter. -/
theorem length_lowerChar {c : Char} (h : c ≠ 'İ') : (lowerChar c).length = 1 := by
  have hOther : c.toNat ≠ 0x130 := fun hSame => h (Char.toNat_inj.1 hSame)
  unfold lowerChar
  rw [if_neg hOther]
  split
  · rfl
  · split <;> rfl

theorem length_lowerFrom {before text : List Char} (h : 'İ' ∉ text) :
    (lowerFrom before text).length = text.length := by
  induction text generalizing before with
  | nil => rfl
  | cons c rest ih =>
    have hFirst : c ≠ 'İ' := fun hSame => h (hSame ▸ List.mem_cons_self)
    have hRest : (lowerFrom (c :: before) rest).length = rest.length :=
      ih fun hMem => h (List.mem_cons_of_mem c hMem)
    rw [lowerFrom, List.length_append, hRest, List.length_cons]
    split
    · exact Nat.add_comm 1 _
    · rw [length_lowerChar hFirst, Nat.add_comm]

theorem length_lower {text : String} (h : 'İ' ∉ text.toList) :
    (lower text).toList.length = text.length := by
  rw [lower, String.toList_ofList, length_lowerFrom h, String.length_toList]

end Text

namespace SymbolTable

/-- In lower case two names are equal or at most two edits apart. -/
def Close (name other : String) : Prop :=
  Text.lower name = Text.lower other ∨
    Text.levenshtein (Text.lower name).toList (Text.lower other).toList ≤ 2

instance (name other : String) : Decidable (Close name other) :=
  inferInstanceAs (Decidable (_ ∨ _))

/-- The first three defined names that are close to a name. -/
def closest (table : SymbolTable) (name : String) : List String :=
  ((table.symbols.map Symbol.name).filter fun other => decide (Close name other)).take 3

/-- Two names are as few edits apart as close ones, and yet differ in length by more than one. -/
def Dropped (name other : String) : Prop :=
  Text.lower name ≠ Text.lower other ∧
    Text.levenshtein (Text.lower name).toList (Text.lower other).toList ≤ 2 ∧
    (name.length + 2 ≤ other.length ∨ other.length + 2 ≤ name.length)

instance (name other : String) : Decidable (Dropped name other) :=
  inferInstanceAs (Decidable (_ ∧ _ ∧ _))

/-- A text is another one with two more characters in it. -/
def TwoMore (text longer : List Char) : Prop :=
  text.Sublist longer ∧ longer.length = text.length + 2

section
variable {name other : String}

theorem resembles_iff : resembles name other = true ↔ Close name other ∧ ¬Dropped name other := by
  have hDistance := Text.editDistance_eq (Text.lower name).toList (Text.lower other).toList
  simp only [resembles, Close, Dropped, hDistance, Bool.or_eq_true, Bool.and_eq_true, beq_iff_eq,
    decide_eq_true_eq]
  by_cases hSame : Text.lower name = Text.lower other
  · simp [hSame]
  · simp only [hSame, false_or, ne_eq, not_false_eq_true, true_and]
    omega

/-- Where lengths differ by two, the only edits left are two insertions. -/
theorem twoMore_iff {text longer : List Char} :
    TwoMore text longer ↔
      Text.levenshtein text longer ≤ 2 ∧ text.length + 2 ≤ longer.length := by
  constructor
  · rintro ⟨hPart, hLonger⟩
    exact ⟨(Text.levenshtein_le_iff_sublist hLonger).2 hPart, Nat.le_of_eq hLonger.symm⟩
  · rintro ⟨hNear, hLong⟩
    have hLength := (Text.edits_levenshtein text longer).length_le
    have hLonger : longer.length = text.length + 2 := by omega
    exact ⟨(Text.levenshtein_le_iff_sublist hLonger).1 hNear, hLonger⟩

theorem dropped_iff (hName : 'İ' ∉ name.toList) (hOther : 'İ' ∉ other.toList) :
    Dropped name other ↔
      TwoMore (Text.lower name).toList (Text.lower other).toList ∨
        TwoMore (Text.lower other).toList (Text.lower name).toList := by
  have hLength := Text.length_lower hName
  have hOtherLength := Text.length_lower hOther
  rw [twoMore_iff, twoMore_iff, Text.levenshtein_comm (Text.lower name).toList, ← and_or_left,
    hLength, hOtherLength]
  constructor
  · rintro ⟨-, hNear, hLengths⟩
    exact ⟨hNear, hLengths⟩
  · rintro ⟨hNear, hLengths⟩
    refine ⟨?_, hNear, hLengths⟩
    intro hSame
    rw [hSame] at hLength
    omega

end

/-- Of two filters the stricter one gives the same first elements exactly if it keeps them. -/
theorem take_filter_eq_iff {α : Type} {strict loose : α → Bool}
    (h : ∀ a, strict a = true → loose a = true) (values : List α) (n : Nat) :
    (values.filter strict).take n = (values.filter loose).take n ↔
      ∀ a ∈ (values.filter loose).take n, strict a = true := by
  constructor
  · intro hSame a hMem
    rw [← hSame] at hMem
    exact (List.mem_filter.1 (List.mem_of_mem_take hMem)).2
  · intro hKept
    induction values generalizing n with
    | nil => rfl
    | cons a rest ih =>
      by_cases hLoose : loose a = true
      · cases n with
        | zero => rfl
        | succ n =>
          rw [List.filter_cons_of_pos hLoose, List.take_succ_cons] at hKept ⊢
          obtain ⟨hFirst, hRest⟩ := List.forall_mem_cons.1 hKept
          rw [List.filter_cons_of_pos hFirst, List.take_succ_cons, ih n hRest]
      · have hStrict : ¬strict a = true := fun hOwn => hLoose (h a hOwn)
        rw [List.filter_cons_of_neg hLoose] at hKept ⊢
        rw [List.filter_cons_of_neg hStrict]
        exact ih n hKept

/-- A table suggests the first three close names that it does not drop. These are the closest names
exactly if none of the closest is dropped. Where lower case keeps lengths, a name is dropped exactly
if in lower case one of the two has two more characters in it than the other. -/
theorem similar_eq_closest_iff (table : SymbolTable) (name : String) :
    table.similar name = ((table.symbols.map Symbol.name).filter fun other =>
        decide (Close name other ∧ ¬Dropped name other)).take 3 ∧
      (table.similar name = table.closest name ↔
        ∀ other ∈ table.closest name, ¬Dropped name other) ∧
      ∀ other, 'İ' ∉ name.toList → 'İ' ∉ other.toList →
        (Dropped name other ↔
          TwoMore (Text.lower name).toList (Text.lower other).toList ∨
            TwoMore (Text.lower other).toList (Text.lower name).toList) := by
  have hResembles : resembles name = fun other =>
      decide (Close name other ∧ ¬Dropped name other) := by
    funext other
    rw [Bool.eq_iff_iff, decide_eq_true_eq]
    exact resembles_iff
  refine ⟨?_, ?_, fun other hName hOther => dropped_iff hName hOther⟩
  · rw [similar, hResembles]
  · rw [similar, hResembles, closest, take_filter_eq_iff]
    · simp only [decide_eq_true_eq]
      constructor
      · intro hKept other hMem
        exact (hKept other hMem).2
      · intro hKept other hMem
        have hClose := (List.mem_filter.1 (List.mem_of_mem_take hMem)).2
        exact ⟨of_decide_eq_true hClose, hKept other hMem⟩
    · intro other hBoth
      exact decide_eq_true (of_decide_eq_true hBoth).1

/-- A close name with two more characters is not suggested. -/
theorem similar_drops_print :
    let table : SymbolTable := ⟨[⟨"print", 0, none, false⟩]⟩
    table.closest "prt" = ["print"] ∧ table.similar "prt" = [] := by
  have hClose : Close "prt" "print" := by
    refine .inr ?_
    rw [← Text.editDistance_eq]
    decide
  refine ⟨?_, by decide⟩
  simp [closest, symbols, hClose]

end SymbolTable
end Lr35902
