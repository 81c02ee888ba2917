import Lr35902.Text.EditDistance

/-!
Edit distance. `Edit` is one insertion, deletion or replacement of a character, and `Edits` some
number of them. The least number of edits between two texts has a recursion on their first
characters (`levenshtein`), since one edit changes a distance by at most one (`Edit.distance_le`).
Edits may as well be read backwards, so the recursion holds for last characters too, and so does its
short cut for equal ones (`levenshtein_concat`). Rows of distances from the longer and longer starts
of a text follow from one another by it (`nextRow_distances`), and the last entry of the last row is
the distance (`editDistance_least`).
-/
namespace Lr35902.Text

/-- A character is inserted, deleted or replaced. -/
inductive Edit : List Char → List Char → Prop
  | insert (front : List Char) (c : Char) (back : List Char) :
    Edit (front ++ back) (front ++ c :: back)
  | delete (front : List Char) (c : Char) (back : List Char) :
    Edit (front ++ c :: back) (front ++ back)
  | replace (front : List Char) (c d : Char) (back : List Char) :
    Edit (front ++ c :: back) (front ++ d :: back)

/-- So many edits turn a text into another. -/
inductive Edits : Nat → List Char → List Char → Prop
  | none (text : List Char) : Edits 0 text text
  | more {n : Nat} {a b c : List Char} : Edit a b → Edits n b c → Edits (n + 1) a c

/-- The distance by recursion: the first character of a text is deleted, or that of the other one
inserted, or the two are matched, which costs an edit if they differ. -/
def levenshtein : List Char → List Char → Nat
  | [], b => b.length
  | c :: a, [] => (c :: a).length
  | c :: a, d :: b =>
    min (min (levenshtein a (d :: b) + 1) (levenshtein (c :: a) b + 1))
      (levenshtein a b + if c = d then 0 else 1)
termination_by a b => a.length + b.length

section
variable {m n : Nat} {a b c : List Char}

/-! ## Edits -/

theorem Edit.symm (h : Edit a b) : Edit b a := by
  cases h with
  | insert front c back => exact .delete front c back
  | delete front c back => exact .insert front c back
  | replace front c d back => exact .replace front d c back

theorem Edit.cons (x : Char) (h : Edit a b) : Edit (x :: a) (x :: b) := by
  cases h with
  | insert front c back => exact .insert (x :: front) c back
  | delete front c back => exact .delete (x :: front) c back
  | replace front c d back => exact .replace (x :: front) c d back

theorem Edit.reverse (h : Edit a b) : Edit a.reverse b.reverse := by
  cases h with
  | insert front c back => simpa using Edit.insert back.reverse c front.reverse
  | delete front c back => simpa using Edit.delete back.reverse c front.reverse
  | replace front c d back => simpa using Edit.replace back.reverse c d front.reverse

theorem Edits.one (h : Edit a b) : Edits 1 a b := .more h (.none b)

theorem Edits.trans (h : Edits m a b) (hMore : Edits n b c) : Edits (m + n) a c := by
  induction h with
  | none => rwa [Nat.zero_add]
  | @more m _ _ _ hEdit _ ih =>
    rw [Nat.add_right_comm]
    exact .more hEdit (ih hMore)

theorem Edits.symm (h : Edits n a b) : Edits n b a := by
  induction h with
  | none text => exact .none text
  | more hEdit _ ih => exact ih.trans (.one hEdit.symm)

theorem Edits.cons (x : Char) (h : Edits n a b) : Edits n (x :: a) (x :: b) := by
  induction h with
  | none text => exact .none _
  | more hEdit _ ih => exact .more (hEdit.cons x) ih

theorem Edits.reverse (h : Edits n a b) : Edits n a.reverse b.reverse := by
  induction h with
  | none text => exact .none _
  | more hEdit _ ih => exact .more hEdit.reverse ih

theorem edits_zero_iff : Edits 0 a b ↔ a = b := by
  constructor
  · intro h
    cases h
    rfl
  · rintro rfl
    exact .none a

/-- A text is written character by character. -/
theorem edits_nil (b : List Char) : Edits b.length [] b := by
  induction b with
  | nil => exact .none []
  | cons d b ih => exact .more (.insert [] d []) (ih.cons d)

/-! ## The recursion -/

@[simp]
theorem levenshtein_nil_left (b : List Char) : levenshtein [] b = b.length := by
  rw [levenshtein]

@[simp]
theorem levenshtein_nil_right (a : List Char) : levenshtein a [] = a.length := by
  cases a with
  | nil => rw [levenshtein]
  | cons c a => rw [levenshtein]

theorem levenshtein_cons_cons (c d : Char) (a b : List Char) :
    levenshtein (c :: a) (d :: b) =
      min (min (levenshtein a (d :: b) + 1) (levenshtein (c :: a) b + 1))
        (levenshtein a b + if c = d then 0 else 1) := by
  rw [levenshtein]

/-- A character more in front of a text is at most one edit more. -/
theorem levenshtein_cons_left (c : Char) (a b : List Char) :
    levenshtein (c :: a) b ≤ levenshtein a b + 1 := by
  cases b with
  | nil => simp
  | cons d b =>
    rw [levenshtein_cons_cons]
    omega

theorem levenshtein_cons_right (d : Char) (a b : List Char) :
    levenshtein a (d :: b) ≤ levenshtein a b + 1 := by
  cases a with
  | nil => simp
  | cons c a =>
    rw [levenshtein_cons_cons]
    omega

theorem levenshtein_match_le (c d : Char) (a b : List Char) :
    levenshtein (c :: a) (d :: b) ≤ levenshtein a b + 1 := by
  rw [levenshtein_cons_cons]
  split <;> omega

theorem levenshtein_self (a : List Char) : levenshtein a a = 0 := by
  induction a with
  | nil => simp
  | cons c a ih => simp [levenshtein_cons_cons, ih]

/-- The distance is reached: each of its cases says what to do with the first characters. -/
theorem edits_levenshtein (a b : List Char) : Edits (levenshtein a b) a b := by
  fun_induction levenshtein a b with
  | case1 b => exact edits_nil b
  | case2 c a => exact (edits_nil (c :: a)).symm
  | case3 c a d b ihDelete ihInsert ihMatch =>
    have hDelete : Edits (levenshtein a (d :: b) + 1) (c :: a) (d :: b) :=
      .more (.delete [] c a) ihDelete
    have hInsert : Edits (levenshtein (c :: a) b + 1) (c :: a) (d :: b) :=
      ihInsert.trans (.one (.insert [] d b))
    have hMatch : Edits (levenshtein a b + if c = d then 0 else 1) (c :: a) (d :: b) := by
      split
      · next hSame =>
        rw [hSame]
        exact ihMatch.cons d
      · exact (ihMatch.cons c).trans (.one (.replace [] c d b))
    grind

/-! ## One edit changes a distance by at most one -/

/-- A character less in front of a text is at most one edit more. -/
theorem levenshtein_le_cons (c : Char) (a b : List Char) :
    levenshtein a b ≤ levenshtein (c :: a) b + 1 := by
  induction b with
  | nil =>
    simp only [levenshtein_nil_right, List.length_cons]
    omega
  | cons d b ih =>
    have hInsert := levenshtein_cons_right d a b
    rw [levenshtein_cons_cons]
    omega

theorem levenshtein_replace (c d : Char) (a b : List Char) :
    levenshtein (c :: a) b ≤ levenshtein (d :: a) b + 1 := by
  induction b with
  | nil => simp
  | cons x b ih =>
    have hDelete := levenshtein_cons_left c a (x :: b)
    have hInsert := levenshtein_cons_right x (c :: a) b
    have hMatch := levenshtein_match_le c x a b
    rw [levenshtein_cons_cons d]
    omega

/-- What is common in front does not count. -/
theorem levenshtein_common (x : Char) {a b : List Char}
    (h : ∀ other, levenshtein a other ≤ levenshtein b other + 1) (other : List Char) :
    levenshtein (x :: a) other ≤ levenshtein (x :: b) other + 1 := by
  induction other with
  | nil =>
    have hLength := h []
    simp only [levenshtein_nil_right, List.length_cons] at hLength ⊢
    omega
  | cons y other ih =>
    have hDelete := h (y :: other)
    have hMatch := h other
    rw [levenshtein_cons_cons, levenshtein_cons_cons]
    omega

theorem Edit.distance_le (h : Edit a b) (other : List Char) :
    levenshtein a other ≤ levenshtein b other + 1 := by
  cases h with
  | insert front c back =>
    induction front generalizing other with
    | nil => exact levenshtein_le_cons c back other
    | cons x front ih => exact levenshtein_common x ih other
  | delete front c back =>
    induction front generalizing other with
    | nil => exact levenshtein_cons_left c back other
    | cons x front ih => exact levenshtein_common x ih other
  | replace front c d back =>
    induction front generalizing other with
    | nil => exact levenshtein_replace c d back other
    | cons x front ih => exact levenshtein_common x ih other

/-- No fewer edits do. -/
theorem levenshtein_le_of_edits (h : Edits n a b) : levenshtein a b ≤ n := by
  induction h with
  | none text => exact Nat.le_of_eq (levenshtein_self text)
  | @more n a b c hEdit _ ih =>
    have hStep := hEdit.distance_le c
    exact Nat.le_trans hStep (Nat.succ_le_succ ih)

/-! ## Lengths -/

theorem Edit.length_le (h : Edit a b) : b.length ≤ a.length + 1 := by
  cases h <;> simp only [List.length_append, List.length_cons] <;> omega

theorem Edits.length_le (h : Edits n a b) : b.length ≤ a.length + n := by
  induction h with
  | none => exact Nat.le_refl _
  | more hEdit _ ih =>
    have hStep := hEdit.length_le
    omega

/-- Edits that make a text as much longer as they can are insertions only. -/
theorem Edits.sublist (h : Edits n a b) (hLonger : b.length = a.length + n) : a.Sublist b := by
  induction h with
  | none => exact .refl _
  | more hEdit hMore ih =>
    have hRest := hMore.length_le
    cases hEdit with
    | insert front c back =>
      simp only [List.length_append, List.length_cons] at hLonger hRest ih
      exact ((List.sublist_cons_self c back).append_left front).trans (ih (by omega))
    | delete front c back =>
      simp only [List.length_append, List.length_cons] at hLonger hRest
      omega
    | replace front c d back =>
      simp only [List.length_append, List.length_cons] at hLonger hRest
      omega

theorem edits_of_sublist (h : a.Sublist b) (hLonger : b.length = a.length + n) : Edits n a b := by
  induction h generalizing n with
  | slnil =>
    obtain rfl : n = 0 := by simpa using hLonger.symm
    exact .none []
  | @cons a b x hShort ih =>
    have hLength := hShort.length_le
    rw [List.length_cons] at hLonger
    obtain ⟨m, rfl⟩ : ∃ m, n = m + 1 := ⟨n - 1, by omega⟩
    exact (ih (by omega)).trans (.one (.insert [] x b))
  | @cons_cons a b x _ ih =>
    rw [List.length_cons, List.length_cons] at hLonger
    exact (ih (by omega)).cons x

/-- A distance is at least the difference of the lengths, and no more where one text is part of the
other. -/
theorem levenshtein_le_iff_sublist (hLonger : b.length = a.length + n) :
    levenshtein a b ≤ n ↔ a.Sublist b := by
  constructor
  · intro hNear
    have hEdits := edits_levenshtein a b
    have hLength := hEdits.length_le
    exact hEdits.sublist (by omega)
  · intro hPart
    exact levenshtein_le_of_edits (edits_of_sublist hPart hLonger)

/-! ## Last characters -/

theorem levenshtein_comm (a b : List Char) : levenshtein b a = levenshtein a b :=
  Nat.le_antisymm (levenshtein_le_of_edits (edits_levenshtein a b).symm)
    (levenshtein_le_of_edits (edits_levenshtein b a).symm)

theorem levenshtein_reverse (a b : List Char) :
    levenshtein a.reverse b.reverse = levenshtein a b := by
  refine Nat.le_antisymm (levenshtein_le_of_edits (edits_levenshtein a b).reverse) ?_
  have hBack := levenshtein_le_of_edits (edits_levenshtein a.reverse b.reverse).reverse
  rwa [List.reverse_reverse, List.reverse_reverse] at hBack

/-- Equal first characters are matched: neither deleting nor inserting one does better. -/
theorem levenshtein_cons_cons_of_match (c d : Char) (a b : List Char) :
    levenshtein (c :: a) (d :: b) =
      if c = d then levenshtein a b
      else 1 + min (min (levenshtein a b) (levenshtein a (d :: b))) (levenshtein (c :: a) b) := by
  have hDelete := levenshtein_le_cons c a b
  have hInsert := levenshtein_le_cons d b a
  rw [levenshtein_comm, levenshtein_comm a (d :: b)] at hInsert
  rw [levenshtein_cons_cons]
  split <;> omega

theorem levenshtein_concat (c d : Char) (a b : List Char) :
    levenshtein (a ++ [c]) (b ++ [d]) =
      if c = d then levenshtein a b
      else
        1 + min (min (levenshtein a b) (levenshtein a (b ++ [d]))) (levenshtein (a ++ [c]) b) := by
  have hBack := levenshtein_cons_cons_of_match c d a.reverse b.reverse
  simp only [← List.reverse_concat, levenshtein_reverse] at hBack
  exact hBack

end

/-! ## Rows -/

/-- The distances of a text from `front`, and from it with more and more of the text that
follows. -/
def distances (text front : List Char) : List Char → List Nat
  | [] => [levenshtein text front]
  | d :: rest => levenshtein text front :: distances text (front ++ [d]) rest

theorem distances_eq_cons (text front others : List Char) :
    distances text front others =
      levenshtein text front :: (distances text front others).tail := by
  cases others <;> rfl

theorem getLastD_distances (fill : Nat) (text front others : List Char) :
    (distances text front others).getLastD fill = levenshtein text (front ++ others) := by
  induction others generalizing fill front with
  | nil => simp [distances]
  | cons d rest ih =>
    rw [distances, List.getLastD_cons, ih, List.append_assoc]
    rfl

/-- The first row: nothing is turned into longer and longer texts. -/
theorem distances_nil (front others : List Char) :
    distances [] front others = List.range' front.length (others.length + 1) := by
  induction others generalizing front with
  | nil => simp [distances]
  | cons d rest ih =>
    rw [distances, ih, List.length_cons, List.range'_succ (n := rest.length + 1)]
    simp

theorem rowAfter_distances (c : Char) (text front others : List Char) :
    rowAfter c (levenshtein (text ++ [c]) front) others (distances text front others) =
      (distances (text ++ [c]) front others).tail := by
  induction others generalizing front with
  | nil => rfl
  | cons d rest ih =>
    have hNext := ih (front ++ [d])
    rw [distances, distances_eq_cons text (front ++ [d])]
    rw [distances_eq_cons text (front ++ [d])] at hNext
    rw [rowAfter, distances, List.tail_cons, distances_eq_cons (text ++ [c]) (front ++ [d]),
      ← hNext, levenshtein_concat]

theorem nextRow_distances (c : Char) (text others : List Char) :
    nextRow others (distances text [] others) c = distances (text ++ [c]) [] others := by
  have hFirst : (distances text [] others).headD 0 + 1 = levenshtein (text ++ [c]) [] := by
    rw [distances_eq_cons]
    simp
  rw [nextRow, hFirst, rowAfter_distances, ← distances_eq_cons]

theorem foldl_nextRow (text more others : List Char) :
    more.foldl (nextRow others) (distances text [] others) =
      distances (text ++ more) [] others := by
  induction more generalizing text with
  | nil => rw [List.foldl_nil, List.append_nil]
  | cons c more ih => rw [List.foldl_cons, nextRow_distances, ih, List.append_assoc]; rfl

theorem distanceAlong_eq (text others : List Char) :
    distanceAlong text others = levenshtein text others := by
  have hStart : List.range (others.length + 1) = distances [] [] others := by
    rw [distances_nil, List.range_eq_range']
    rfl
  rw [distanceAlong, hStart, foldl_nextRow, getLastD_distances]
  rfl

theorem editDistance_eq (a b : List Char) : editDistance a b = levenshtein a b := by
  unfold editDistance
  split
  · rw [distanceAlong_eq, levenshtein_comm]
  · exact distanceAlong_eq a b

/-- The edit distance is the least number of edits, and has the recursion. So it is the same both
ways, zero between equal texts only, and no longer than a way round. -/
theorem editDistance_least (a b : List Char) :
    (Edits (editDistance a b) a b ∧ ∀ n, Edits n a b → editDistance a b ≤ n) ∧
      editDistance a b = levenshtein a b ∧
      editDistance b a = editDistance a b ∧
      (editDistance a b = 0 ↔ a = b) ∧
      ∀ c, editDistance a c ≤ editDistance a b + editDistance b c := by
  refine ⟨⟨?_, ?_⟩, editDistance_eq a b, ?_, ?_, ?_⟩
  · rw [editDistance_eq]
    exact edits_levenshtein a b
  · intro n hEdits
    rw [editDistance_eq]
    exact levenshtein_le_of_edits hEdits
  · rw [editDistance_eq, editDistance_eq, levenshtein_comm]
  · rw [editDistance_eq]
    constructor
    · intro hZero
      have hEdits := edits_levenshtein a b
      rw [hZero] at hEdits
      exact edits_zero_iff.1 hEdits
    · rintro rfl
      exact levenshtein_self a
  · intro c
    simp only [editDistance_eq]
    exact levenshtein_le_of_edits ((edits_levenshtein a b).trans (edits_levenshtein b c))

end Lr35902.Text
