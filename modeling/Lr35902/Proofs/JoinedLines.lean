import Lr35902.Proofs.TextualInclusion

/-!
Texts and their lines. A line feed between two texts keeps their statements apart
(`unfoldsText_joined_iff`), so a text unfolds into the clauses of its lines, one line after the
other (`unfoldsText_lines_iff`).
-/
namespace Lr35902.TwoPass

section
variable {surroundings : Surroundings} {file : String} {openFiles others : List Spot}
  {clauses : List Clause}

/-- Texts with a line feed between them unfold each on its own. -/
theorem unfoldsText_joined_iff (hDistinct : openFiles.Nodup) (text rest : List Char) :
    UnfoldsText surroundings file (text ++ '\n' :: rest) openFiles clauses others ↔
      ∃ first more, UnfoldsText surroundings file text openFiles first openFiles ∧
        UnfoldsText surroundings file rest openFiles more others ∧ clauses = first ++ more := by
  have hText : text ++ '\n' :: rest = (text ++ ['\n']) ++ rest := by simp
  rw [hText, unfoldsText_append_iff (Scan.wholeLines_concat text) hDistinct]
  simp only [unfoldsText_lineEnd_iff]

theorem unfoldsText_nil_iff :
    UnfoldsText surroundings file [] openFiles clauses others ↔
      clauses = [] ∧ others = openFiles := by
  simp [UnfoldsText, Scan.lexemesFrom, tokensOf, unfolds_nil_iff]

/-- Lines unfold one after the other, and each closes the files that it opens. -/
def UnfoldsLines (surroundings : Surroundings) (file : String) (openFiles : List Spot) :
    List String → List Clause → Prop
  | [], clauses => clauses = []
  | line :: lines, clauses =>
    ∃ first more, UnfoldsText surroundings file line.toList openFiles first openFiles ∧
      UnfoldsLines surroundings file openFiles lines more ∧ clauses = first ++ more

theorem unfoldsLines_append_iff {lines more : List String} :
    UnfoldsLines surroundings file openFiles (lines ++ more) clauses ↔
      ∃ first rest, UnfoldsLines surroundings file openFiles lines first ∧
        UnfoldsLines surroundings file openFiles more rest ∧ clauses = first ++ rest := by
  induction lines generalizing clauses with
  | nil => simp [UnfoldsLines]
  | cons line lines ih =>
    simp only [List.cons_append, UnfoldsLines, ih]
    constructor
    · rintro ⟨one, _, hOne, ⟨first, rest, hFirst, hRest, rfl⟩, rfl⟩
      exact ⟨one ++ first, rest, ⟨one, first, hOne, hFirst, rfl⟩, hRest,
        (List.append_assoc _ _ _).symm⟩
    · rintro ⟨_, rest, ⟨one, first, hOne, hFirst, rfl⟩, hRest, rfl⟩
      exact ⟨one, first ++ rest, hOne, ⟨first, rest, hFirst, hRest, rfl⟩,
        List.append_assoc _ _ _⟩

/-- A text unfolds into what its lines do. -/
theorem unfoldsText_lines_iff (hDistinct : openFiles.Nodup) {lines : List String} :
    UnfoldsText surroundings file ("\n".intercalate lines).toList openFiles clauses others ↔
      UnfoldsLines surroundings file openFiles lines clauses ∧ others = openFiles := by
  induction lines generalizing clauses with
  | nil =>
    rw [String.intercalate_nil]
    exact unfoldsText_nil_iff
  | cons line lines ih =>
    cases lines with
    | nil =>
      rw [String.intercalate_singleton]
      constructor
      · intro h
        obtain rfl := h.closed hDistinct
        exact ⟨⟨clauses, [], h, rfl, (List.append_nil _).symm⟩, rfl⟩
      · rintro ⟨⟨first, _, h, rfl, rfl⟩, rfl⟩
        rw [List.append_nil]
        exact h
    | cons next lines =>
      have hLines : ("\n".intercalate (line :: next :: lines)).toList =
          line.toList ++ '\n' :: ("\n".intercalate (next :: lines)).toList := by
        rw [String.intercalate_cons_cons, String.append_assoc, String.toList_append,
          String.toList_append]
        rfl
      rw [hLines, unfoldsText_joined_iff hDistinct]
      simp only [ih, UnfoldsLines]
      constructor
      · rintro ⟨first, more, hFirst, ⟨hMore, rfl⟩, rfl⟩
        exact ⟨⟨first, more, hFirst, hMore, rfl⟩, rfl⟩
      · rintro ⟨⟨first, more, hFirst, hMore, rfl⟩, rfl⟩
        exact ⟨first, more, hFirst, ⟨hMore, rfl⟩, rfl⟩

theorem yields_lines_iff {lines : List String} {defines : NameMap Int} {chunk : ChunkSize}
    {code : Bytes} {table : List Definition} :
    Yields (assembleText surroundings ("\n".intercalate lines) file defines) chunk code table ↔
      ∃ spots clauses, Assembly.initiallyOpen surroundings file = .ok spots ∧
        (∃ symbols, Assembly.predefine .empty defines.entries = .ok symbols) ∧
        UnfoldsLines surroundings file spots lines clauses ∧
        Output defines.entries clauses code table := by
  rw [yields_text_iff]
  constructor
  · rintro ⟨spots, clauses, others, hOpen, hSymbols, hText, hOutput⟩
    obtain ⟨hLines, -⟩ := (unfoldsText_lines_iff (Assembly.initiallyOpen_nodup hOpen)).1 hText
    exact ⟨spots, clauses, hOpen, hSymbols, hLines, hOutput⟩
  · rintro ⟨spots, clauses, hOpen, hSymbols, hLines, hOutput⟩
    have hText := (unfoldsText_lines_iff (Assembly.initiallyOpen_nodup hOpen)).2 ⟨hLines, rfl⟩
    exact ⟨spots, clauses, spots, hOpen, hSymbols, hText, hOutput⟩

end

end Lr35902.TwoPass
