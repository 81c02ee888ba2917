import Mathlib.Data.Bool.AllAny
import Mathlib.Data.List.TakeWhile
import Lr35902.Proofs.TextualInclusion

/-!
Text that says nothing. Blanks and comments at the ends of lines, and further lines of nothing else,
may be added to a text that can be scanned (`Scan.Padded`). They leave its lexemes as they are
(`Scan.Padded.lexemesFrom_eq`), and these are all that assembling depends on, so the text assembles
as before (`padded_restates`). To end every line with a carriage return as well is a case of this.
-/
namespace Lr35902

namespace Scan

/-- The characters that may stand between words: space, tab, carriage return, form feed and vertical
tab. -/
def blanks : List Char := [' ', '\t', '\r', '\x0C', '\x0B']

/-- Text that says nothing: blanks, and perhaps a comment after them. -/
inductive Filler : List Char → Prop where
  | blank {spaces : List Char} (hSpaces : spaces ⊆ blanks) : Filler spaces
  | comment {spaces body : List Char} (hSpaces : spaces ⊆ blanks) (hLine : '\n' ∉ body) :
      Filler (spaces ++ ';' :: body)

/-- A text with text added that says nothing, before line feeds, at the end, and in lines of its own
at the starts of lines. -/
inductive Padded : List Char → List Char → Prop where
  | last {line filler : List Char} (hLine : '\n' ∉ line) (hFiller : Filler filler) :
      Padded line (line ++ filler)
  | line {line filler text padded : List Char} (hLine : '\n' ∉ line) (hFiller : Filler filler)
      (hMore : Padded text padded) :
      Padded (line ++ '\n' :: text) (line ++ filler ++ '\n' :: padded)
  | insert {filler text padded : List Char} (hFiller : Filler filler) (hMore : Padded text padded) :
      Padded text (filler ++ '\n' :: padded)

/-! ## At the end of a line -/

section
variable {spaces filler line : List Char} {words : List Lexeme}

theorem lexemesFrom_blanks (hSpaces : spaces ⊆ blanks) (atStart : Bool) (rest : List Char) :
    lexemesFrom atStart (spaces ++ rest) = lexemesFrom atStart rest := by
  induction spaces with
  | nil => rfl
  | cons c spaces ih =>
    obtain ⟨hFirst, hMore⟩ := List.cons_subset.1 hSpaces
    have hSpace : isSpace c = true := by
      have hAll : ∀ c ∈ blanks, isSpace c = true := List.all_iff_forall_prop.1 (by decide)
      exact hAll c hFirst
    rw [List.cons_append, lexemesFrom, if_pos hSpace, ih hMore]

/-- A comment takes the rest of the last line. -/
theorem lexemesFrom_comment (hLine : '\n' ∉ line) (atStart : Bool) :
    lexemesFrom atStart (';' :: line) = some [] := by
  have hSpace : isSpace ';' = false := rfl
  have hAll : line.takeWhile (· != '\n') = line := by
    refine List.takeWhile_eq_self_iff.2 ?_
    intro c hc
    simpa using fun hFeed : c = '\n' => hLine (hFeed ▸ hc)
  rw [lexemesFrom, if_neg (by simp [hSpace]), if_pos rfl, hAll, List.drop_length, lexemesFrom]

theorem Filler.lexemesFrom_eq (h : Filler filler) (atStart : Bool) :
    lexemesFrom atStart filler = some [] := by
  cases h with
  | blank hSpaces =>
    rw [← List.append_nil filler, lexemesFrom_blanks hSpaces, lexemesFrom]
  | comment hSpaces hLine => rw [lexemesFrom_blanks hSpaces, lexemesFrom_comment hLine]

theorem Filler.not_lineEnd (h : Filler filler) : '\n' ∉ filler := by
  have hBlanks : '\n' ∉ blanks := by decide
  cases h with
  | blank hSpaces => exact fun hFeed => hBlanks (hSpaces hFeed)
  | comment hSpaces hLine =>
    refine List.not_mem_append (fun hFeed => hBlanks (hSpaces hFeed)) ?_
    exact List.not_mem_cons_of_ne_of_not_mem (by decide) hLine

theorem Filler.loose (h : Filler filler) : Loose filler := by
  have hBlanks : ∀ c ∈ blanks, isIdentifierChar c = false ∧ Text.isDigit c = false :=
    List.all_iff_forall_prop.1 (by decide)
  cases h with
  | @blank spaces hSpaces =>
    intro c hc
    exact hBlanks c (hSpaces (List.mem_of_mem_head? hc))
  | @comment spaces body hSpaces _ =>
    cases spaces with
    | nil => exact loose_cons rfl (by decide) body
    | cons c spaces =>
      obtain ⟨hWord, hDigit⟩ := hBlanks c (hSpaces List.mem_cons_self)
      exact loose_cons hWord hDigit _

/-- What is added at the end of a line that can be scanned adds no lexeme. -/
theorem Filler.lexemesFrom_append (h : Filler filler) {atStart : Bool} (hLine : '\n' ∉ line)
    (hWords : lexemesFrom atStart line = some words) :
    lexemesFrom atStart (line ++ filler) = some words := by
  fun_induction lexemesFrom atStart line generalizing words with
  | case1 atStart =>
    cases hWords
    exact h.lexemesFrom_eq atStart
  | case2 atStart c rest hSpace ih =>
    rw [List.cons_append, lexemesFrom, if_pos hSpace]
    exact ih (List.not_mem_of_not_mem_cons hLine) hWords
  | case3 atStart rest hSpace ih =>
    have hRest := List.not_mem_of_not_mem_cons hLine
    -- the comment takes the whole line, with what is added or without
    have hNone := lexemesFrom_comment hRest atStart
    rw [lexemesFrom, if_neg hSpace, if_pos rfl, hWords] at hNone
    rw [hNone]
    exact lexemesFrom_comment (List.not_mem_append hRest h.not_lineEnd) atStart
  | case4 atStart rest hSpace hComment ih => exact absurd List.mem_cons_self hLine
  | case5 => cases hWords
  | case6 atStart c rest hSpace hComment hBreak lexeme taken hRead ih =>
    obtain ⟨more, hMore, rfl⟩ := Option.map_eq_some_iff.1 hWords
    have hRest : '\n' ∉ rest.drop taken := by
      intro hFeed
      exact hLine (List.mem_cons_of_mem c (List.mem_of_mem_drop hFeed))
    rw [List.cons_append, lexemesFrom_readLexeme (by simpa using hSpace) hComment hBreak
      (h.loose.readLexeme_ok hRead), List.drop_append_of_le_length (readLexeme_le hRead),
      ih hRest hMore]
    rfl

/-! ## In a text -/

/-- A text with text added that says nothing has the same lexemes. -/
theorem Padded.lexemesFrom_eq {text padded : List Char} (h : Padded text padded)
    (hWords : lexemesFrom true text = some words) : lexemesFrom true padded = some words := by
  induction h generalizing words with
  | last hLine hFiller => exact hFiller.lexemesFrom_append hLine hWords
  | line hLine hFiller _ ih =>
    rw [lexemesFrom_line] at hWords ⊢
    obtain ⟨first, hFirst, hMap⟩ := Option.bind_eq_some_iff.1 hWords
    obtain ⟨more, hMore, rfl⟩ := Option.map_eq_some_iff.1 hMap
    rw [hFiller.lexemesFrom_append hLine hFirst, ih hMore]
    rfl
  | insert hFiller _ ih =>
    rw [lexemesFrom_line, hFiller.lexemesFrom_eq, ih hWords]
    rfl

/-- A text with a carriage return before each of its line feeds. -/
def withReturns (text : List Char) : List Char :=
  text.flatMap fun c => if c = '\n' then ['\r', '\n'] else [c]

theorem padded_withReturns (text : List Char) : Padded text (withReturns text) := by
  have hReturn : Filler ['\r'] := .blank (by decide)
  -- the line so far, which has no line feed
  have hLines (line : List Char) (hLine : '\n' ∉ line) :
      Padded (line ++ text) (line ++ withReturns text) := by
    induction text generalizing line with
    | nil =>
      have hLast := Padded.last hLine (.blank (List.nil_subset _))
      show Padded (line ++ []) (line ++ [])
      rwa [List.append_nil] at hLast ⊢
    | cons c text ih =>
      by_cases hFeed : c = '\n'
      · have hMore := Padded.line hLine hReturn (ih [] List.not_mem_nil)
        simpa [withReturns, hFeed] using hMore
      · have hMore := ih (line ++ [c]) (by simpa using ⟨hLine, Ne.symm hFeed⟩)
        simpa [withReturns, hFeed] using hMore
  exact hLines [] List.not_mem_nil

end
end Scan

namespace TwoPass

section
variable {surroundings : Surroundings} {source other file : String} {defines : NameMap Int}
  {chunk : ChunkSize} {code : Bytes} {table : List Definition}

/-- Texts with the same lexemes assemble to the same. -/
theorem yields_of_lexemes_eq
    (h : Scan.lexemesFrom true other.toList = Scan.lexemesFrom true source.toList) :
    Yields (assembleText surroundings other file defines) chunk code table ↔
      Yields (assembleText surroundings source file defines) chunk code table := by
  rw [yields_text_iff, yields_text_iff]
  unfold UnfoldsText
  rw [h]

/-- A last line end makes no difference to what a text assembles to. -/
theorem yields_lineEnd_iff :
    Yields (assembleText surroundings (source ++ "\n") file defines) chunk code table ↔
      Yields (assembleText surroundings source file defines) chunk code table := by
  have hText : (source ++ "\n").toList = source.toList ++ ['\n'] := by simp
  rw [yields_text_iff, yields_text_iff, hText]
  simp only [unfoldsText_lineEnd_iff]

end

/-- Another text has the lexemes of some tokens and at most a line end after them, and assembles
exactly when the text of the tokens does, to the same bytes and the same symbols. -/
structure Restates (source file : String) (tokens : List Token) (ending : List Lexeme)
    (other : String) : Prop where
  scans : ∃ others, scan other file = .ok others ∧ lexemes others = lexemes tokens ++ ending
  assembles : ∀ surroundings defines chunk code table,
    Yields (assembleText surroundings other file defines) chunk code table ↔
      Yields (assembleText surroundings source file defines) chunk code table

section
variable {source padded file : String} {tokens : List Token}

theorem restates_of_padded (hScan : scan source file = .ok tokens)
    (hPadded : Scan.Padded source.toList padded.toList) :
    Restates source file tokens [] padded := by
  have hWords := (scan_lexemes_iff file).1 ⟨tokens, hScan, rfl⟩
  have hSame := hPadded.lexemesFrom_eq hWords
  refine ⟨?_, ?_⟩
  · rw [List.append_nil]
    exact (scan_lexemes_iff file).2 hSame
  · intro surroundings defines chunk code table
    exact yields_of_lexemes_eq (hSame.trans hWords.symm)

theorem Restates.lineEnd (h : Restates source file tokens [] padded) :
    Restates source file tokens (Scan.lineEnd true (lexemes tokens)) (padded ++ "\n") := by
  obtain ⟨others, hScan, hWords⟩ := h.scans
  rw [List.append_nil] at hWords
  have hText : (padded ++ "\n").toList = padded.toList ++ ['\n'] := by simp
  have hLexemes := (scan_lexemes_iff file).1 ⟨others, hScan, hWords⟩
  refine ⟨?_, ?_⟩
  · apply (scan_lexemes_iff file).2
    rw [hText, Scan.lexemesFrom_concat, hLexemes]
    rfl
  · intro surroundings defines chunk code table
    rw [yields_lineEnd_iff, h.assembles]

/-- Text that says nothing is insignificant. With such text added, and with a line end after it or
not, a text that can be scanned has the same lexemes and assembles to the same; so does the text
with a carriage return before each line feed. -/
theorem padded_restates (hScan : scan source file = .ok tokens)
    (hPadded : Scan.Padded source.toList padded.toList) :
    Restates source file tokens [] padded ∧
      Restates source file tokens (Scan.lineEnd true (lexemes tokens)) (padded ++ "\n") ∧
      Restates source file tokens [] (String.ofList (Scan.withReturns source.toList)) := by
  have hReturns : Scan.Padded source.toList
      (String.ofList (Scan.withReturns source.toList)).toList := by
    rw [String.toList_ofList]
    exact Scan.padded_withReturns source.toList
  have hSame := restates_of_padded hScan hPadded
  exact ⟨hSame, hSame.lineEnd, restates_of_padded hScan hReturns⟩

/-- A comment is added after a comment, and one before the first token; a string holds a semicolon
and a carriage return; lines are added between lines that are blank already. -/
theorem padded_restates_comments :
    let surroundings : Surroundings := Assembly.workingDirectory []
    let source := ".ascii \"; \r\" ; old\n\nnop"
    let padded := " ; head\n.ascii \"; \r\" ; old\t; new\n\r\n\x0C\nnop\x0B"
    ∃ tokens, scan source "<input>" = .ok tokens ∧ Scan.Padded source.toList padded.toList ∧
      Restates source "<input>" tokens [] padded ∧
      Yields (assembleText surroundings padded "<input>" .empty) .standard [0x3B, 0x20, 0x0D, 0]
        [] := by
  intro surroundings source padded
  have hYields : Yields (assembleText surroundings source "<input>" .empty) .standard
      [0x3B, 0x20, 0x0D, 0] [] := by decide +kernel
  obtain ⟨tokens, hScan, -⟩ := yields_assembleText_iff.1 hYields
  have hLast : Scan.Padded "nop".toList "nop\x0B".toList :=
    @Scan.Padded.last _ ['\x0B'] (by decide) (.blank (by decide))
  have hBlank : Scan.Padded "\nnop".toList "\x0C\nnop\x0B".toList :=
    @Scan.Padded.line [] ['\x0C'] _ _ (by decide) (.blank (by decide)) hLast
  have hMore : Scan.Padded "\nnop".toList "\r\n\x0C\nnop\x0B".toList :=
    @Scan.Padded.insert ['\r'] _ _ (.blank (by decide)) hBlank
  have hLine := @Scan.Padded.line ".ascii \"; \r\" ; old".toList "\t; new".toList _ _ (by decide)
    (@Scan.Filler.comment ['\t'] " new".toList (by decide) (by decide)) hMore
  have hHead := @Scan.Padded.insert " ; head".toList _ _
    (@Scan.Filler.comment [' '] " head".toList (by decide) (by decide)) hLine
  have hSource : ".ascii \"; \r\" ; old".toList ++ '\n' :: "\nnop".toList = source.toList := by
    decide
  have hText : " ; head".toList ++ '\n' :: (".ascii \"; \r\" ; old".toList ++ "\t; new".toList ++
      '\n' :: "\r\n\x0C\nnop\x0B".toList) = padded.toList := by decide
  have hPadded : Scan.Padded source.toList padded.toList := hSource ▸ hText ▸ hHead
  have hSame := (padded_restates hScan hPadded).1
  exact ⟨tokens, hScan, hPadded, hSame, (hSame.assembles _ _ _ _ _).2 hYields⟩

end
end TwoPass

end Lr35902
