import Lr35902.Proofs.Printing
import Lr35902.Proofs.TwoPass.Passes

/-!
Where the names of labels come from. Whatever a trace labels is an identifier of its tokens or of
some file (`label_mem_identifiers`). A text has no more identifiers than characters, and none of
them takes more bytes than the text has characters; the same holds of all files together
(`FileSystem.length_identifiers`, `FileSystem.byteLength_identifier`). So labels with different
names are as few, and as short, as the source and the files are together.
-/
namespace Lr35902

open FileSystem (byteLength)
open Statement (identifiersOf mem_identifiersOf)

/-! ## Identifiers of a text -/

namespace Text

/-- The identifiers of a text. A text that cannot be scanned has none. -/
def identifiers (text : List Char) : List String :=
  ((Scan.lexemesFrom true text).getD []).filterMap Statement.identifier?

theorem identifiers_of_scan {text : List Char} {file : String} {tokens : List Token}
    (h : scan (String.ofList text) file = .ok tokens) :
    identifiers text = identifiersOf tokens := by
  have hWords := (scan_lexemes_iff file).1 ⟨tokens, h, rfl⟩
  rw [String.toList_ofList] at hWords
  rw [identifiers, hWords, Option.getD_some, List.filterMap_map]
  rfl

theorem identifiers_cases (text : List Char) :
    identifiers text = [] ∨ ∃ tokens, scan (String.ofList text) "" = .ok tokens ∧
      identifiers text = identifiersOf tokens := by
  cases hWords : Scan.lexemesFrom true text with
  | none =>
    left
    rw [identifiers, hWords]
    rfl
  | some words =>
    right
    rw [← String.toList_ofList (l := text)] at hWords
    obtain ⟨tokens, hScan, -⟩ := (scan_lexemes_iff "").2 hWords
    exact ⟨tokens, hScan, identifiers_of_scan hScan⟩

theorem length_identifiers (text : List Char) : (identifiers text).length ≤ text.length := by
  rcases identifiers_cases text with hNone | ⟨tokens, hScan, hTokens⟩
  · rw [hNone]
    exact Nat.zero_le _
  · rw [hTokens]
    exact Nat.le_trans (List.length_filterMap_le _ _) (length_scan hScan)

theorem toNat_lt_of_isIdentifierChar {c : Char} (h : Scan.isIdentifierChar c = true) :
    c.toNat < 0x80 := by
  have hRange := Scan.toNat_of_isIdentifierChar h
  omega

/-- A word takes one byte for each of its characters. -/
theorem byteLength_word {name : String} (h : Scan.isWordText name.toList = true) :
    byteLength name = name.toList.length := by
  have hBits : (name.toList.all fun c => decide (c.toNat < 0x80)) = true := by
    rw [List.all_eq_true]
    intro c hMem
    rw [decide_eq_true_eq]
    exact toNat_lt_of_isIdentifierChar (Scan.isIdentifierChar_of_isWordText h c hMem)
  rw [byteLength, TwoPass.encode_ascii hBits, List.length_map]

theorem byteLength_identifier {text : List Char} {name : String} (h : name ∈ identifiers text) :
    byteLength name ≤ text.length := by
  rcases identifiers_cases text with hNone | ⟨tokens, hScan, hTokens⟩
  · rw [hNone] at h
    exact absurd h List.not_mem_nil
  · rw [hTokens] at h
    obtain ⟨token, hMem, hName⟩ := mem_identifiersOf.1 h
    obtain ⟨piece, hInfix, hPiece⟩ := (Scan.divides_of_scan hScan).spelled token hMem
    rw [hName] at hPiece
    rw [String.toList_ofList] at hInfix
    obtain ⟨rfl, hWord, -⟩ := hPiece.identifier
    rw [byteLength_word hWord]
    exact hInfix.length_le

end Text

/-! ## Identifiers of files -/

namespace FileSystem

/-- The text that the bytes of a file spell; bytes that are not UTF-8 spell none. -/
def textOf (data : Bytes) : List Char :=
  Text.unifyNewlines ((Utf8.decode data).toOption.getD [])

/-- The identifiers of all files. -/
def identifiers (fs : FileSystem) : List String :=
  fs.files.flatMap fun file => Text.identifiers (textOf file.2)

/-- The number of bytes in all files. -/
def size (fs : FileSystem) : Nat := (fs.files.flatMap Prod.snd).length

theorem readText_eq {fs : FileSystem} {path : Path} {text : List Char}
    (h : fs.readText path = .ok text) : ∃ file ∈ fs.files, text = textOf file.2 := by
  unfold readText read at h
  cases hLocate : fs.locate path with
  | error fault => simp [hLocate] at h
  | ok found =>
    cases found with
    | directory spot => simp [hLocate] at h
    | vacant spot => simp [hLocate] at h
    | file spot number data =>
      simp only [hLocate] at h
      split at h
      · next decoded hDecode =>
        cases h
        refine ⟨(spot, data), mem_files_of_locate hLocate, ?_⟩
        rw [textOf, hDecode]
        rfl
      · cases h

theorem identifiers_readText {fs : FileSystem} {path : Path} {text : List Char}
    (h : fs.readText path = .ok text) : Text.identifiers text ⊆ fs.identifiers := by
  obtain ⟨file, hFile, rfl⟩ := readText_eq h
  intro name hName
  exact List.mem_flatMap.2 ⟨file, hFile, hName⟩

theorem length_textOf (data : Bytes) : (textOf data).length ≤ data.length := by
  refine Nat.le_trans (Text.length_unifyNewlines _) ?_
  cases hDecode : Utf8.decode data with
  | error fault => exact Nat.zero_le _
  | ok text =>
    have hLength := Utf8.length_decodeFrom hDecode
    rw [List.length_nil, Nat.zero_add] at hLength
    exact hLength

theorem length_identifiers (fs : FileSystem) : fs.identifiers.length ≤ fs.size := by
  unfold identifiers size
  induction fs.files with
  | nil => exact Nat.le_refl 0
  | cons file rest ih =>
    have hFile : (Text.identifiers (textOf file.2)).length ≤ file.2.length :=
      Nat.le_trans (Text.length_identifiers _) (length_textOf _)
    rw [List.flatMap_cons, List.flatMap_cons, List.length_append, List.length_append]
    exact Nat.add_le_add hFile ih

theorem byteLength_identifier {fs : FileSystem} {name : String} (h : name ∈ fs.identifiers) :
    byteLength name ≤ fs.size := by
  obtain ⟨file, hFile, hName⟩ := List.mem_flatMap.1 h
  have hData : file.2.length ≤ fs.size :=
    (List.sublist_flatten_of_mem (List.mem_map_of_mem hFile)).length_le
  calc byteLength name ≤ (textOf file.2).length := Text.byteLength_identifier hName
    _ ≤ file.2.length := length_textOf _
    _ ≤ fs.size := hData

end FileSystem

/-! ## Labels -/

namespace TwoPass

open Assembly (Trace FileEffect)

section
variable {surroundings : Surroundings} {openFiles others : List Spot} {name : String}

theorem eq_label_of_mem {command : Command} (h : Clause.label name ∈ ofCommand command) :
    command = .label name := by
  cases command with
  | label other =>
    cases List.mem_singleton.1 h
    rfl
  | _ => simp [ofCommand] at h

theorem mem_of_reads_label {tokens rest : List Token}
    (h : Statement.Reads tokens (.label name) rest) :
    ∃ token ∈ tokens, token.lexeme = .identifier name := by
  generalize hCommand : Command.label name = command at h
  cases h with
  | blank | endInclude => cases hCommand
  | label hName _ =>
    cases hCommand
    exact ⟨_, List.mem_cons_self, hName⟩
  | statement hBody _ =>
    -- no instruction and no directive is a label
    subst hCommand
    unfold Statement.Body at hBody
    split at hBody
    · cases hBody
    · unfold Statement.DirectiveBody at hBody
      split at hBody <;> cases hBody
    · exact hBody.elim

/-- The tokens of an included file have the identifiers of that file. -/
theorem identifiersOf_brought {command : Command} {brought : List Token}
    (hSupplies : surroundings.supplies = none)
    (h : FileEffect surroundings openFiles command brought others) :
    identifiersOf brought ⊆ surroundings.files.identifiers := by
  cases h with
  | none => exact List.nil_subset _
  | endInclude => exact List.nil_subset _
  | @use _ _ path _ text included _ _ hText hScan =>
    unfold Surroundings.readText at hText
    rw [hSupplies] at hText
    dsimp only at hText
    split at hText
    · next found hRead =>
      cases hText
      rw [scanText_chars] at hScan
      rw [identifiersOf, List.filterMap_append, ← identifiersOf, ← Text.identifiers_of_scan hScan]
      refine List.append_subset.2 ⟨?_, List.nil_subset _⟩
      exact FileSystem.identifiers_readText hRead
    · cases hText

/-- The name of a label is an identifier of the source, or of a file that it may include. -/
theorem label_mem_identifiers (hSupplies : surroundings.supplies = none) {tokens : List Token}
    {statements : List Statement} (h : Trace surroundings tokens openFiles statements others)
    (hName : Clause.label name ∈ clausesOf statements) :
    name ∈ identifiersOf tokens ∨ name ∈ surroundings.files.identifiers := by
  induction h with
  | done => exact absurd hName List.not_mem_nil
  | @step token tokens rest brought _ _ _ statement _ hRead hFiles _ ih =>
    have hReads := (Statement.read_ok_iff.1 hRead).2
    rw [clausesOf_cons] at hName
    rcases List.mem_append.1 hName with hHere | hLater
    · left
      rw [eq_label_of_mem hHere] at hReads
      exact mem_identifiersOf.2 (mem_of_reads_label hReads)
    · rcases ih hLater with hToken | hFile
      · obtain ⟨later, hMem, hLexeme⟩ := mem_identifiersOf.1 hToken
        rcases List.mem_append.1 hMem with hBrought | hRest
        · right
          exact identifiersOf_brought hSupplies hFiles
            (mem_identifiersOf.2 ⟨later, hBrought, hLexeme⟩)
        · left
          exact mem_identifiersOf.2 ⟨later, hReads.rest_subset hRest, hLexeme⟩
      · exact .inr hFile

end
end TwoPass
end Lr35902
