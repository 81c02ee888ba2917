import Lr35902.CommandLine.Assemble
import Lr35902.Proofs.Appending
import Lr35902.Proofs.ConstantPlacement
import Lr35902.Proofs.Predefinitions
import Lr35902.Proofs.Printing

/-!
Number literals on the command line. A literal that is not octal is digits after the mark of a
notation, which is how the value of a predefinition is documented, so a predefinition takes it for
the same number (`Scan.IsNumber.typed`). Hence a constant can be defined with the same literal by a
line of the source or on the command line (`literals_agree`).
-/
namespace Lr35902

/-- A word is scanned to one number, which takes up all of it. -/
def Scan.IsNumber (word file : String) (value : Int) : Prop :=
  ∃ token, scan word file = .ok [token] ∧ token.lexeme = .number value ∧
    token.StandsAt file word.toList ⟨0, word.length⟩

/-- How a literal starts that is neither octal nor zero. -/
def Scan.otherStarts : List String :=
  ["1", "2", "3", "4", "5", "6", "7", "8", "9", "0x", "0X", "0b", "0B"]

/-! ## Literals as values -/

section
variable {word : List Char} {radix : Radix} {digits : List Char}

/-- Literals that are not octal have the marks of values. -/
theorem NumberForm.marked (h : NumberForm word radix digits)
    (hOther : word = ['0'] ∨ ∃ start ∈ Scan.otherStarts, start.toList <+: word) :
    ∃ mark ∈ Define.marks radix, word = mark.toList ++ digits := by
  cases h with
  | @hexadecimal x _ hMark _ _ =>
    rcases hMark with rfl | rfl
    · exact ⟨"0x", by decide, rfl⟩
    · exact ⟨"0X", by decide, rfl⟩
  | @binary x _ hMark _ _ =>
    rcases hMark with rfl | rfl
    · exact ⟨"0b", by decide, rfl⟩
    · exact ⟨"0B", by decide, rfl⟩
  | octal hSome hDigits =>
    rcases hOther with hZero | ⟨start, hStart, hWord⟩
    · exact absurd (List.cons.inj hZero).2 hSome
    · -- no start is made of octal digits with a zero first
      have hStarts : ∀ start ∈ Scan.otherStarts,
          ¬(start.toList ⊆ Radix.octal.digitChars ∧ start.toList.head?.all (· == '0') = true) := by
        decide
      have hAll : '0' :: digits ⊆ Radix.octal.digitChars :=
        List.cons_subset.2 ⟨by decide, hDigits⟩
      refine absurd ⟨List.Subset.trans hWord.subset hAll, ?_⟩ (hStarts start hStart)
      cases hText : start.toList with
      | nil => rfl
      | cons c rest =>
        rw [hText] at hWord
        simpa using (List.cons_prefix_cons.1 hWord).1
  | zero => exact ⟨"", by decide, rfl⟩
  | decimal _ _ => exact ⟨"", by decide, rfl⟩

end

namespace Define
open Text

section
variable {radix : Radix} {mark name word : String} {digits : List Char} {value : Int}

theorem typed_mark (hMark : mark ∈ marks radix) (hSome : digits ≠ [])
    (hDigits : digits ⊆ radix.digitChars)
    (hLength : radix = .decimal → digits.length ≤ decimalLimit) :
    Typed (mark.toList ++ digits) (positional radix.base digits : Nat) := by
  unfold Typed
  rw [cut_mark hMark hDigits]
  exact ⟨[], digits, rfl, List.forall_mem_nil _,
    (signed_plain_iff hDigits).2 ⟨hSome, hLength, rfl⟩⟩

/-- No blank stands in a mark or among digits. -/
theorem trimBy_mark (hMark : mark ∈ marks radix) (hDigits : digits ⊆ radix.digitChars) :
    trimBy isBlank (mark.toList ++ digits) = mark.toList ++ digits := by
  have hMarks : ∀ mark ∈ marks radix, mark.toList ⊆ numberChars := by cases radix <;> decide
  have hChars : mark.toList ++ digits ⊆ numberChars :=
    List.append_subset.2 ⟨hMarks mark hMark, List.Subset.trans hDigits (digitChars_subset radix)⟩
  have hBlank : ∀ c ∈ numberChars, isBlank c = false := List.all_iff_forall_prop.1 (by decide)
  exact trimBy_eq_self fun c hMem => hBlank c (hChars hMem)

/-- A name and a value with an equals sign between them are a predefinition. -/
theorem parse_of_typed (hName : name ≠ "") (hEquals : '=' ∉ name.toList) (hTrim : trim name = name)
    (hWord : trimBy isBlank word.toList = word.toList) (h : Typed word.toList value)
    (hRange : 0 ≤ value ∧ value ≤ maxAddress) :
    parse (name ++ "=" ++ word) = .ok (name, value) := by
  have hText : (name ++ "=" ++ word).toList = name.toList ++ '=' :: word.toList := by simp
  have hNameTrim : trimBy isBlank name.toList = name.toList := by
    have hChars := congrArg String.toList hTrim
    rw [trim, String.toList_ofList] at hChars
    exact hChars
  rw [parse_eq_ok_iff, hText, reads_valued_iff hEquals, hNameTrim, hWord]
  refine ⟨?_, String.ofList_toList.symm, h, hRange⟩
  simpa using hName

end
end Define

/-! ## Numbers and identifiers -/

namespace Scan

section
variable {word file name : String} {value : Int} {token : Token}

/-- A number that takes up a word is a literal. -/
theorem IsNumber.literal (h : IsNumber word file value) :
    ∃ radix mark digits, Literal radix mark digits ∧
      Text.valueOf radix.base digits ≤ maxLiteral ∧ word.toList = mark ++ digits ∧
      value = (Text.valueOf radix.base digits : Nat) := by
  obtain ⟨token, -, hNumber, hStands⟩ := h
  have hSpelled := hStands.spelled
  rw [hNumber, ← String.length_toList, List.extract_eq_take_drop] at hSpelled
  simp only [List.drop_zero, Nat.sub_zero, List.take_length] at hSpelled
  generalize hLexeme : Lexeme.number value = lexeme at hSpelled
  generalize hText : word.toList = text at hSpelled
  cases hSpelled with
  | number hLiteral hFits _ =>
    exact ⟨_, _, _, hLiteral, hFits, rfl, Lexeme.number.inj hLexeme⟩
  | word hName _ _ _ => subst hLexeme; cases hName
  | _ => cases hLexeme

theorem IsNumber.range (h : IsNumber word file value) : 0 ≤ value ∧ value ≤ maxAddress := by
  obtain ⟨radix, mark, digits, -, hFits, -, rfl⟩ := h.literal
  exact ⟨Int.natCast_nonneg _, Int.ofNat_le.2 hFits⟩

theorem IsNumber.spells (h : IsNumber word file value) : Spells word.toList [.number value] := by
  obtain ⟨radix, mark, digits, hLiteral, hFits, hText, rfl⟩ := h.literal
  rw [hText]
  exact spells_literal hLiteral hFits

/-- A number that is not octal is taken as a value of a predefinition. -/
theorem IsNumber.typed (h : IsNumber word file value)
    (hOther : word = "0" ∨ ∃ start ∈ otherStarts, start.toList <+: word.toList) :
    Define.Typed word.toList value ∧ Text.trimBy Text.isBlank word.toList = word.toList := by
  obtain ⟨radix, mark, digits, hLiteral, -, hText, rfl⟩ := h.literal
  have hForm := hLiteral.numberForm
  rw [← hText] at hForm
  obtain ⟨start, hStart, hWord⟩ := hForm.marked (hOther.imp_left fun hZero => by rw [hZero]; rfl)
  rw [hWord, Text.valueOf_eq_positional hForm.subset]
  exact ⟨Define.typed_mark hStart hLiteral.nonempty hForm.subset hLiteral.length_le,
    Define.trimBy_mark hStart hForm.subset⟩

/-- A word that is scanned to an identifier of its own name. -/
theorem isWordText_of_scan (h : scan name file = .ok [token])
    (hName : token.lexeme = .identifier name) :
    isWordText name.toList = true ∧ classify name = .identifier name := by
  obtain ⟨piece, -, hPiece⟩ := (divides_of_scan h).spelled token List.mem_cons_self
  rw [hName] at hPiece
  exact hPiece.identifier.2

theorem not_isBlank_of_isIdentifierChar {c : Char} (h : isIdentifierChar c = true) :
    c ≠ '=' ∧ Text.isBlank c = false := by
  have hCode : 0x30 ≤ c.toNat ∧ c.toNat ≤ 0x7A := by
    rcases Bool.or_eq_true_iff.1 h with hWord | hLine
    · rcases Bool.or_eq_true_iff.1 hWord with hLetter | hDigit
      · have hRange := isAlpha_iff.1 hLetter
        omega
      · have hRange := Text.isAsciiDigit_iff.1 (isAsciiDigit_of_isDigit hDigit)
        omega
    · rw [beq_iff_eq.1 hLine]
      decide
  refine ⟨?_, Text.inRanges_of_apart (by decide) hCode.1 hCode.2⟩
  intro hEquals
  rw [hEquals] at h
  cases h

end

end Scan

/-- A word can be the name of a predefinition. -/
theorem Define.nameable_of_isWordText {name : String} (h : Scan.isWordText name.toList = true) :
    name ≠ "" ∧ '=' ∉ name.toList ∧ Text.trim name = name := by
  have hChars := Scan.isIdentifierChar_of_isWordText h
  refine ⟨?_, ?_, ?_⟩
  · intro hEmpty
    rw [hEmpty] at h
    cases h
  · intro hMem
    exact (Scan.not_isBlank_of_isIdentifierChar (hChars '=' hMem)).1 rfl
  · have hBlank : ∀ c ∈ name.toList, Text.isBlank c = false := by
      intro c hMem
      exact (Scan.not_isBlank_of_isIdentifierChar (hChars c hMem)).2
    rw [Text.trim, Text.trimBy_eq_self hBlank, String.ofList_toList]

/-! ## Constants -/

namespace TwoPass

/-- Whatever program an assembly gives has a constant of a name and value. -/
def GivesConstant (outcome : Assembly.Outcome) (name : String) (value : Int) : Prop :=
  ∀ program, outcome.result = .ok program → ∃ symbol, program.symbols.lookup? name = some symbol ∧
    symbol.value = value ∧ symbol.isConstant = true

section
variable {surroundings : Surroundings} {file line name : String} {value : Int}
  {defines : NameMap Int}

theorem givesConstant_of_yields {text : String}
    (h : ∀ code table, Yields (assembleText surroundings text file defines) .standard code table →
      (table.map Definition.name).Nodup ∧ ⟨name, value, true⟩ ∈ table) :
    GivesConstant (assembleText surroundings text file defines) name value := by
  intro program hResult
  obtain ⟨code, event, hGenerate⟩ := yields_of_result hResult
  obtain ⟨hDistinct, hMem⟩ := h code _ ⟨program, event, hResult, hGenerate, rfl⟩
  obtain ⟨symbol, hSymbol, hEntry⟩ := lookup?_of_mem hDistinct hMem
  exact ⟨symbol, hSymbol, congrArg Definition.value hEntry, congrArg Definition.isConstant hEntry⟩

theorem givesConstant_line (h : DefinesConstant file line name value) (before after : List String) :
    GivesConstant
      (assembleText surroundings ("\n".intercalate (before ++ line :: after)) file defines) name
      value := by
  apply givesConstant_of_yields
  intro code table hYields
  obtain ⟨spots, _, -, -, hLines, hOutput⟩ := yields_lines_iff.1 hYields
  obtain ⟨first, more, -, -, rfl⟩ := h.unfoldsLines_iff.1 hLines
  refine ⟨hOutput.distinct, ?_⟩
  rw [hOutput.table_eq]
  apply (definitions_constant defines.entries name value first more).mem_iff.2
  simp [definitions]

theorem givesConstant_predefined (hNew : name ∉ defines.names) (lines : List String) :
    GivesConstant
      (assembleText surroundings ("\n".intercalate lines) file (defines.insert name value)) name
      value := by
  apply givesConstant_of_yields
  intro code table hYields
  obtain ⟨spots, clauses, -, -, -, hOutput⟩ := yields_lines_iff.1 hYields
  refine ⟨hOutput.distinct, ?_⟩
  rw [hOutput.table_eq, NameMap.entries_insert_of_not_mem hNew]
  simp [definitions]

/-- A line that defines a name by a literal. -/
theorem definesConstant_equ {word origin : String} {token : Token}
    (hNumber : Scan.IsNumber word origin value) (hScan : scan name origin = .ok [token])
    (hName : token.lexeme = .identifier name) :
    DefinesConstant file (".equ " ++ name ++ ", " ++ word) name value := by
  obtain ⟨hWord, hKind⟩ := Scan.isWordText_of_scan hScan hName
  have hHead : Scan.Spells ".equ".toList [.directive ".equ"] :=
    @Scan.spells_directive "equ".toList (by decide) (by decide)
  have hIdentifier := @Scan.spells_word name hWord (by rw [hKind]; rfl)
  rw [hKind] at hIdentifier
  have hSpells := @Scan.spells_formText ".equ" (.directive ".equ") [name, word]
    [[.identifier name], [.number value]] hHead (.cons hIdentifier (.cons hNumber.spells .nil))
  have hText : (".equ " ++ name ++ ", " ++ word).toList =
      (Form.text ".equ" [name, word]).toList ++ [] := by
    simp [Form.text]
  have hLexemes : Scan.lexemesFrom true (".equ " ++ name ++ ", " ++ word).toList =
      some [.directive ".equ", .identifier name, Delimiter.comma.lexeme, .number value] := by
    rw [hText, hSpells true [] (fun c hc => by cases hc), Scan.lexemesFrom.eq_1]
    rfl
  obtain ⟨tokens, hTokens, hWords⟩ := (scan_lexemes_iff file).2 hLexemes
  exact ⟨tokens, _, hTokens, hWords⟩

end
end TwoPass

/-- A literal that is not octal is the same number on the command line as in the source. So a name
that can be defined by a line of the source can be predefined with the same literal instead: both
assemblies come to the same, and the name is a constant of the same value. -/
theorem literals_agree {word file : String} {value : Int}
    (hNumber : Scan.IsNumber word file value)
    (hOther : word = "0" ∨ ∃ start ∈ Scan.otherStarts, start.toList <+: word.toList) :
    (∀ name, name ≠ "" → '=' ∉ name.toList → Text.trim name = name →
        Define.parse (name ++ "=" ++ word) = .ok (name, value)) ∧
      ∀ name token, scan name file = .ok [token] → token.lexeme = .identifier name →
        (∀ session, AssembleCommand.defineAll session [name ++ "=" ++ word] =
            .ok { session with defines := session.defines.insert name value }) ∧
          ∀ surroundings origin (defines : NameMap Int) chunk before after,
            name ∉ defines.names →
              let line := ".equ " ++ name ++ ", " ++ word
              let defined := assembleText surroundings
                ("\n".intercalate (before ++ line :: after)) origin defines
              let predefined := assembleText surroundings
                ("\n".intercalate (before ++ after)) origin (defines.insert name value)
              TwoPass.Interchangeable chunk defined predefined ∧
                TwoPass.GivesConstant defined name value ∧
                TwoPass.GivesConstant predefined name value := by
  obtain ⟨hTyped, hWord⟩ := hNumber.typed hOther
  -- any name will do on the command line, but only an identifier can be defined by a line
  have hParse (name : String) (hName : name ≠ "") (hEquals : '=' ∉ name.toList)
      (hTrim : Text.trim name = name) : Define.parse (name ++ "=" ++ word) = .ok (name, value) :=
    Define.parse_of_typed hName hEquals hTrim hWord hTyped hNumber.range
  refine ⟨hParse, fun name token hScan hName => ⟨?_, ?_⟩⟩
  · intro session
    obtain ⟨hSome, hEquals, hTrim⟩ := Define.nameable_of_isWordText
      (Scan.isWordText_of_scan hScan hName).1
    have hDefine : session.define name value =
        .ok { session with defines := session.defines.insert name value } :=
      if_pos hNumber.range
    rw [AssembleCommand.defineAll, hParse name hSome hEquals hTrim]
    simp only [hDefine]
    rfl
  · intro surroundings origin defines chunk before after hNew line defined predefined
    have hLine : TwoPass.DefinesConstant origin line name value :=
      TwoPass.definesConstant_equ hNumber hScan hName
    exact ⟨TwoPass.constant_predefined hNew hLine before after,
      TwoPass.givesConstant_line hLine before after,
      TwoPass.givesConstant_predefined hNew (before ++ after)⟩

/-- A hexadecimal literal with leading zeros, letters of both cases and a capital mark. -/
theorem literals_agree_mixed_case :
    let word := "0X00bEeF"
    let line := ".equ " ++ "N" ++ ", " ++ word
    let assembled (lines : List String) :=
      assembleText (Assembly.workingDirectory []) ("\n".intercalate lines) "<input>"
    Scan.IsNumber word "<input>" 0xBEEF ∧
      Define.parse ("a b" ++ "=" ++ word) = .ok ("a b", 0xBEEF) ∧
      TwoPass.Yields (assembled ["ld hl, N", line, "nop"] .empty) .standard [0x21, 0xEF, 0xBE, 0]
        [⟨"N", 0xBEEF, true⟩] ∧
      TwoPass.Interchangeable .standard (assembled ["ld hl, N", line, "nop"] .empty)
        (assembled ["ld hl, N", "nop"] (NameMap.empty.insert "N" 0xBEEF)) ∧
      TwoPass.GivesConstant (assembled ["ld hl, N", "nop"] (NameMap.empty.insert "N" 0xBEEF)) "N"
        0xBEEF := by
  intro word line assembled
  have hLiteral : Scan.Literal .hexadecimal "0X".toList "00bEeF".toList :=
    .of_ne_decimal (by decide) (by decide) (by decide) (by decide)
  have hStands : Token.StandsAt "<input>" word.toList ⟨.number 0xBEEF, ⟨"<input>", 1, 1⟩⟩
      ⟨0, word.length⟩ := by
    refine ⟨by decide, by decide, rfl, ?_⟩
    have hText : word.toList.extract 0 word.length = "0X".toList ++ "00bEeF".toList := by decide
    have hRest : word.toList.drop word.length = [] := by decide
    show (Lexeme.number 0xBEEF).SpelledBy (word.toList.extract 0 word.length)
      (word.toList.drop word.length)
    rw [hText, hRest]
    exact @Lexeme.SpelledBy.number .hexadecimal _ _ [] hLiteral (by decide) rfl
  have hNumber : Scan.IsNumber word "<input>" 0xBEEF := ⟨_, by decide +kernel, rfl, hStands⟩
  have hAgree := literals_agree hNumber (.inr ⟨"0X", by decide, by decide⟩)
  have hName : scan "N" "<input>" = .ok [⟨.identifier "N", ⟨"<input>", 1, 1⟩⟩] := by decide +kernel
  obtain ⟨hSame, -, hConstant⟩ := (hAgree.2 "N" _ hName rfl).2 (Assembly.workingDirectory [])
    "<input>" .empty .standard ["ld hl, N"] ["nop"] (by decide)
  exact ⟨hNumber, hAgree.1 "a b" (by decide) (by decide) (by decide +kernel), by decide +kernel,
    hSame, hConstant⟩

end Lr35902
