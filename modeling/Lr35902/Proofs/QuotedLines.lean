import Lr35902.Proofs.AssemblyFaults
import Lr35902.Proofs.DisplayedLines
import Lr35902.Proofs.IncludedNames
import Lr35902.Proofs.Printing

/-!
Which line a diagnostic quotes. The lines of a text are known by the name of its file along the
whole run (`knows_of_reaches`), and whatever a statement or the resolution objects to is told with
the line known for its place (`State.step_keeps`, `assembleText_quotes`). Lines are known as they
are displayed and looked up by the number that the scanner gave them, so breaks that the scanner
does not count lead to parts of lines and to other lines (`quoted_line_iff`).
-/
namespace Lr35902

/-! ## The lines that a run quotes -/

namespace Assembly

/-- The line of a text that is quoted for a place. -/
def quotedAt (text : List Char) (location : Location) : Option String :=
  if location.line ≤ 0 then none else (quotedLines text)[location.line.toNat - 1]?

/-- The lines of a text are known by the name of its file. -/
def State.Knows (file : String) (text : List Char) (state : State) : Prop :=
  state.sources.lookup file = some (quotedLines text)

end Assembly

/-- A diagnostic in a file quotes the line of its place in a text. -/
def Diagnostic.Quotes (file : String) (text : List Char) (d : Diagnostic) : Prop :=
  ∀ location, d.location = some location → location.file = file →
    d.sourceLine = Assembly.quotedAt text location

/-- A symbol that cannot be defined is told at its place, with the line given for it. -/
theorem SymbolTable.define_error_place {table : SymbolTable} {symbol : Symbol}
    {line : Option String} {d : Diagnostic} (h : table.define symbol line = .error d) :
    d.location = symbol.location ∧ d.sourceLine = line := by
  unfold define at h
  split at h
  · cases h
    exact ⟨rfl, rfl⟩
  · split at h
    · cases h
    · cases h
      exact ⟨rfl, rfl⟩

namespace Assembly

/-- A result of a statement: the lines are still known, or a diagnostic quotes one of them. -/
def Keeps (file : String) (text : List Char) : Except Fault State → Prop
  | .ok after => after.Knows file text
  | .error fault => ∀ d, fault = .diagnostic d → d.Quotes file text

section
variable {surroundings : Surroundings} {state : State} {file : String} {text : List Char}
  {location : Location}

theorem Keeps.ok {result : Except Fault State} {after : State} (h : Keeps file text result)
    (hResult : result = .ok after) : after.Knows file text := by
  rw [hResult] at h
  exact h

theorem Keeps.error {result : Except Fault State} {fault : Fault} (h : Keeps file text result)
    (hResult : result = .error fault) : Keeps file text (.error fault) := by
  rw [hResult] at h
  exact h

/-- A diagnostic of the scanner is about the file that is scanned. -/
theorem location_of_scan {source : String} {d : Diagnostic} (h : scan source file = .error d)
    (hPlace : d.location = some location) : location.file = file := by
  obtain ⟨more, reached, left, -, hPoints⟩ :
      Scan.Explains file source.toList [] true [] source.toList (.error d) :=
    Scan.scanFrom_explains h rfl (Scan.Cursor.start_stands _)
  rw [hPoints.location_eq] at hPlace
  cases hPlace
  rfl

theorem State.Knows.lineAt_eq (h : state.Knows file text) (hFile : location.file = file) :
    state.lineAt location = quotedAt text location := by
  rw [State.lineAt, hFile, h]
  rfl

theorem quotes_of_lineAt (h : state.Knows file text) {d : Diagnostic}
    (hLine : d.sourceLine = d.location.bind state.lineAt) : d.Quotes file text := by
  intro location hPlace hFile
  rw [hLine, hPlace]
  exact h.lineAt_eq hFile

theorem keeps_diagnose (h : state.Knows file text) (cause : Cause) (location : Location)
    (hint : Option String) : Keeps file text (.error (state.diagnose cause location hint)) := by
  intro d hSame
  cases hSame
  exact quotes_of_lineAt h rfl

namespace State

theorem place_keeps (h : state.Knows file text) (location : Location) (content : Content) :
    Keeps file text (state.place location content) := by
  unfold place
  split
  · exact h
  · exact keeps_diagnose h _ _ _

theorem define_keeps (h : state.Knows file text) (name : String) (value : Int)
    (location : Location) (isConstant : Bool) :
    Keeps file text (state.define name value location isConstant) := by
  unfold define
  split
  · exact h
  · next d hDefine =>
    intro other hSame
    cases hSame
    obtain ⟨hPlace, hLine⟩ := SymbolTable.define_error_place hDefine
    apply quotes_of_lineAt h
    rw [hPlace, hLine]
    rfl

theorem bindLabel_keeps (h : state.Knows file text) (name : String) (location : Location) :
    Keeps file text (state.bindLabel name location) := by
  have hDefine := define_keeps h name state.program.location location false
  unfold bindLabel
  simp only
  split
  · exact keeps_diagnose h _ _ _
  · split
    · next hFault => exact hDefine.error hFault
    · next hAfter =>
      have hKnown := hDefine.ok hAfter
      exact hKnown

theorem placeInstruction_keeps (h : state.Knows file text) (location : Location)
    (mnemonic : String) (form : Form) (operands : List WrittenOperand) :
    Keeps file text (state.placeInstruction location mnemonic form operands) := by
  unfold placeInstruction
  split
  · exact keeps_diagnose h _ _ _
  · exact place_keeps h _ _

theorem placeOrigin_keeps (h : state.Knows file text) (location : Location) (target : Int)
    (targetLocation : Location) (value : Int) :
    Keeps file text (state.placeOrigin location target targetLocation value) := by
  unfold placeOrigin
  split
  · exact keeps_diagnose h _ _ _
  · exact place_keeps h _ _

theorem defineConstant_keeps (h : state.Knows file text) (location : Location) (name : String)
    (nameLocation : Location) (value : Int) :
    Keeps file text (state.defineConstant location name nameLocation value) := by
  have hDefine := define_keeps h name value nameLocation true
  unfold defineConstant
  split
  · next hFault => exact hDefine.error hFault
  · next after hAfter =>
    have hPlace := place_keeps (hDefine.ok hAfter) location (.constant name value)
    split
    · next hFault => exact hPlace.error hFault
    · next hPlaced =>
      have hKnown := hPlace.ok hPlaced
      exact hKnown

/-- A text that is included under another name leaves the lines as they are. -/
theorem splice_knows (h : state.Knows file text) {path : String} (hOther : path ≠ file)
    (spot : Spot) (included : List CodePoint) (tokens : List Token) :
    (state.splice spot path included tokens).Knows file text := by
  have hSkip : (file == path) = false := by simpa using Ne.symm hOther
  show ((path, quotedLines (included.map CodePoint.shadow)) :: state.sources).lookup file = _
  rw [List.lookup_cons, hSkip]
  exact h

theorem includeFile_keeps (h : state.Knows file text) (location : Location) (name : String)
    (nameLocation : Location)
    (hSpares : surroundings.Spares file state.openFiles) :
    Keeps file text (includeFile surroundings state location name nameLocation) := by
  have hRefused (refusal : InclusionFault) (searched : List String) :
      Keeps file text (.error (.diagnostic (.inclusion name refusal (some nameLocation)
        (state.lineAt nameLocation) searched))) := by
    intro d hSame
    cases hSame
    exact quotes_of_lineAt h rfl
  unfold includeFile
  simp only
  split
  · intro d hSame
    cases hSame
  · exact hRefused _ _
  · next path spot hFind =>
    split
    · exact hRefused _ _
    · next hClosed =>
      have hName := hSpares _ _ path spot hFind (by simpa using hClosed)
      split
      · exact hRefused _ _
      · intro d hSame
        cases hSame
      · next included hRead =>
        split
        · next d hScan =>
          -- a diagnostic of the scanner is about the included file
          intro other hSame location hPlace hFile
          cases hSame
          rw [location_of_scan (scanText_error_iff.1 hScan) hPlace] at hFile
          exact absurd hFile hName
        · next tokens hScan =>
          have hPlace := place_keeps (splice_knows h hName spot included tokens) location
            (.inclusion name)
          split
          · next hFault => exact hPlace.error hFault
          · next hPlaced =>
            have hKnown := hPlace.ok hPlaced
            exact hKnown

theorem perform_keeps (h : state.Knows file text) (statement : Statement)
    (hSpares : surroundings.Spares file state.openFiles) :
    Keeps file text (perform surroundings state statement) := by
  obtain ⟨location, command⟩ := statement
  cases command with
  | blank => exact h
  | sectionMark name => exact h
  | endInclude mark =>
    simp only [perform, closeFile]
    split
    · exact h
    · intro d hSame
      cases hSame
  | label name => exact bindLabel_keeps h name location
  | instruction mnemonic form operands =>
    exact placeInstruction_keeps h location mnemonic form operands
  | bytes data => exact place_keeps h location _
  | string data => exact place_keeps h location _
  | fill count value => exact place_keeps h location _
  | origin target targetLocation value =>
    exact placeOrigin_keeps h location target targetLocation value
  | constant name nameLocation value =>
    exact defineConstant_keeps h location name nameLocation value
  | use name nameLocation => exact includeFile_keeps h location name nameLocation hSpares

theorem step_keeps (h : state.Knows file text) (token : Token) (rest : List Token)
    (hSpares : surroundings.Spares file state.openFiles) :
    Keeps file text (state.step surroundings token rest) := by
  unfold step
  split
  · next fault hRead =>
    cases fault with
    | rejected cause location hint => exact keeps_diagnose h cause location hint
    | unencodable data =>
      intro d hSame
      cases hSame
    | unknownDirective name =>
      intro d hSame
      cases hSame
    | negativeByte =>
      intro d hSame
      cases hSame
  · next rest hRead =>
    have hAhead : State.Knows file text { state with tokens := rest } := h
    exact perform_keeps hAhead _ hSpares

end State
end

/-! ## Resolution -/

section
variable {symbols : SymbolTable} {lineAt : Location → Option String} {next : Int} {d : Diagnostic}

theorem resolveOperands_quotes {operands : List Operand}
    (h : resolveOperands symbols lineAt next operands = .error d) :
    d.sourceLine = d.location.bind lineAt := by
  fun_induction resolveOperands symbols lineAt next operands with
  | case1 => cases h
  | case2 operand rest found hOperand =>
    cases h
    unfold resolveOperand at hOperand
    split at hOperand
    · split at hOperand
      · cases hOperand
        rfl
      · split at hOperand
        · cases hOperand
        · cases hOperand
          rfl
    · cases hOperand
  | case3 operand rest resolved hOperand found hMore ih =>
    cases h
    exact ih hMore
  | case4 => cases h

theorem resolveItems_quotes {done items : List Item}
    (h : resolveItems symbols lineAt done items = .error d) :
    d.sourceLine = d.location.bind lineAt := by
  fun_induction resolveItems symbols lineAt done items with
  | case1 => cases h
  | case2 done item rest found hItem =>
    cases h
    unfold resolveItem at hItem
    split at hItem
    · split at hItem
      · cases hItem
      · next hOperands =>
        cases hItem
        exact resolveOperands_quotes hOperands
    · cases hItem
  | case3 done item rest resolved hItem ih => exact ih h

theorem resolve_quotes {state : State} {file : String} {text : List Char}
    (hKnown : state.Knows file text) (h : state.resolve = .error (.diagnostic d)) :
    d.Quotes file text := by
  unfold State.resolve at h
  simp only at h
  split at h
  · next hItems =>
    cases h
    exact quotes_of_lineAt hKnown (resolveItems_quotes hItems)
  · cases h

end

/-! ## Whole assemblies -/

theorem predefine_error_place {table : SymbolTable} {entries : List (String × Int)} {d : Diagnostic}
    (h : predefine table entries = .error d) : d.location = none := by
  fun_induction predefine table entries with
  | case1 => cases h
  | case2 table name value rest after hDefine ih => exact ih h
  | case3 table name value rest found hDefine =>
    cases h
    exact (SymbolTable.define_error_place hDefine).1

section
variable {surroundings : Surroundings} {source file : String} {tokens : List Token}
  {defines : NameMap Int}

theorem start_knows {text : List Char} {first : State}
    (h : start surroundings ⟨tokens, file, some text, defines⟩ = .ok first) :
    first.Knows file text := by
  unfold start at h
  split at h
  · cases h
  · split at h
    · cases h
    · cases h
      exact List.lookup_cons_self

theorem start_error_quotes {text : List Char} {d : Diagnostic}
    (h : start surroundings ⟨tokens, file, some text, defines⟩ = .error (.diagnostic d)) :
    d.Quotes file text := by
  unfold start at h
  split at h
  · cases h
  · split at h
    · next hDefine =>
      cases h
      intro location hPlace _
      rw [predefine_error_place hDefine] at hPlace
      cases hPlace
    · cases h

section
variable (hWritten : surroundings.Written) (hName : surroundings.LeavesName file)
  (hScan : scan source file = .ok tokens) {first state : State}
  (hStart : start surroundings ⟨tokens, file, some source.toList, defines⟩ = .ok first)
include hWritten hName hScan hStart

/-- Whatever a run over the tokens of a text can include goes by another name. -/
theorem spares_of_reaches (hReaches : Reaches surroundings first state) :
    surroundings.Spares file state.openFiles := by
  have hFirst := Surroundings.spares_initiallyOpen hWritten hName (start_openFiles hStart)
  have hNested := Reaches.nested hReaches (start_nested (scan_scanned hScan) hStart)
  apply hFirst.mono
  intro spot hOpen
  exact (hNested.mem_iff spot).2 (.inl hOpen)

/-- So the lines of the text stay known by its name. -/
theorem knows_of_reaches (hReaches : Reaches surroundings first state) :
    state.Knows file source.toList := by
  induction hReaches with
  | refl => exact start_knows hStart
  | tail hReaches hStep ih =>
    obtain ⟨token, rest, -, hAfter⟩ := hStep
    have hSpares := spares_of_reaches hWritten hName hScan hStart hReaches
    exact (State.step_keeps ih token rest hSpares).ok hAfter

end

theorem assembleText_quotes (hWritten : surroundings.Written)
    (hName : surroundings.LeavesName file) (hScan : scan source file = .ok tokens) {d : Diagnostic}
    (h : (assembleText surroundings source file defines).result = .error (.diagnostic d)) :
    d.Quotes file source.toList := by
  rw [assembleText, hScan] at h
  simp only [assemble] at h
  split at h
  · next fault hStart =>
    cases h
    exact start_error_quotes hStart
  · next first hStart =>
    have hReaches := run_reaches surroundings (budgetFor surroundings first) first
    split at h
    · next last fault hRun =>
      cases h
      rw [hRun] at hReaches
      have hKnown := knows_of_reaches hWritten hName hScan hStart hReaches
      rcases run_fault hRun with hBudget | ⟨token, rest, -, hStep⟩
      · cases hBudget
      · have hSpares := spares_of_reaches hWritten hName hScan hStart hReaches
        exact (State.step_keeps hKnown token rest hSpares).error hStep d rfl
    · next last hRun =>
      rw [hRun] at hReaches
      have hKnown := knows_of_reaches hWritten hName hScan hStart hReaches
      split at h
      · next fault hResolve =>
        cases h
        exact resolve_quotes hKnown hResolve
      · cases h

end
end Assembly

/-! ## Tokens -/

/-- The character of the quoted line that the caret stands below. -/
def Diagnostic.aboveCaret? (d : Diagnostic) : Option Char :=
  match d.quotation with
  | [quote, caret] => quote.toList[caret.length - 1]?
  | _ => none

theorem Diagnostic.aboveCaret?_eq {d : Diagnostic} {location : Location} {line : String}
    (hLine : d.sourceLine = some line) (hPlace : d.location = some location)
    (hColumn : 0 < location.column) :
    d.aboveCaret? = line.toList[location.column.toNat - 1]? := by
  have hQuotation : d.quotation =
      ["    " ++ line, String.ofList (List.replicate (3 + location.column.toNat) ' ') ++ "^"] := by
    rw [quotation, hLine, hPlace]
    exact if_pos hColumn
  have hCaret : ("    " ++ line).toList[3 + location.column.toNat]? =
      line.toList[location.column.toNat - 1]? := by
    rw [String.toList_append, List.getElem?_append_right (by simp; omega)]
    congr 1
    simp
    omega
  have hLength :
      (String.ofList (List.replicate (3 + location.column.toNat) ' ') ++ "^").length - 1 =
        3 + location.column.toNat := by
    rw [String.length_append, String.length_ofList, List.length_replicate]
    rfl
  rw [aboveCaret?, hQuotation]
  simp only [hLength]
  exact hCaret

section
variable {file : String} {text : List Char} {token : Token} {span : Scan.Span}

/-- The line that is quoted for a token. -/
theorem Token.StandsAt.quotedAt_eq (h : token.StandsAt file text span) :
    Assembly.quotedAt text token.location =
      some (String.ofList (Text.displayedAt text span.start)) := by
  have hInside : span.start < text.length := Nat.lt_of_lt_of_le h.nonempty h.bounded
  have hShown := Text.displayLines_getElem? hInside
  rw [h.location_eq, Assembly.quotedAt, Location.after, if_neg (by simp; omega), Int.toNat_natCast,
    Nat.add_sub_cancel_left, Assembly.quotedLines, List.getElem?_toArray, List.getElem?_map, hShown]
  rfl

/-- A token begins with a character that spells it. -/
theorem Token.StandsAt.first (h : token.StandsAt file text span) :
    ∃ first more, text[span.start]? = some first ∧
      token.lexeme.SpelledBy (first :: more) (text.drop span.finish) := by
  have hInside : span.start < text.length := Nat.lt_of_lt_of_le h.nonempty h.bounded
  have hSpelled := h.spelled
  rw [List.extract_eq_take_drop, List.drop_eq_getElem_cons hInside,
    ← Nat.succ_pred_eq_of_pos (Nat.sub_pos_of_lt h.nonempty), List.take_succ_cons] at hSpelled
  exact ⟨text[span.start], _, List.getElem?_eq_getElem hInside, hSpelled⟩

theorem Token.StandsAt.column_eq (h : token.StandsAt file text span) :
    token.location.column = (Text.leftOf text span.start).length + 1 := by
  rw [h.location_eq, Location.after, Text.leftOf, List.length_drop]
  rfl

end

theorem Scan.Cursor.Stands.lineOf_toList {source : List Char} {offset : Nat} {cursor : Cursor}
    (h : cursor.Stands source (source.take offset)) :
    cursor.lineOf.toList = Text.lineAround source offset := by
  rw [lineOf, String.toList_ofList, h.lineText_eq]
  rfl

/-- How a diagnostic quotes the line of a token at an offset of a text. The caret stands below the
first character of the token exactly if no stray break comes before its line and no break before it
in the line, or if another line is displayed that happens to have the same character there. Below a
line end there is nothing above the caret. -/
structure Diagnostic.QuotesToken (text : List Char) (offset : Nat) (token : Token)
    (d : Diagnostic) : Prop where
  line : d.sourceLine = some (String.ofList (Text.displayedAt text offset))
  caret : token.lexeme ≠ .newline →
    (d.aboveCaret? = text[offset]? ↔
      (Text.strays (Text.above text offset) = 0 ∧
        ∀ c ∈ Text.leftOf text offset, Text.isLineBreak c = false) ∨
      Text.strays (Text.above text offset) ≠ 0 ∧
        (Text.displayLines (Text.above text offset))[(Text.above text offset).count '\n']?.bind
          (·[(Text.leftOf text offset).length]?) = text[offset]?)
  lineEnd : token.lexeme = .newline → Text.strays (Text.above text offset) = 0 →
    d.aboveCaret? = none

theorem Token.StandsAt.quotesToken {file : String} {text : List Char} {token : Token}
    {span : Scan.Span} {d : Diagnostic} (h : token.StandsAt file text span)
    (hQuotes : d.Quotes file text) (hPlace : d.location = some token.location) :
    d.QuotesToken text span.start token := by
  have hFile : token.location.file = file := by
    rw [h.location_eq]
    rfl
  have hLine := hQuotes token.location hPlace hFile
  rw [h.quotedAt_eq] at hLine
  have hCaret : d.aboveCaret? =
      (Text.displayedAt text span.start)[(Text.leftOf text span.start).length]? := by
    have hColumn := h.column_eq
    rw [Diagnostic.aboveCaret?_eq hLine hPlace (by omega), String.toList_ofList]
    congr 1
    omega
  obtain ⟨first, more, hFirst, hSpelled⟩ := h.first
  refine ⟨hLine, ?_, ?_⟩
  · intro hOther
    rw [hCaret, hFirst]
    exact Text.displayedAt_getElem?_iff hFirst (hSpelled.head_not_isLineBreak hOther)
  · intro hNewline hStraight
    obtain rfl := hSpelled.head?_of_newline hNewline
    rw [hCaret]
    exact Text.displayedAt_getElem?_feed hFirst hStraight

namespace Assembly

/-- The line quoted for a token, where no file goes by the name of a source that came from no file.
In every state of an assembly of the text it is the displayed line with the number of the token's
line, and a diagnostic at the token quotes it. It is the line that the scanner is in, a carriage
return at its end aside, exactly if no stray break comes before the end of that line, or if the line
displayed in its place happens to be the same. -/
theorem quoted_line_iff {surroundings : Surroundings} {source file : String}
    {tokens : List Token} {token : Token} (hWritten : surroundings.Written)
    (hName : surroundings.LeavesName file) (hScan : scan source file = .ok tokens)
    (hMem : token ∈ tokens) (defines : NameMap Int) :
    ∃ span cursor, token.StandsAt file source.toList span ∧
      Scan.Cursor.Stands source.toList (source.toList.take span.start) cursor ∧
      (source.toList.splitOn '\n')[token.location.line.toNat - 1]? = some cursor.lineOf.toList ∧
      (∀ first state,
        start surroundings ⟨tokens, file, some source.toList, defines⟩ = .ok first →
        Reaches surroundings first state →
        state.lineAt token.location =
          some (String.ofList (Text.displayedAt source.toList span.start))) ∧
      (∀ d, (assembleText surroundings source file defines).result = .error (.diagnostic d) →
        d.location = some token.location → d.QuotesToken source.toList span.start token) ∧
      (Text.displayedAt source.toList span.start = Text.withoutReturn cursor.lineOf.toList ↔
        Text.strays (Text.above source.toList span.start ++ cursor.lineOf.toList) = 0 ∨
        Text.strays (Text.above source.toList span.start) ≠ 0 ∧
          (Text.displayLines (Text.above source.toList span.start))[
            (Text.above source.toList span.start).count '\n']? =
            some (Text.withoutReturn cursor.lineOf.toList)) := by
  obtain ⟨spans, hTokens, -, -⟩ := (Scan.divides_of_scan hScan).covers
  obtain ⟨span, hStands⟩ := exists_of_forall₂ hTokens hMem
  obtain ⟨cursor, hCursor⟩ := Scan.Cursor.exists_stands (List.take_prefix span.start source.toList)
  refine ⟨span, cursor, hStands, hCursor, ?_, ?_, ?_, ?_⟩
  · have hLine : token.location.line.toNat - 1 = (source.toList.take span.start).count '\n' := by
      rw [hStands.location_eq, Location.after, Int.toNat_natCast, Nat.add_sub_cancel_left]
    rw [hLine]
    exact hCursor.lineOf_eq
  · intro first state hStart hReaches
    have hKnown := knows_of_reaches hWritten hName hScan hStart hReaches
    rw [hKnown.lineAt_eq (by rw [hStands.location_eq]; rfl)]
    exact hStands.quotedAt_eq
  · intro d hResult hPlace
    exact hStands.quotesToken (assembleText_quotes hWritten hName hScan hResult) hPlace
  · rw [hCursor.lineOf_toList]
    exact Text.displayedAt_eq_iff source.toList span.start

/-- The diagnostic that an assembly stops with, if it does. -/
def Outcome.diagnostic? (outcome : Outcome) : Option Diagnostic :=
  match outcome.result with
  | .error (.diagnostic d) => some d
  | _ => none

theorem Outcome.result_eq {outcome : Outcome} {d : Diagnostic} (h : outcome.diagnostic? = some d) :
    outcome.result = .error (.diagnostic d) := by
  unfold diagnostic? at h
  split at h
  · next hResult =>
    cases h
    exact hResult
  · cases h

/-- Below a comment with a form feed in it, the second part of the comment is quoted. -/
theorem quoted_line_iff_below_comment :
    ∃ tokens token d, (workingDirectory []).Written ∧
      (workingDirectory []).LeavesName Location.input ∧
      scan "; one\x0c two\nnop nop" Location.input = .ok tokens ∧ token ∈ tokens ∧
      (assembleText (workingDirectory []) "; one\x0c two\nnop nop" Location.input .empty).result =
        .error (.diagnostic d) ∧
      d.location = some token.location ∧ d.sourceLine = some " two" ∧
      ∃ span, token.StandsAt Location.input "; one\x0c two\nnop nop".toList span ∧
        d.QuotesToken "; one\x0c two\nnop nop".toList span.start token := by
  have hRun : ((scan "; one\x0c two\nnop nop" Location.input).toOption.bind fun tokens =>
      tokens[1]?.bind fun token =>
        (assembleText (workingDirectory []) "; one\x0c two\nnop nop" Location.input
          .empty).diagnostic?.map fun d =>
            (decide (d.location = some token.location), d.sourceLine)) =
      some (true, some " two") := by decide +kernel
  obtain ⟨tokens, hScan, hRun⟩ := Option.bind_eq_some_iff.1 hRun
  obtain ⟨token, hToken, hRun⟩ := Option.bind_eq_some_iff.1 hRun
  obtain ⟨d, hStopped, hRun⟩ := Option.map_eq_some_iff.1 hRun
  obtain ⟨hPlace, hLine⟩ := Prod.mk.inj hRun
  have hScan := eq_ok_of_toOption hScan
  have hMem := List.mem_of_getElem? hToken
  have hResult := Outcome.result_eq hStopped
  have hPlace := of_decide_eq_true hPlace
  have hWritten : (workingDirectory []).Written := List.forall_mem_nil _
  have hName : (workingDirectory []).LeavesName Location.input := by
    intro _ spot hSpot
    cases hSpot
  obtain ⟨span, cursor, hStands, -, -, -, hQuotes, -⟩ :=
    quoted_line_iff hWritten hName hScan hMem .empty
  exact ⟨tokens, token, d, hWritten, hName, hScan, hMem, hResult, hPlace, hLine, span, hStands,
    hQuotes d hResult hPlace⟩

/-- A form feed at the start of the only line makes the quoted line empty, and a file that goes by
the name of the source takes the place of the source. -/
theorem quoted_line_lost :
    (∃ d, (assembleText (workingDirectory []) "\x0cnop nop" Location.input .empty).result =
        .error (.diagnostic d) ∧
      d.location = some ⟨Location.input, 1, 6⟩ ∧ d.sourceLine = some "" ∧ d.aboveCaret? = none) ∧
    ∃ d, (assembleText (workingDirectory [("<input>", "halt\n")]) ".use \"<input>\"\nnop nop"
        Location.input .empty).result = .error (.diagnostic d) ∧
      d.location = some ⟨Location.input, 2, 5⟩ ∧ d.sourceLine = none ∧ d.aboveCaret? = none := by
  have hBreak : (assembleText (workingDirectory []) "\x0cnop nop" Location.input
      .empty).diagnostic?.map (fun d => (d.location, d.sourceLine, d.aboveCaret?)) =
      some (some ⟨Location.input, 1, 6⟩, some "", none) := by decide +kernel
  have hNamesake : (assembleText (workingDirectory [("<input>", "halt\n")])
      ".use \"<input>\"\nnop nop" Location.input .empty).diagnostic?.map
        (fun d => (d.location, d.sourceLine, d.aboveCaret?)) =
      some (some ⟨Location.input, 2, 5⟩, none, none) := by decide +kernel
  obtain ⟨first, hFirst, hBreak⟩ := Option.map_eq_some_iff.1 hBreak
  obtain ⟨second, hSecond, hNamesake⟩ := Option.map_eq_some_iff.1 hNamesake
  simp only [Prod.mk.injEq] at hBreak hNamesake
  exact ⟨⟨first, Outcome.result_eq hFirst, hBreak⟩, ⟨second, Outcome.result_eq hSecond, hNamesake⟩⟩

end Assembly
end Lr35902
