import Lr35902.Proofs.ScannedLines
import Lr35902.Proofs.TwoPass.Correspondence

/-!
Including a file is the same as putting its text in the place of the directive. Tokens that differ
in their lines and columns only unfold alike (`Relocated.unfolds`), so only the lexemes of a text
count, and these come line by line (`unfoldsText_append_iff`). The directive unfolds into the
clauses of the file, whose mark ends its last statement as a line end does (`unfolds_use_iff`);
hence the text before and after it sees no difference (`include_iff_text`).
-/
namespace Lr35902.TwoPass

open Assembly (State Source Trace FileEffect Nested)

/-! ## Places -/

/-- What statements depend on in a token: its lexeme, and the file to look from. -/
def essence (token : Token) : Lexeme × String := (token.lexeme, token.location.file)

/-- Tokens with the same lexemes in the same files. -/
def Relocated (tokens others : List Token) : Prop :=
  others.map essence = tokens.map essence ∧ ∀ token ∈ tokens, token.Live

section
variable {tokens others rest : List Token}

theorem Relocated.cons_inv {token : Token} (h : Relocated (token :: rest) others) :
    ∃ other left, others = other :: left ∧ other.lexeme = token.lexeme ∧
      other.location.file = token.location.file ∧ Relocated rest left := by
  obtain ⟨hSame, hLive⟩ := h
  obtain ⟨other, left, rfl, hOther, hLeft⟩ := List.map_eq_cons_iff.1 hSame
  obtain ⟨-, hRest⟩ := List.forall_mem_cons.1 hLive
  exact ⟨other, left, rfl, congrArg Prod.fst hOther, congrArg Prod.snd hOther, hLeft, hRest⟩

theorem Relocated.append_inv {front : List Token} (h : Relocated (front ++ rest) others) :
    ∃ first left, others = first ++ left ∧ Relocated front first ∧ Relocated rest left := by
  obtain ⟨hSame, hLive⟩ := h
  rw [List.map_append] at hSame
  obtain ⟨first, left, rfl, hFirst, hLeft⟩ := List.map_eq_append_iff.1 hSame
  obtain ⟨hFront, hRest⟩ := List.forall_mem_append.1 hLive
  exact ⟨first, left, rfl, ⟨hFirst, hFront⟩, hLeft, hRest⟩

theorem Relocated.lexemes_eq (h : Relocated tokens others) : lexemes others = lexemes tokens := by
  have hSame := congrArg (List.map Prod.fst) h.1
  rw [List.map_map, List.map_map] at hSame
  exact hSame

theorem Relocated.live (h : Relocated tokens others) : ∀ token ∈ others, token.Live := by
  intro token hMem
  have hLexeme : token.lexeme ∈ lexemes tokens := by
    rw [← h.lexemes_eq]
    exact List.mem_map_of_mem hMem
  obtain ⟨other, hOther, hSame⟩ := List.mem_map.1 hLexeme
  have hLive := h.2 other hOther
  unfold Token.Live at hLive ⊢
  rw [hSame] at hLive
  exact hLive

theorem Relocated.symm (h : Relocated tokens others) : Relocated others tokens :=
  ⟨h.1.symm, h.live⟩

theorem Relocated.ends {tail others : List Token} (h : Relocated tail others)
    (hEnds : Statement.Ends tail rest) :
    ∃ left, Statement.Ends others left ∧ Relocated rest left := by
  cases hEnds with
  | input =>
    have hNil := List.map_eq_nil_iff.1 h.1
    rw [hNil] at h ⊢
    exact ⟨[], .input, h⟩
  | line hLine =>
    obtain ⟨other, left, rfl, hOther, -, hLeft⟩ := h.cons_inv
    exact ⟨left, .line (hOther.trans hLine), hLeft⟩
  | file hFile =>
    obtain ⟨other, left, rfl, hOther, -, -⟩ := h.cons_inv
    exact ⟨other :: left, .file (hOther.trans hFile), h⟩

theorem Relocated.body {head other : Token} {body first : List Token} {command : Command}
    (hHead : other.lexeme = head.lexeme) (hBody : Relocated body first)
    (h : Statement.Body head body command) :
    ∃ same, Statement.Body other first same ∧ Corresponding Eq command same := by
  by_cases hUse : head.lexeme = .directive ".use"
  · -- an inclusion has no clause, but says from which file to look
    unfold Statement.Body at h ⊢
    rw [hHead]
    rw [hUse] at h ⊢
    obtain @⟨token, file, hFile⟩ := h
    obtain ⟨second, left, rfl, hSecond, hPlace, hLeft⟩ := hBody.cons_inv
    have hNil := List.map_eq_nil_iff.1 hLeft.1
    rw [hNil]
    exact ⟨_, .intro (hSecond.trans hFile), .use hPlace.symm⟩
  · obtain ⟨clause, hClause⟩ := (body_plain h).2 hUse
    have hStatement := (statement?_iff hBody.2).2 ⟨command, h, hClause⟩
    rw [← hHead, ← hBody.lexemes_eq] at hStatement
    obtain ⟨same, hSame, hSameClause⟩ := (statement?_iff hBody.live).1 hStatement
    exact ⟨same, hSame, .clause hClause hSameClause rfl⟩

theorem Relocated.reads {command : Command} (h : Relocated tokens others)
    (hReads : Statement.Reads tokens command rest) :
    ∃ same left, Statement.Reads others same left ∧ Corresponding Eq command same ∧
      Relocated rest left := by
  cases hReads with
  | blank hLine =>
    obtain ⟨other, left, rfl, hOther, -, hLeft⟩ := h.cons_inv
    exact ⟨_, left, .blank (hOther.trans hLine), .blank, hLeft⟩
  | endInclude hFile =>
    obtain ⟨other, left, rfl, hOther, -, hLeft⟩ := h.cons_inv
    exact ⟨_, left, .endInclude (hOther.trans hFile), .endInclude, hLeft⟩
  | label hName hColon =>
    obtain ⟨other, after, rfl, hOther, -, hAfter⟩ := h.cons_inv
    obtain ⟨colon, left, rfl, hSecond, -, hLeft⟩ := hAfter.cons_inv
    exact ⟨_, left, .label (hOther.trans hName) (hSecond.trans hColon), .clause rfl rfl rfl, hLeft⟩
  | statement hBody hEnds =>
    obtain ⟨line, last, rfl, hLine, hTail⟩ := h.append_inv
    obtain ⟨other, first, rfl, hOther, -, hFirst⟩ := hLine.cons_inv
    obtain ⟨left, hLeftEnds, hLeft⟩ := hTail.ends hEnds
    obtain ⟨same, hSame, hCorresponding⟩ := Relocated.body hOther hFirst hBody
    exact ⟨same, left, .statement hSame hLeftEnds, hCorresponding, hLeft⟩

theorem relocated_simulation : Simulation Relocated (fun _ => True) Eq where
  done h := List.map_eq_nil_iff.1 h.1
  read h hReads _ := h.reads hReads
  brought hFiles h := by
    refine ⟨?_, List.forall_mem_append.2 ⟨hFiles.live, h.2⟩⟩
    rw [List.map_append, List.map_append, h.1]

end

section
variable {surroundings : Surroundings} {tokens others : List Token} {openFiles last : List Spot}
  {clauses : List Clause}

theorem Relocated.unfolds (h : Relocated tokens others)
    (hUnfolds : Unfolds surroundings tokens openFiles clauses last) :
    Unfolds surroundings others openFiles clauses last := by
  obtain ⟨statements, hTrace, rfl⟩ := hUnfolds
  obtain ⟨more, hMore, hSame⟩ := relocated_simulation.trace hTrace h fun _ _ => trivial
  rw [List.forall₂_eq_eq_eq] at hSame
  exact ⟨more, hMore, hSame.symm⟩

end

/-! ## Texts -/

/-- Tokens of a file with some lexemes, wherever in it they stand. -/
def tokensOf (file : String) (words : List Lexeme) : List Token :=
  words.map fun word => ⟨word, ⟨file, 1, 1⟩⟩

section
variable {file : String} {words : List Lexeme}

theorem tokensOf_append (file : String) (words more : List Lexeme) :
    tokensOf file (words ++ more) = tokensOf file words ++ tokensOf file more :=
  List.map_append

theorem lexemes_tokensOf (file : String) (words : List Lexeme) :
    lexemes (tokensOf file words) = words := by
  rw [lexemes, tokensOf, List.map_map]
  exact List.map_id words

theorem relocated_tokensOf {text : String} {tokens : List Token}
    (h : scan text file = .ok tokens) : Relocated tokens (tokensOf file (lexemes tokens)) := by
  refine ⟨?_, fun token hMem => .inl (scan_scanned h token hMem)⟩
  rw [tokensOf, lexemes, List.map_map, List.map_map]
  refine List.map_congr_left ?_
  intro token hMem
  simp [essence, scan_file h token hMem]

theorem scanned_of_lexemesFrom {text : List Char} (h : Scan.lexemesFrom true text = some words) :
    ∀ word ∈ words, word.Scanned := by
  have hText : Scan.lexemesFrom true (String.ofList text).toList = some words := by
    rw [String.toList_ofList]
    exact h
  obtain ⟨tokens, hScan, rfl⟩ := (scan_lexemes_iff "").2 hText
  intro word hMem
  obtain ⟨token, hToken, rfl⟩ := List.mem_map.1 hMem
  exact scan_scanned hScan token hToken

theorem live_tokensOf (h : ∀ word ∈ words, word.Scanned) :
    ∀ token ∈ tokensOf file words, token.lexeme.Scanned := by
  intro token hMem
  obtain ⟨word, hWord, rfl⟩ := List.mem_map.1 hMem
  exact h word hWord

theorem marks_tokensOf (h : ∀ word ∈ words, word.Scanned) :
    Statement.marks (tokensOf file words) = [] := by
  apply List.filterMap_eq_nil_iff.2
  intro token hMem
  have hScanned := live_tokensOf h token hMem
  unfold Statement.fileMark?
  split
  · next hMark =>
    rw [hMark] at hScanned
    exact hScanned.elim
  · rfl

end

/-- A text of a file unfolds as its tokens do, wherever they stand. -/
def UnfoldsText (surroundings : Surroundings) (file : String) (text : List Char)
    (openFiles : List Spot) (clauses : List Clause) (others : List Spot) : Prop :=
  ∃ words, Scan.lexemesFrom true text = some words ∧
    Unfolds surroundings (tokensOf file words) openFiles clauses others

section
variable {surroundings : Surroundings} {file : String} {text : List Char}
  {openFiles others : List Spot} {clauses : List Clause}

/-- A text closes the files that it opens. -/
theorem UnfoldsText.closed (h : UnfoldsText surroundings file text openFiles clauses others)
    (hDistinct : openFiles.Nodup) : others = openFiles := by
  obtain ⟨words, hWords, statements, hTrace, -⟩ := h
  have hNested : Nested openFiles openFiles (tokensOf file words) :=
    ⟨hDistinct, [], (List.append_nil _).symm, marks_tokensOf (scanned_of_lexemesFrom hWords)⟩
  exact hTrace.nested hNested

theorem cut_tokensOf (h : Scan.WholeLines text) {words : List Lexeme}
    (hWords : Scan.lexemesFrom true text = some words) (rest : List Token) :
    Statement.Cut (tokensOf file words) rest := by
  refine .inl ?_
  intro token hMem
  rw [tokensOf, List.getLast?_map] at hMem
  obtain ⟨word, hWord, rfl⟩ := Option.map_eq_some_iff.1 hMem
  rw [h.getLast?_eq hWords word hWord]
  rfl

/-- Whole lines unfold on their own, and leave the open files as they were. -/
theorem unfoldsText_append_iff (h : Scan.WholeLines text) (hDistinct : openFiles.Nodup)
    (rest : List Char) :
    UnfoldsText surroundings file (text ++ rest) openFiles clauses others ↔
      ∃ first more, UnfoldsText surroundings file text openFiles first openFiles ∧
        UnfoldsText surroundings file rest openFiles more others ∧ clauses = first ++ more := by
  constructor
  · rintro ⟨all, hAll, hUnfolds⟩
    rw [h.lexemesFrom_append] at hAll
    obtain ⟨words, hWords, hMap⟩ := Option.bind_eq_some_iff.1 hAll
    obtain ⟨more, hMore, rfl⟩ := Option.map_eq_some_iff.1 hMap
    rw [tokensOf_append, unfolds_append_iff (cut_tokensOf h hWords _)] at hUnfolds
    obtain ⟨first, last, middle, hFirst, hLast, rfl⟩ := hUnfolds
    have hText : UnfoldsText surroundings file text openFiles first middle :=
      ⟨words, hWords, hFirst⟩
    obtain rfl := hText.closed hDistinct
    exact ⟨first, last, hText, ⟨more, hMore, hLast⟩, rfl⟩
  · rintro ⟨first, last, ⟨words, hWords, hFirst⟩, ⟨more, hMore, hLast⟩, rfl⟩
    refine ⟨words ++ more, by rw [h.lexemesFrom_append, hWords, hMore]; rfl, ?_⟩
    rw [tokensOf_append, unfolds_append_iff (cut_tokensOf h hWords _)]
    exact ⟨first, last, openFiles, hFirst, hLast, rfl⟩

/-- A last line end makes no difference to what a text unfolds into, also where its last statement
includes a file. -/
theorem unfoldsText_lineEnd_iff :
    UnfoldsText surroundings file (text ++ ['\n']) openFiles clauses others ↔
      UnfoldsText surroundings file text openFiles clauses others := by
  have hEnd (words : List Lexeme) :
      Unfolds surroundings (tokensOf file (words ++ Scan.lineEnd true words)) openFiles clauses
          others ↔
        Unfolds surroundings (tokensOf file words) openFiles clauses others := by
    unfold Scan.lineEnd
    split
    · rw [List.append_nil]
    · rw [tokensOf_append]
      exact ⟨fun h => h.restrict_newline rfl, fun h => h.extend_newline rfl⟩
  unfold UnfoldsText
  rw [Scan.lexemesFrom_concat]
  constructor
  · rintro ⟨_, hMap, hUnfolds⟩
    obtain ⟨words, hWords, rfl⟩ := Option.map_eq_some_iff.1 hMap
    exact ⟨words, hWords, (hEnd words).1 hUnfolds⟩
  · rintro ⟨words, hWords, hUnfolds⟩
    exact ⟨_, by rw [hWords]; rfl, (hEnd words).2 hUnfolds⟩

theorem yields_assembleText_iff {text : String} {defines : NameMap Int} {chunk : ChunkSize}
    {code : Bytes} {table : List Definition} :
    Yields (assembleText surroundings text file defines) chunk code table ↔
      ∃ tokens, scan text file = .ok tokens ∧
        Yields (Assembly.assemble surroundings ⟨tokens, file, some text.toList, defines⟩) chunk code
          table := by
  unfold assembleText
  split
  · next diagnostic hScan => simp [hScan, Yields]
  · next tokens hScan => simp [hScan]

/-- What a text assembles to depends on what it unfolds into only. -/
theorem yields_text_iff {text : String} {defines : NameMap Int} {chunk : ChunkSize} {code : Bytes}
    {table : List Definition} :
    Yields (assembleText surroundings text file defines) chunk code table ↔
      ∃ spots clauses others, Assembly.initiallyOpen surroundings file = .ok spots ∧
        (∃ symbols, Assembly.predefine .empty defines.entries = .ok symbols) ∧
        UnfoldsText surroundings file text.toList spots clauses others ∧
        Output defines.entries clauses code table := by
  rw [yields_assembleText_iff]
  constructor
  · rintro ⟨tokens, hScan, hYields⟩
    have hSame := relocated_tokensOf hScan
    obtain ⟨first, statements, others, hStart, hTrace, hOutput⟩ := (yields_iff hSame.2).1 hYields
    obtain ⟨hOpen, hSymbols⟩ := start_ok_iff.1 ⟨first, hStart, rfl⟩
    have hWords := (scan_lexemes_iff file).1 ⟨tokens, hScan, rfl⟩
    exact ⟨first.openFiles, clausesOf statements, others, hOpen, hSymbols,
      ⟨lexemes tokens, hWords, hSame.unfolds ⟨statements, hTrace, rfl⟩⟩, hOutput⟩
  · rintro ⟨spots, clauses, others, hOpen, hSymbols, ⟨words, hWords, hUnfolds⟩, hOutput⟩
    obtain ⟨tokens, hScan, rfl⟩ := (scan_lexemes_iff file).2 hWords
    have hSame := relocated_tokensOf hScan
    obtain ⟨statements, hTrace, rfl⟩ := hSame.symm.unfolds hUnfolds
    let source : Source := ⟨tokens, file, some text.toList, defines⟩
    obtain ⟨first, hStart, rfl⟩ : ∃ first, Assembly.start surroundings source = .ok first ∧
        first.openFiles = spots := start_ok_iff.2 ⟨hOpen, hSymbols⟩
    exact ⟨tokens, hScan,
      (yields_iff hSame.2).2 ⟨first, statements, others, hStart, hTrace, hOutput⟩⟩

end

/-! ## The directive -/

/-- The line that includes a file. -/
def useLine (name : String) : String := ".use \"" ++ name ++ "\"\n"

/-- The lexemes of the line that includes a file. -/
def useWords (name : String) : List Lexeme := [.directive ".use", .string name, .newline]

theorem readString_quoted {name : List Char} (hQuote : '"' ∉ name) (hLine : '\n' ∉ name)
    (rest : List Char) :
    Scan.readString (name ++ '"' :: rest) =
      .ok (.string (String.ofList name), name.length + 1) := by
  have hBody : (name ++ '"' :: rest).takeWhile (fun c => c != '"' && c != '\n') = name := by
    rw [List.takeWhile_append_of_pos]
    · simp
    · intro c hc
      have hNotQuote : c ≠ '"' := fun h => hQuote (h ▸ hc)
      have hNotLine : c ≠ '\n' := fun h => hLine (h ▸ hc)
      simp [hNotQuote, hNotLine]
  simp only [Scan.readString, hBody, List.drop_left, List.head?_cons, if_true]

theorem lexemesFrom_useLine {name : String} (hQuote : '"' ∉ name.toList)
    (hLine : '\n' ∉ name.toList) :
    Scan.lexemesFrom true (useLine name).toList = some (useWords name) := by
  let quoted := name.toList ++ ['"']
  have hText : (useLine name).toList = ('.' :: "use \"".toList ++ quoted) ++ '\n' :: [] := by
    simp [useLine, quoted]
  have hDirective : Scan.readLexeme '.' ("use \"".toList ++ quoted) = .ok (.directive ".use", 3) :=
    rfl
  have hString : Scan.readLexeme '"' quoted = .ok (.string name, quoted.length) := by
    have hName : Scan.readLexeme '"' quoted = _ := readString_quoted hQuote hLine []
    rw [hName, String.ofList_toList]
    simp [quoted]
  have hWords : Scan.lexemesFrom true ('.' :: "use \"".toList ++ quoted) =
      some [.directive ".use", .string name] :=
    calc Scan.lexemesFrom true ('.' :: "use \"".toList ++ quoted)
      _ = (Scan.lexemesFrom false (" \"".toList ++ quoted)).map (.directive ".use" :: ·) :=
        Scan.lexemesFrom_readLexeme rfl (by decide) (by decide) hDirective
      _ = (Scan.lexemesFrom false ('"' :: quoted)).map (.directive ".use" :: ·) := by
        have hSpace : Scan.isSpace ' ' = true := rfl
        rw [show " \"".toList ++ quoted = ' ' :: '"' :: quoted from rfl, Scan.lexemesFrom,
          if_pos hSpace]
      _ = ((Scan.lexemesFrom false []).map (.string name :: ·)).map (.directive ".use" :: ·) := by
        rw [Scan.lexemesFrom_readLexeme rfl (by decide) (by decide) hString, List.drop_length]
        rfl
      _ = some [.directive ".use", .string name] := by
        rw [Scan.lexemesFrom]
        rfl
  rw [hText, Scan.lexemesFrom_concat, hWords]
  rfl

section
variable {surroundings : Surroundings} {file name : String} {path : Path} {spot : Spot}
  {included : List Token} {openFiles others : List Spot} {clauses : List Clause}

/-- A mark closes the file on top and adds nothing. -/
theorem unfolds_mark_iff (place : String) (included : List Token) (hClosed : spot ∉ openFiles) :
    Unfolds surroundings [State.closingMark spot place included] (openFiles ++ [spot]) clauses
        others ↔ clauses = [] ∧ others = openFiles := by
  have hRead : Statement.read (State.closingMark spot place included) [] =
      .ok (⟨(State.closingMark spot place included).location, .endInclude (.spot spot)⟩, []) :=
    Statement.read_ok_iff.2 ⟨rfl, .endInclude rfl⟩
  have hFiles : FileEffect surroundings (openFiles ++ [spot]) (.endInclude (.spot spot)) []
      openFiles := by
    have hErased : FileEffect surroundings (openFiles ++ [spot]) (.endInclude (.spot spot)) [] _ :=
      .endInclude (find?_closes_concat hClosed)
    rw [erase_concat hClosed] at hErased
    exact hErased
  rw [unfolds_cons_iff hRead hFiles, List.append_nil]
  simp only [unfolds_nil_iff, ofCommand, List.nil_append]
  constructor
  · rintro ⟨more, ⟨rfl, rfl⟩, rfl⟩
    exact ⟨rfl, rfl⟩
  · rintro ⟨rfl, rfl⟩
    exact ⟨[], ⟨rfl, rfl⟩, rfl⟩

theorem read_useWords (file name : String) :
    ∃ token tokens statement, tokensOf file (useWords name) = token :: tokens ∧
      Statement.read token tokens = .ok (statement, []) ∧
      statement.command = .use name ⟨file, 1, 1⟩ := by
  let place : Location := ⟨file, 1, 1⟩
  have hReads : Statement.Reads ([⟨.directive ".use", place⟩, ⟨.string name, place⟩] ++
      [⟨.newline, place⟩]) (.use name place) [] :=
    .statement (@Statement.UseBody.intro ⟨.string name, place⟩ (.text name) rfl) (.line rfl)
  exact ⟨⟨.directive ".use", place⟩, [⟨.string name, place⟩, ⟨.newline, place⟩], ⟨place, _⟩, rfl,
    Statement.read_ok_iff.2 ⟨rfl, hReads⟩, rfl⟩

/-- The directive unfolds into the clauses of the file, if this has tokens. -/
theorem unfolds_use_iff {text : List Char}
    (hFind : surroundings.find file name = .found path spot) (hClosed : spot ∉ openFiles)
    (hText : surroundings.readText path = .ok (text.map .char))
    (hPlain : ∀ included, scan (String.ofList text) path.text = .ok included →
      ∀ token ∈ included, Plain token) :
    Unfolds surroundings (tokensOf file (useWords name)) openFiles clauses others ↔
      ∃ included, scan (String.ofList text) path.text = .ok included ∧
        clauses? (lexemes included) = some clauses ∧ others = openFiles := by
  obtain ⟨token, tokens, statement, hTokens, hRead, hCommand⟩ := read_useWords file name
  cases hScan : scan (String.ofList text) path.text with
  | error diagnostic =>
    refine ⟨?_, nofun⟩
    rw [hTokens]
    rintro ⟨statements, hTrace, -⟩
    cases hTrace with
    | step hRead' hFiles _ =>
      rw [hRead] at hRead'
      cases hRead'
      rw [hCommand] at hFiles
      cases hFiles with
      | none hUse _ => exact absurd rfl (hUse _ _)
      | use hFind' _ hText' hScan' =>
        rw [hFind] at hFind'
        cases hFind'
        rw [hText] at hText'
        cases hText'
        rw [scanText_chars, hScan] at hScan'
        cases hScan'
  | ok included =>
    have hFiles : FileEffect surroundings openFiles (.use name ⟨file, 1, 1⟩) _ _ :=
      .use hFind hClosed hText ((scanText_chars text path.text).trans hScan)
    rw [← hCommand] at hFiles
    have hCut : Statement.Cut included [State.closingMark spot path.text included] := by
      refine .inr ?_
      rintro _ ⟨⟩
      rfl
    rw [hTokens, unfolds_cons_iff hRead hFiles, hCommand, List.append_nil]
    simp only [unfolds_append_iff hCut, unfolds_plain_iff (hPlain included hScan), ofCommand,
      List.nil_append]
    constructor
    · rintro ⟨_, ⟨first, more, _, ⟨hFirst, rfl⟩, hMark, rfl⟩, rfl⟩
      obtain ⟨rfl, rfl⟩ := (unfolds_mark_iff _ _ hClosed).1 hMark
      exact ⟨included, rfl, by rw [List.append_nil]; exact hFirst, rfl⟩
    · rintro ⟨_, ⟨⟩, hClauses, rfl⟩
      have hMark : Unfolds surroundings _ _ [] others :=
        (unfolds_mark_iff path.text included hClosed).2 ⟨rfl, rfl⟩
      exact ⟨_, ⟨clauses, [], _, ⟨hClauses, rfl⟩, hMark, (List.append_nil _).symm⟩, rfl⟩

/-- The line that includes a file unfolds as the text of the file does. -/
theorem unfoldsText_use_iff {text : List Char} (hQuote : '"' ∉ name.toList)
    (hLine : '\n' ∉ name.toList) (hFind : surroundings.find file name = .found path spot)
    (hClosed : spot ∉ openFiles) (hText : surroundings.readText path = .ok (text.map .char))
    (hPlain : ∀ included, scan (String.ofList text) path.text = .ok included →
      ∀ token ∈ included, token.lexeme ≠ .directive ".use") :
    UnfoldsText surroundings file (useLine name).toList openFiles clauses others ↔
      UnfoldsText surroundings file (text ++ ['\n']) openFiles clauses others := by
  have hPlain (included : List Token) (hScan : scan (String.ofList text) path.text = .ok included) :
      ∀ token ∈ included, Plain token :=
    fun token hMem => ⟨scan_scanned hScan token hMem, hPlain included hScan token hMem⟩
  have hUse : UnfoldsText surroundings file (useLine name).toList openFiles clauses others ↔
      Unfolds surroundings (tokensOf file (useWords name)) openFiles clauses others := by
    simp [UnfoldsText, lexemesFrom_useLine hQuote hLine]
  have hWords {words : List Lexeme} :
      (∃ included, scan (String.ofList text) path.text = .ok included ∧ lexemes included = words) ↔
        Scan.lexemesFrom true text = some words := by
    rw [← String.toList_ofList (l := text), String.ofList_toList]
    exact scan_lexemes_iff path.text
  -- the words of the file are plain wherever they stand
  have hLines (included : List Token)
      (hScan : scan (String.ofList text) path.text = .ok included) :
      Unfolds surroundings (tokensOf file (lexemes included)) openFiles clauses others ↔
        clauses? (lexemes included) = some clauses ∧ others = openFiles := by
    have hTokens : ∀ token ∈ tokensOf file (lexemes included), Plain token := by
      intro token hMem
      obtain ⟨word, hWord, rfl⟩ := List.mem_map.1 hMem
      obtain ⟨token, hToken, rfl⟩ := List.mem_map.1 hWord
      exact hPlain included hScan token hToken
    rw [unfolds_plain_iff hTokens, lexemes_tokensOf]
  rw [hUse, unfolds_use_iff hFind hClosed hText hPlain, unfoldsText_lineEnd_iff]
  constructor
  · rintro ⟨included, hScan, hClauses⟩
    exact ⟨_, hWords.1 ⟨included, hScan, rfl⟩, (hLines included hScan).2 hClauses⟩
  · rintro ⟨_, hText, hUnfolds⟩
    obtain ⟨included, hScan, rfl⟩ := hWords.2 hText
    exact ⟨included, hScan, (hLines included hScan).1 hUnfolds⟩

end

section
variable {surroundings : Surroundings} {file name before after : String} {path : Path} {spot : Spot}
  {text : List Char} {defines : NameMap Int}

/-- A program that includes a file assembles exactly when the program with the text of the file in
place of the line does, and to the same bytes and the same symbols. -/
theorem include_iff_text (hBefore : Scan.WholeLines before.toList) (hQuote : '"' ∉ name.toList)
    (hLine : '\n' ∉ name.toList) (hFind : surroundings.find file name = .found path spot)
    (hClosed : ∀ spots, Assembly.initiallyOpen surroundings file = .ok spots → spot ∉ spots)
    (hText : surroundings.readText path = .ok (text.map .char))
    (hPlain : ∀ included, scan (String.ofList text) path.text = .ok included →
      ∀ token ∈ included, token.lexeme ≠ .directive ".use")
    (chunk : ChunkSize) (code : Bytes) (table : List Definition) :
    Yields (assembleText surroundings (before ++ useLine name ++ after) file defines) chunk code
        table ↔
      Yields (assembleText surroundings (before ++ String.ofList text ++ "\n" ++ after) file
        defines) chunk code table := by
  have hUse : (before ++ useLine name ++ after).toList =
      before.toList ++ ((useLine name).toList ++ after.toList) := by
    simp
  have hWhole : (before ++ String.ofList text ++ "\n" ++ after).toList =
      before.toList ++ ((text ++ ['\n']) ++ after.toList) := by
    simp
  have hUseLines : Scan.WholeLines (useLine name).toList := by
    have hLast : (useLine name).toList = (".use \"" ++ name ++ "\"").toList ++ ['\n'] := by
      simp [useLine]
    rw [hLast]
    exact Scan.wholeLines_concat _
  rw [yields_text_iff, yields_text_iff, hUse, hWhole]
  refine exists_congr fun spots => exists_congr fun clauses => exists_congr fun others => ?_
  refine and_congr_right fun hOpen => and_congr_right fun _ => and_congr_left fun _ => ?_
  have hDistinct := Assembly.initiallyOpen_nodup hOpen
  simp only [unfoldsText_append_iff hBefore hDistinct, unfoldsText_append_iff hUseLines hDistinct,
    unfoldsText_append_iff (Scan.wholeLines_concat text) hDistinct,
    unfoldsText_use_iff hQuote hLine hFind (hClosed spots hOpen) hText hPlain]

/-- The file has no line end after its last statement, and what follows includes another one. -/
theorem include_iff_text_unfinished :
    let surroundings :=
      Assembly.workingDirectory [("lib", "start: nop ; here"), ("last", "jp start")]
    let included := String.ofList "start: nop ; here".toList
    Yields (assembleText surroundings (".org 2\n" ++ useLine "lib" ++ ".use \"last\"") "<input>"
        .empty) .standard [0, 0, 0, 0xC3, 2, 0] [⟨"start", 2, false⟩] ∧
      Yields (assembleText surroundings (".org 2\n" ++ included ++ "\n" ++ ".use \"last\"") "<input>"
        .empty) .standard [0, 0, 0, 0xC3, 2, 0] [⟨"start", 2, false⟩] := by
  intro surroundings included
  have hUse : Yields (assembleText surroundings (".org 2\n" ++ useLine "lib" ++ ".use \"last\"")
      "<input>" .empty) .standard [0, 0, 0, 0xC3, 2, 0] [⟨"start", 2, false⟩] := by decide +kernel
  have hBefore : Scan.WholeLines ".org 2\n".toList := .inr rfl
  have hFind : surroundings.find "<input>" "lib" =
      .found ⟨"", ["lib"]⟩ ⟨["work", "lib"]⟩ := by decide +kernel
  have hClosed : ∀ spots, Assembly.initiallyOpen surroundings "<input>" = .ok spots →
      ⟨["work", "lib"]⟩ ∉ spots := by
    intro spots hOpen
    cases hOpen
    exact List.not_mem_nil
  have hText : surroundings.readText ⟨"", ["lib"]⟩ =
      .ok ("start: nop ; here".toList.map .char) := by
    decide +kernel
  have hAll : ((scan included "lib").toOption.map fun tokens =>
      tokens.all fun token => decide (token.lexeme ≠ .directive ".use")) = some true := by
    decide +kernel
  have hPlain : ∀ tokens, scan included "lib" = .ok tokens →
      ∀ token ∈ tokens, token.lexeme ≠ .directive ".use" := by
    intro tokens hScan token hMem
    rw [hScan] at hAll
    exact of_decide_eq_true (List.all_eq_true.1 (Option.some.inj hAll) token hMem)
  refine ⟨hUse, ?_⟩
  exact (include_iff_text hBefore (by decide) (by decide) hFind hClosed hText hPlain .standard
    _ _).1 hUse

end

end Lr35902.TwoPass
