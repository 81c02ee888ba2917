import Lr35902.Proofs.Listing.Spelling
import Lr35902.Proofs.TwoPass.FormChoice

/-!
Listings assemble. A listing prints statements one to a line: any form of the processor with legal
operands, bytes, filling, or a string (`text`). What it stands for is said byte by byte, each
statement from its own address on (`image`). Every listing is scanned, parsed and encoded to just
these bytes, whatever notation each number is printed in (`generate_text`). On the way each line
spells its lexemes (`Line.Legal.spells`), these make up one clause (`Line.Legal.line?_words`), and
the clause has the bytes of the line (`Line.Legal.encode?_clause`).
-/
namespace Lr35902.Listing

open Scan (Spells)
open TwoPass

/-! ## Statements and their texts -/

/-- An operand as it is printed. The carry condition may be printed as `c`, for which `carry`
stands. -/
inductive Argument where
  | register (r : Register)
  | pair (p : Pair)
  | condition (k : Condition)
  | carry
  | highC
  | through (p : Pair)
  | number (numeral : Numeral)
  | address (numeral : Numeral)
  deriving DecidableEq

def Argument.text : Argument → String
  | .register r => r.name
  | .pair p => p.name
  | .condition k => k.name
  | .carry => Register.c.name
  | .highC => "(" ++ Register.c.name ++ ")"
  | .through p => "(" ++ p.name ++ ")"
  | .number numeral => numeral.text
  | .address numeral => "(" ++ numeral.text ++ ")"

/-- A statement that fills a line. -/
inductive Line where
  | instruction (form : Form) (arguments : List Argument)
  | bytes (values : List Numeral)
  | fill (count value : Numeral)
  | utf8 (text : String)
  deriving DecidableEq

def Line.text : Line → String
  | .instruction form arguments => Form.text form.mnemonic.name (arguments.map Argument.text)
  | .bytes values => Form.text ".byte" (values.map Numeral.text)
  | .fill count value => Form.text ".fill" [count.text, value.text]
  | .utf8 text => Form.text ".utf8" ["\"" ++ text ++ "\""]

/-- Statements one to a line. -/
def text : List Line → String
  | [] => ""
  | line :: rest => line.text ++ "\n" ++ text rest

/-! ## What they stand for -/

/-- An operand is legal for a class, in an instruction that ends at `next`. A high-page address is
printed as its offset or whole. -/
inductive Fits (next : Nat) : OperandClass → Argument → Prop
  | register (r : Register) : Fits next (.register r) (.register r)
  | pair (p : Pair) : Fits next (.pair p) (.pair p)
  | condition (k : Condition) : Fits next (.condition k) (.condition k)
  | carry : Fits next (.condition .cr) .carry
  | highC : Fits next .highC .highC
  | through (p : Pair) : Fits next (.through p) (.through p)
  | byte {numeral : Numeral} : numeral.value ≤ 0xFF → Fits next .byte (.number numeral)
  | word {numeral : Numeral} : numeral.value ≤ 0xFFFF → Fits next .word (.number numeral)
  | memory {numeral : Numeral} : numeral.value ≤ 0xFFFF → Fits next .memory (.address numeral)
  | offset {numeral : Numeral} : numeral.value ≤ 0xFF → Fits next .high (.address numeral)
  | highPage {numeral : Numeral} : 0xFF00 ≤ numeral.value → numeral.value ≤ 0xFFFF →
    Fits next .high (.address numeral)
  | relative {numeral : Numeral} : numeral.value ≤ 0xFFFF → -128 ≤ (numeral.value : Int) - next →
    (numeral.value : Int) - next ≤ 127 → Fits next .relative (.number numeral)
  | bit {i : Fin 8} {numeral : Numeral} : numeral.value = i.val →
    Fits next (.bit i) (.number numeral)
  | vector {i : Fin 8} {numeral : Numeral} : numeral.value = 8 * i.val →
    Fits next (.vector i) (.number numeral)

def Argument.value : Argument → Nat
  | .number numeral | .address numeral => numeral.value
  | _ => 0

/-- The bytes of an operand after the opcode, the low one first. -/
def payload (next : Nat) (cls : OperandClass) (argument : Argument) : Bytes :=
  match cls with
  | .byte => [argument.value.toUInt8]
  | .word | .memory => [(argument.value % 256).toUInt8, (argument.value / 256).toUInt8]
  | .high => [(argument.value % 256).toUInt8]
  | .relative => [(((argument.value : Int) - next) % 256).toNat.toUInt8]
  | _ => []

/-- A statement is legal at an address. -/
def Line.Legal (address : Nat) : Line → Prop
  | .instruction form arguments =>
    form ∈ Form.table ∧ List.Forall₂ (Fits (address + form.size)) form.operands arguments
  | .bytes values => values ≠ [] ∧ ∀ numeral ∈ values, numeral.value ≤ 0xFF
  | .fill count value => count.value ≤ 0xFFFF ∧ value.value ≤ 0xFF
  | .utf8 text => '"' ∉ text.toList ∧ '\n' ∉ text.toList

/-- The bytes of a statement at an address. -/
def Line.code (address : Nat) : Line → Bytes
  | .instruction form arguments =>
    form.opcode ++ (List.zipWith (payload (address + form.size)) form.operands arguments).flatten
  | .bytes values => values.map fun numeral => numeral.value.toUInt8
  | .fill count value => List.replicate count.value value.value.toUInt8
  | .utf8 text => text.toList.flatMap String.utf8EncodeChar

/-- Statements that are legal one after the other, the first at a given address. -/
def Legal : Nat → List Line → Prop
  | _, [] => True
  | address, line :: rest => line.Legal address ∧ Legal (address + (line.code address).length) rest

/-- The bytes of statements one after the other, the first at a given address. -/
def image : Nat → List Line → Bytes
  | _, [] => []
  | address, line :: rest =>
    line.code address ++ image (address + (line.code address).length) rest

/-! ## Lexemes and clauses of a line -/

def parenthesised (word : Lexeme) : List Lexeme :=
  [Delimiter.leftParen.lexeme, word, Delimiter.rightParen.lexeme]

def Argument.words : Argument → List Lexeme
  | .register r => [.register r.name]
  | .pair p => [.pair p.name]
  | .condition k => [.flag k.name]
  | .carry => [.register "c"]
  | .highC => parenthesised (.register "c")
  | .through p => parenthesised (.pair p.name)
  | .number numeral => [.number numeral.value]
  | .address numeral => parenthesised (.number numeral.value)

def Argument.written : Argument → Written
  | .register r => .register r.name
  | .pair p => .pair p.name
  | .condition k => .flag k.name
  | .carry => .register "c"
  | .highC => .indirect "c"
  | .through p => .indirectPair p.name
  | .number numeral => .number numeral.value
  | .address numeral => .address numeral.value

/-- A word with operands between commas. -/
def headed (head : Lexeme) (pieces : List (List Lexeme)) : List Lexeme :=
  head :: [Delimiter.comma.lexeme].intercalate pieces

def numberWords (numeral : Numeral) : List Lexeme := [.number numeral.value]

def Line.words : Line → List Lexeme
  | .instruction form arguments =>
    headed (.mnemonic form.mnemonic.name) (arguments.map Argument.words)
  | .bytes values => headed (.directive ".byte") (values.map numberWords)
  | .fill count value => headed (.directive ".fill") [numberWords count, numberWords value]
  | .utf8 text => headed (.directive ".utf8") [[.string text]]

def Line.clause : Line → Clause
  | .instruction form arguments => .instruction form (arguments.map Argument.written)
  | .bytes values => .data (values.map fun numeral => numeral.value.toUInt8)
  | .fill count value => .fill count.value value.value
  | .utf8 text => .data (text.toList.flatMap String.utf8EncodeChar)

/-- What an operand may consist of. -/
def isOperandWord : Lexeme → Bool
  | .register _ | .pair _ | .flag _ | .number _ | .string _ => true
  | .delimiter .leftParen _ | .delimiter .rightParen _ => true
  | _ => false

theorem isComma_of_isOperandWord {word : Lexeme} (h : isOperandWord word = true) :
    isComma word = false := by
  cases word with
  | delimiter mark spelling => cases mark <;> first | rfl | cases h
  | _ => rfl

/-! ## Operands -/

section
variable {next : Nat} {cls : OperandClass} {argument : Argument}

theorem Argument.words_ne_nil (argument : Argument) : argument.words ≠ [] := by
  cases argument <;> exact List.cons_ne_nil _ _

theorem Argument.isOperandWord_words (argument : Argument) :
    argument.words.all isOperandWord = true := by
  cases argument <;> rfl

theorem Argument.operand?_words (argument : Argument) :
    operand? argument.words = some argument.written := by
  cases argument <;> rfl

theorem spells_named {word : String} {lexeme : Lexeme}
    (h : Scan.isWordText word.toList = true ∧ Scan.classify word = lexeme)
    (hOther : (lexeme == .newline) = false) : Spells word.toList [lexeme] := by
  obtain ⟨hWord, rfl⟩ := h
  exact Scan.spells_word hWord hOther

theorem spells_register (r : Register) : Spells r.name.toList [.register r.name] := by
  have hAll : ∀ r : Register, Scan.isWordText r.name.toList = true ∧
      Scan.classify r.name = .register r.name := by
    intro r
    cases r <;> decide +kernel
  exact spells_named (hAll r) rfl

theorem spells_pair (p : Pair) : Spells p.name.toList [.pair p.name] := by
  have hAll : ∀ p : Pair, Scan.isWordText p.name.toList = true ∧
      Scan.classify p.name = .pair p.name := by
    intro p
    cases p <;> decide +kernel
  exact spells_named (hAll p) rfl

theorem spells_condition (k : Condition) : Spells k.name.toList [.flag k.name] := by
  have hAll : ∀ k : Condition, Scan.isWordText k.name.toList = true ∧
      Scan.classify k.name = .flag k.name := by
    intro k
    cases k <;> decide +kernel
  exact spells_named (hAll k) rfl

theorem spells_mnemonic (m : Mnemonic) : Spells m.name.toList [.mnemonic m.name] := by
  have hAll : ∀ m ∈ Mnemonic.all, Scan.isWordText m.name.toList = true ∧
      (Register.all.any fun r => r.name == m.name) = false ∧
      (Pair.all.any fun p => p.name == m.name) = false ∧ flagNames.contains m.name = false := by
    decide +kernel
  obtain ⟨hWord, hRegister, hPair, hFlag⟩ := hAll m (by cases m <;> decide)
  have hClass : Scan.classify m.name = .mnemonic m.name := by
    rw [Scan.classify, hRegister, hPair, hFlag, Mnemonic.ofName?_name]
    rfl
  exact spells_named ⟨hWord, hClass⟩ rfl

theorem spells_parenthesised {text : String} {word : Lexeme} (h : Spells text.toList [word]) :
    Spells ("(" ++ text ++ ")").toList (parenthesised word) := by
  rw [String.toList_append, String.toList_append]
  exact h.parenthesised

theorem spells_number {numeral : Numeral} {limit : Nat} (h : numeral.value ≤ limit)
    (hLimit : limit ≤ 0xFFFF) : Spells numeral.text.toList [.number numeral.value] :=
  Scan.spells_numeral (Nat.le_trans h hLimit)

theorem Fits.spells (h : Fits next cls argument) :
    Spells argument.text.toList argument.words := by
  cases h with
  | register r => exact spells_register r
  | pair p => exact spells_pair p
  | condition k => exact spells_condition k
  | carry => exact spells_register .c
  | highC => exact spells_parenthesised (spells_register .c)
  | through p => exact spells_parenthesised (spells_pair p)
  | byte hValue => exact spells_number hValue (by decide)
  | word hValue => exact spells_number hValue (by decide)
  | memory hValue => exact spells_parenthesised (spells_number hValue (by decide))
  | offset hValue => exact spells_parenthesised (spells_number hValue (by decide))
  | highPage _ hValue => exact spells_parenthesised (spells_number hValue (by decide))
  | relative hValue _ _ => exact spells_number hValue (by decide)
  | @bit i _ hValue => exact spells_number (Nat.le_of_eq hValue) (by omega)
  | @vector i _ hValue => exact spells_number (Nat.le_of_eq hValue) (by omega)

/-- What is legal for a class suits it. -/
theorem Fits.suits (h : Fits next cls argument) : suits cls argument.written = true := by
  cases h with
  | register | pair | condition | through => exact beq_self_eq_true _
  | carry | highC | word | memory | relative => rfl
  | byte hValue => exact decide_eq_true (by omega)
  | offset hValue => exact decide_eq_true (.inl (by omega))
  | highPage hValue _ => exact decide_eq_true (.inr (by omega))
  | bit hValue => exact beq_iff_eq.2 (by omega)
  | vector hValue => exact beq_iff_eq.2 (by omega)

theorem Fits.length_payload (h : Fits next cls argument) :
    (payload next cls argument).length = cls.size := by
  cases h <;> rfl

/-- The slot of a class takes the bytes of what is legal for it. -/
theorem Fits.part?_eq (h : Fits next cls argument) (table : List Definition) :
    part? table next cls argument.written = some (payload next cls argument) := by
  cases h with
  | register | pair | condition | carry | highC | through | bit | vector => rfl
  | word | memory => rfl
  | @byte numeral hValue =>
    have hSlot : (numeral.value : Int) ≤ 0xFF := by omega
    exact if_pos hSlot
  | @offset numeral hValue =>
    have hSlot : (numeral.value : Int) ≤ 0xFF := by omega
    have hLow : numeral.value % 256 = numeral.value := Nat.mod_eq_of_lt (by omega)
    simp only [payload, Argument.value, hLow]
    exact if_pos hSlot
  | @highPage numeral hLow hHigh =>
    have hWide : ¬(numeral.value : Int) ≤ 0xFF := by omega
    have hPage : 0xFF00 ≤ (numeral.value : Int) := by omega
    have hOffset : ((numeral.value : Int) - 0xFF00).toNat = numeral.value % 256 := by omega
    simp only [payload, Argument.value, ← hOffset]
    exact (if_neg hWide).trans (if_pos hPage)
  | @relative numeral _ hBack hAhead =>
    have hNear : -128 ≤ (numeral.value : Int) - next ∧ (numeral.value : Int) - next ≤ 127 :=
      ⟨hBack, hAhead⟩
    exact if_pos hNear

end

/-! ## Lines -/

section
variable {pieces : List (List Lexeme)}

/-- Between commas there are the pieces again. -/
theorem arguments_intercalate
    (h : ∀ piece ∈ pieces, piece ≠ [] ∧ piece.all isOperandWord = true) :
    arguments ([Delimiter.comma.lexeme].intercalate pieces) = pieces := by
  have hSplit (first : List Lexeme) (rest : List (List Lexeme))
      (hAll : ∀ piece ∈ first :: rest, ∀ word ∈ piece, isComma word = false) :
      ([Delimiter.comma.lexeme].intercalate (first :: rest)).splitOnP isComma = first :: rest := by
    induction rest generalizing first with
    | nil =>
      rw [List.intercalate_singleton]
      exact List.splitOnP_eq_singleton (hAll first List.mem_cons_self)
    | cons second rest ih =>
      obtain ⟨hFirst, hRest⟩ := List.forall_mem_cons.1 hAll
      rw [List.intercalate_cons_cons, List.append_assoc, List.singleton_append,
        List.splitOnP_append_cons_of_forall_mem hFirst _ rfl, ih second hRest]
  cases pieces with
  | nil => rfl
  | cons first rest =>
    have hSome : ([Delimiter.comma.lexeme].intercalate (first :: rest)).isEmpty = false := by
      obtain ⟨word, more, rfl⟩ := List.exists_cons_of_ne_nil (h first List.mem_cons_self).1
      cases rest with
      | nil => rfl
      | cons second rest => rfl
    rw [arguments, hSome]
    apply hSplit
    intro piece hPiece word hWord
    exact isComma_of_isOperandWord (List.all_eq_true.1 (h piece hPiece).2 word hWord)

/-- A word of a line is its head, a comma, or a word of an operand. -/
theorem mem_headed {head word : Lexeme} (h : ∀ piece ∈ pieces, piece.all isOperandWord = true)
    (hMem : word ∈ headed head pieces) :
    word = head ∨ word = Delimiter.comma.lexeme ∨ isOperandWord word = true := by
  rcases List.mem_cons.1 hMem with hHead | hInner
  · exact .inl hHead
  · right
    induction pieces with
    | nil => cases hInner
    | cons first rest ih =>
      obtain ⟨hFirst, hRest⟩ := List.forall_mem_cons.1 h
      cases rest with
      | nil =>
        rw [List.intercalate_singleton] at hInner
        exact .inr (List.all_eq_true.1 hFirst word hInner)
      | cons second rest =>
        rw [List.intercalate_cons_cons, List.append_assoc] at hInner
        rcases List.mem_append.1 hInner with hMem | hMem
        · exact .inr (List.all_eq_true.1 hFirst word hMem)
        · rcases List.mem_cons.1 hMem with hComma | hMem
          · exact .inl hComma
          · exact ih hRest (List.mem_cons_of_mem _ hMem) hMem

end

section
variable {address : Nat} {line : Line} {lines : List Line}

theorem numberWords_proper {values : List Numeral} :
    ∀ piece ∈ values.map numberWords, piece ≠ [] ∧ piece.all isOperandWord = true := by
  intro piece hMem
  obtain ⟨numeral, -, rfl⟩ := List.mem_map.1 hMem
  exact ⟨List.cons_ne_nil _ _, rfl⟩

theorem words_proper {arguments : List Argument} :
    ∀ piece ∈ arguments.map Argument.words, piece ≠ [] ∧ piece.all isOperandWord = true := by
  intro piece hMem
  obtain ⟨argument, -, rfl⟩ := List.mem_map.1 hMem
  exact ⟨argument.words_ne_nil, argument.isOperandWord_words⟩

/-- A line has neither a line end nor an inclusion in it. -/
theorem Line.mem_words {word : Lexeme} (h : word ∈ line.words) :
    isNewline word = false ∧ word ≠ .directive ".use" := by
  have hInner {head : Lexeme} {pieces : List (List Lexeme)}
      (hHead : isNewline head = false ∧ head ≠ .directive ".use")
      (hPieces : ∀ piece ∈ pieces, piece ≠ [] ∧ piece.all isOperandWord = true)
      (hMem : word ∈ headed head pieces) :
      isNewline word = false ∧ word ≠ .directive ".use" := by
    rcases mem_headed (fun piece hPiece => (hPieces piece hPiece).2) hMem with rfl | rfl | hWord
    · exact hHead
    · exact ⟨rfl, by decide⟩
    · cases word with
      | newline | directive => cases hWord
      | _ => exact ⟨rfl, by simp⟩
  cases line with
  | instruction form arguments => exact hInner ⟨rfl, by simp⟩ words_proper h
  | bytes values => exact hInner ⟨rfl, by decide⟩ numberWords_proper h
  | fill count value =>
    have hPieces : ∀ piece ∈ [count, value].map numberWords,
        piece ≠ [] ∧ piece.all isOperandWord = true := numberWords_proper
    exact hInner ⟨rfl, by decide⟩ hPieces h
  | utf8 text =>
    refine hInner ⟨rfl, by decide⟩ ?_ h
    intro piece hMem
    rw [List.mem_singleton.1 hMem]
    exact ⟨List.cons_ne_nil _ _, rfl⟩

theorem spells_numbers {values : List Numeral} {limit : Nat}
    (h : ∀ numeral ∈ values, numeral.value ≤ limit) (hLimit : limit ≤ 0xFFFF) :
    List.Forall₂ (fun text words => Spells text.toList words) (values.map Numeral.text)
      (values.map numberWords) := by
  rw [List.forall₂_map_left_iff, List.forall₂_map_right_iff, List.forall₂_same]
  intro numeral hMem
  exact spells_number (h numeral hMem) hLimit

theorem spells_arguments {next : Nat} {classes : List OperandClass} {arguments : List Argument}
    (h : List.Forall₂ (Fits next) classes arguments) :
    List.Forall₂ (fun text words => Spells text.toList words) (arguments.map Argument.text)
      (arguments.map Argument.words) := by
  induction h with
  | nil => exact .nil
  | cons hFits _ ih => exact .cons hFits.spells ih

/-- A legal line spells its lexemes. -/
theorem Line.Legal.spells (h : line.Legal address) : Spells line.text.toList line.words := by
  cases line with
  | instruction form arguments =>
    apply Scan.spells_formText (spells_mnemonic form.mnemonic)
    exact spells_arguments h.2
  | bytes values =>
    exact Scan.spells_formText (Scan.spells_directive rfl rfl) (spells_numbers h.2 (by decide))
  | fill count value =>
    have hValues : ∀ numeral ∈ [count, value], numeral.value ≤ 0xFFFF := by
      have hValue := h.2
      simp only [List.mem_cons, List.not_mem_nil, or_false, forall_eq_or_imp, forall_eq]
      exact ⟨h.1, by omega⟩
    exact Scan.spells_formText (Scan.spells_directive rfl rfl)
      (spells_numbers hValues (Nat.le_refl _))
  | utf8 text =>
    have hString : Spells ("\"" ++ text ++ "\"").toList [.string text] := by
      rw [String.toList_append, String.toList_append]
      simpa using Scan.spells_string h.1 h.2
    exact Scan.spells_formText (Scan.spells_directive rfl rfl) (.cons hString .nil)

/-- A line with a mnemonic or a directive at its head is one statement. -/
theorem line?_headed {head : Lexeme} {pieces : List (List Lexeme)} {clause : Clause}
    (hHead : (∃ name, head = .mnemonic name) ∨ ∃ name, head = .directive name)
    (hClause : statement? head ([Delimiter.comma.lexeme].intercalate pieces) = some clause) :
    line? (headed head pieces) = some [clause] := by
  unfold line? headed
  split
  · next hNil => cases hNil
  · next hLabel =>
    obtain ⟨hName, -⟩ := List.cons.inj hLabel
    rw [hName] at hHead
    simp at hHead
  · next hWords =>
    obtain ⟨rfl, rfl⟩ := List.cons.inj hWords
    rw [hClause]
    rfl

theorem mapM_operand?_words (arguments : List Argument) :
    (arguments.map Argument.words).mapM operand? = some (arguments.map Argument.written) := by
  rw [mapM_eq_some_iff, List.forall₂_map_left_iff, List.forall₂_map_right_iff, List.forall₂_same]
  exact fun argument _ => argument.operand?_words

theorem mapM_byteValue?_words {values : List Numeral}
    (h : ∀ numeral ∈ values, numeral.value ≤ 0xFF) :
    (values.map numberWords).mapM byteValue? =
      some (values.map fun numeral => (numeral.value : Int)) := by
  rw [mapM_eq_some_iff, List.forall₂_map_left_iff, List.forall₂_map_right_iff, List.forall₂_same]
  intro numeral hMem
  have hValue : (numeral.value : Int) ≤ 0xFF := by
    have hLimit := h numeral hMem
    omega
  exact if_pos hValue

/-- The lexemes of a legal line make up its clause. -/
theorem Line.Legal.line?_words (h : line.Legal address) :
    line? line.words = some [line.clause] := by
  cases line with
  | instruction form arguments =>
    apply line?_headed (.inl ⟨_, rfl⟩)
    have hForm : form? form.mnemonic.name (arguments.map Argument.written) = some form := by
      refine form?_eq_some_iff.2 ⟨h.1, rfl, ?_⟩
      rw [List.forall₂_map_right_iff]
      exact h.2.imp fun _ _ hFits => hFits.suits
    rw [statement?, instruction?, arguments_intercalate words_proper, mapM_operand?_words,
      Option.bind_eq_bind, Option.bind_some, hForm]
    rfl
  | bytes values =>
    apply line?_headed (.inr ⟨_, rfl⟩)
    have hBytes : statement? (.directive ".byte")
        ([Delimiter.comma.lexeme].intercalate (values.map numberWords)) = bytes? _ := rfl
    rw [hBytes, bytes?, arguments_intercalate numberWords_proper, mapM_byteValue?_words h.2]
    simp [h.1, Line.clause, Function.comp_def]
  | fill count value =>
    apply line?_headed (.inr ⟨_, rfl⟩)
    have hValue : (value.value : Int) ≤ 0xFF := by
      have hLimit := h.2
      omega
    exact if_pos hValue
  | utf8 text => exact line?_headed (.inr ⟨_, rfl⟩) rfl

theorem length_zipWith_payload {next : Nat} {classes : List OperandClass}
    {arguments : List Argument} (h : List.Forall₂ (Fits next) classes arguments) :
    (List.zipWith (payload next) classes arguments).flatten.length =
      OperandClass.payloadSize classes := by
  induction h with
  | nil => rfl
  | cons hFits _ ih =>
    rw [List.zipWith_cons_cons, List.flatten_cons, List.length_append, hFits.length_payload, ih]
    rfl

theorem Line.Legal.size_clause (h : line.Legal address) (place : Int) :
    line.clause.size place = (line.code address).length := by
  cases line with
  | instruction form arguments =>
    simp only [Line.clause, Clause.size, Line.code, List.length_append, length_zipWith_payload h.2]
    rfl
  | bytes values => rfl
  | fill count value => simp [Line.clause, Clause.size, Line.code]
  | utf8 text => rfl

theorem mapM_part? {next : Nat} {classes : List OperandClass} {arguments : List Argument}
    (h : List.Forall₂ (Fits next) classes arguments) (table : List Definition) :
    (classes.zip (arguments.map Argument.written)).mapM
        (fun pair => part? table next pair.1 pair.2) =
      some (List.zipWith (payload next) classes arguments) := by
  rw [mapM_eq_some_iff]
  induction h with
  | nil => exact .nil
  | cons hFits _ ih => exact .cons (hFits.part?_eq table) ih

/-- The clause of a legal line has the bytes of the line. -/
theorem Line.Legal.encode?_clause (h : line.Legal address) (table : List Definition) :
    line.clause.encode? table address = some (line.code address) := by
  cases line with
  | instruction form arguments =>
    have hParts := mapM_part? h.2 table
    rw [Int.natCast_add] at hParts
    simp only [Line.clause, Clause.encode?, hParts]
    rfl
  | bytes values => rfl
  | fill count value => rfl
  | utf8 text => rfl

/-! ## Listings -/

/-- The lexemes of a listing, each line ended. -/
def words (lines : List Line) : List Lexeme := lines.flatMap fun line => line.words ++ [.newline]

theorem words_cons (line : Line) (rest : List Line) :
    words (line :: rest) = line.words ++ .newline :: words rest := by
  simp [words]

theorem lexemesFrom_text (h : Legal address lines) :
    Scan.lexemesFrom true (text lines).toList = some (words lines) := by
  induction lines generalizing address with
  | nil =>
    have hText : (text []).toList = [] := rfl
    rw [hText, Scan.lexemesFrom]
    rfl
  | cons line rest ih =>
    obtain ⟨hLine, hRest⟩ := h
    have hText : (text (line :: rest)).toList = line.text.toList ++ '\n' :: (text rest).toList := by
      simp [text]
    have hBreak : Scan.lexemesFrom false ('\n' :: (text rest).toList) =
        (Scan.lexemesFrom true (text rest).toList).map (.newline :: ·) := by
      rw [Scan.lexemesFrom]
      rfl
    rw [hText, hLine.spells true _ (Scan.loose_cons rfl (by decide) _), hBreak, ih hRest,
      words_cons]
    rfl

theorem clauses?_words (h : Legal address lines) :
    clauses? (words lines) = some (lines.map Line.clause) := by
  induction lines generalizing address with
  | nil => rfl
  | cons line rest ih =>
    obtain ⟨hLine, hRest⟩ := h
    have hInner : ∀ word ∈ line.words, isNewline word = false := by
      intro word hMem
      exact (Line.mem_words hMem).1
    obtain ⟨others, hOthers, hFlat⟩ := Option.map_eq_some_iff.1 (ih hRest)
    rw [clauses?, words_cons, List.splitOnP_append_cons_of_forall_mem hInner _ rfl, List.mapM_cons,
      hLine.line?_words, hOthers]
    simp [hFlat]

theorem plain_words {file : String} (h : Legal address lines) :
    ∀ token ∈ tokensOf file (words lines), Plain token := by
  intro token hMem
  refine ⟨live_tokensOf (scanned_of_lexemesFrom (lexemesFrom_text h)) token hMem, ?_⟩
  obtain ⟨word, hWord, rfl⟩ := List.mem_map.1 hMem
  obtain ⟨line, -, hLine⟩ := List.mem_flatMap.1 hWord
  rcases List.mem_append.1 hLine with hInner | hBreak
  · exact (Line.mem_words hInner).2
  · rw [List.mem_singleton.1 hBreak]
    simp

/-- The clauses of a listing may stand where they come to stand, define nothing, and have the bytes
of the listing. -/
theorem Legal.addressed (h : Legal address lines)
    (hSize : address + (image address lines).length ≤ 0x10000) (table : List Definition) :
    (∀ place ∈ TwoPass.addressed address (lines.map Line.clause),
        place.2.admissible place.1 = true) ∧
      definedIn (TwoPass.addressed address (lines.map Line.clause)) = [] ∧
      ∃ parts, Encoded table (TwoPass.addressed address (lines.map Line.clause)) parts ∧
        image address lines = parts.flatten := by
  induction lines generalizing address with
  | nil => exact ⟨List.forall_mem_nil _, rfl, [], .nil, rfl⟩
  | cons line rest ih =>
    obtain ⟨hLine, hRest⟩ := h
    rw [image, List.length_append] at hSize
    obtain ⟨hAdmissible, hDefined, parts, hParts, hFlat⟩ := ih hRest (by omega)
    have hLength := hLine.size_clause address
    have hHere : line.clause.admissible address = true := by
      have hEnd : (address : Int) + line.clause.size address ≤ 0x10000 := by omega
      unfold Clause.admissible
      rw [decide_eq_true hEnd]
      cases line <;> rfl
    have hNone : line.clause.definition? address = none := by cases line <;> rfl
    have hPlaces : TwoPass.addressed address ((line :: rest).map Line.clause) =
        ((address : Int), line.clause) ::
          TwoPass.addressed ((address + (line.code address).length : Nat) : Int)
            (rest.map Line.clause) := by
      rw [List.map_cons, TwoPass.addressed, hLength, Int.natCast_add]
    rw [hPlaces]
    refine ⟨List.forall_mem_cons.2 ⟨hHere, hAdmissible⟩, ?_, line.code address :: parts,
      .cons (hLine.encode?_clause table) hParts, ?_⟩
    · simp only [definedIn, List.filterMap_cons, hNone]
      exact hDefined
    · rw [image, hFlat, List.flatten_cons]

end

/-- A listing of legal statements that fit in the address space assembles, and its output is their
bytes in order. -/
theorem generate_text {surroundings : Surroundings} {file : String} {defines : NameMap Int}
    {spots : List Spot} {symbols : SymbolTable} {lines : List Line}
    (hOpen : Assembly.initiallyOpen surroundings file = .ok spots)
    (hDefines : Assembly.predefine .empty defines.entries = .ok symbols)
    (hLegal : Legal 0 lines) (hSize : (image 0 lines).length ≤ 0x10000) (chunk : ChunkSize) :
    ∃ program event,
      (assembleText surroundings (text lines) file defines).result = .ok program ∧
        MachineCode.generate chunk program = .ok (image 0 lines, event) := by
  obtain ⟨-, hNames, -⟩ := Assembly.predefine_ok_iff.1 hDefines
  let table := definitions defines.entries (addressed 0 (lines.map Line.clause))
  obtain ⟨hAdmissible, hDefined, hEncoded⟩ := hLegal.addressed (by omega) table
  have hOutput : Output defines.entries (lines.map Line.clause) (image 0 lines) table := by
    refine ⟨hAdmissible, rfl, ?_, hEncoded⟩
    have hTable : table = defines.entries.map (fun entry => ⟨entry.1, entry.2, true⟩) ++
        definedIn (addressed 0 (lines.map Line.clause)) := rfl
    rw [hTable, show definedIn (addressed 0 (lines.map Line.clause)) = [] from hDefined,
      List.append_nil, List.map_map]
    exact hNames
  have hUnfolds : UnfoldsText surroundings file (text lines).toList spots
      (lines.map Line.clause) spots := by
    refine ⟨words lines, lexemesFrom_text hLegal, ?_⟩
    rw [unfolds_plain_iff (plain_words hLegal), lexemes_tokensOf]
    exact ⟨clauses?_words hLegal, rfl⟩
  obtain ⟨program, event, hProgram, hCode, -⟩ : Yields _ chunk (image 0 lines) table :=
    yields_text_iff.2 ⟨spots, _, spots, hOpen, ⟨symbols, hDefines⟩, hUnfolds, hOutput⟩
  exact ⟨program, event, hProgram, hCode⟩

theorem generate_text_mixed :
    ∃ program event,
      (assembleText ⟨.empty, [], none⟩
          "jr c, 05\nldh (0xFF44), a\n.fill 0b10, 7\n.byte 1, 0xFE\n.utf8 \"é;\"\n" "<input>"
          ⟨[("five", 5)]⟩).result = .ok program ∧
        MachineCode.generate .standard program =
          .ok ([0x38, 3, 0xE0, 0x44, 7, 7, 1, 0xFE, 0xC3, 0xA9, 0x3B], event) := by
  let lines : List Line :=
    [.instruction ⟨.jr, [.condition .cr, .relative], [0x38]⟩ [.carry, .number ⟨.octal, 5⟩],
      .instruction ⟨.ldh, [.high, .register .a], [0xE0]⟩
        [.address ⟨.hexadecimal, 0xFF44⟩, .register .a],
      .fill ⟨.binary, 2⟩ ⟨.decimal, 7⟩, .bytes [⟨.decimal, 1⟩, ⟨.hexadecimal, 0xFE⟩], .utf8 "é;"]
  have hText : text lines =
      "jr c, 05\nldh (0xFF44), a\n.fill 0b10, 7\n.byte 1, 0xFE\n.utf8 \"é;\"\n" := by
    decide +kernel
  have hImage : image 0 lines = [0x38, 3, 0xE0, 0x44, 7, 7, 1, 0xFE, 0xC3, 0xA9, 0x3B] := by
    decide +kernel
  have hJump : List.Forall₂ (Fits 2) [.condition .cr, .relative] [.carry, .number ⟨.octal, 5⟩] :=
    .cons .carry (.cons (.relative (by decide) (by decide) (by decide)) .nil)
  have hStore : List.Forall₂ (Fits 4) [.high, .register .a]
      [.address ⟨.hexadecimal, 0xFF44⟩, .register .a] :=
    .cons (.highPage (by decide) (by decide)) (.cons (.register .a) .nil)
  have hLegal : Legal 0 lines :=
    ⟨⟨by decide +kernel, hJump⟩, ⟨by decide +kernel, hStore⟩, ⟨by decide, by decide⟩,
      ⟨by decide, by decide⟩, ⟨by decide, by decide⟩, trivial⟩
  have hDefines : Assembly.predefine .empty [("five", 5)] =
      .ok ⟨[⟨"five", 5, none, true⟩]⟩ := rfl
  have hSize : (image 0 lines).length ≤ 0x10000 := by
    rw [hImage]
    decide
  rw [← hText, ← hImage]
  exact generate_text rfl hDefines hLegal hSize .standard

end Lr35902.Listing
