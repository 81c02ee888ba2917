import Lr35902.Proofs.TextualInclusion

/-!
Sources that differ in the values of their constants only. Such a source is read statement by
statement as the other is: every command has the same clause, or both define the same constant, and
both place items of the same kind (`Parallel`). So the traces of the two sources run in parallel
(`RevaluedTokens.trace`), through all the files that they include.
-/
namespace Lr35902.TwoPass

open Assembly (Trace FileEffect)

/-! ## Tokens -/

/-- Lexemes that differ in the numbers that are given to constants, in any of the directives. -/
inductive Revalued : List Lexeme → List Lexeme → Prop
  | nil : Revalued [] []
  | keep {words others : List Lexeme} (word : Lexeme) :
    Revalued words others → Revalued (word :: words) (word :: others)
  | constant {words others : List Lexeme} (name : String) (spelling : Option String)
    (value other : Int) :
    Revalued words others →
    Revalued
      (.directive ".equ" :: .identifier name :: .delimiter .comma spelling :: .number value ::
        words)
      (.directive ".equ" :: .identifier name :: .delimiter .comma spelling :: .number other ::
        others)

namespace Revalued

theorem refl (words : List Lexeme) : Revalued words words := by
  induction words with
  | nil => exact .nil
  | cons word words ih => exact .keep word ih

theorem append {words others : List Lexeme} (h : Revalued words others) (front : List Lexeme) :
    Revalued (front ++ words) (front ++ others) := by
  induction front with
  | nil => exact h
  | cons word front ih => exact .keep word ih

theorem length_eq {words others : List Lexeme} (h : Revalued words others) :
    words.length = others.length := by
  induction h with
  | nil => rfl
  | keep _ _ ih => simp [ih]
  | constant _ _ _ _ _ ih => simp [ih]

/-- Where no directive starts, nothing is changed. -/
theorem append_inv {front words others : List Lexeme} (h : Revalued (front ++ words) others)
    (hFront : .directive ".equ" ∉ front) :
    ∃ left, others = front ++ left ∧ Revalued words left := by
  induction front generalizing others with
  | nil => exact ⟨others, rfl, h⟩
  | cons word front ih =>
    rw [List.mem_cons, not_or] at hFront
    obtain ⟨hHead, hTail⟩ := hFront
    rw [List.cons_append] at h
    generalize hWords : front ++ words = later at h
    cases h with
    | keep _ hRest =>
      rw [← hWords] at hRest
      obtain ⟨left, rfl, hLeft⟩ := ih hRest hTail
      exact ⟨left, rfl, hLeft⟩
    | constant => exact absurd rfl hHead

/-- A directive is kept but for its number. -/
theorem constant_inv {words others : List Lexeme} {name : String} {spelling : Option String}
    {value : Int}
    (h : Revalued (.directive ".equ" :: .identifier name :: .delimiter .comma spelling ::
      .number value :: words) others) :
    ∃ other left, others = .directive ".equ" :: .identifier name :: .delimiter .comma spelling ::
      .number other :: left ∧ Revalued words left := by
  cases h with
  | constant _ _ _ other hRest => exact ⟨other, _, rfl, hRest⟩
  | keep _ hRest =>
    have hWords : Revalued ([.identifier name, .delimiter .comma spelling, .number value] ++ words)
        _ := hRest
    obtain ⟨left, rfl, hLeft⟩ := hWords.append_inv (by simp)
    exact ⟨value, left, rfl, hLeft⟩

end Revalued

/-- Clauses that differ in the value of a constant at most. -/
inductive Clause.Revalued : Clause → Clause → Prop
  | same (clause : Clause) : Revalued clause clause
  | constant (name : String) (value other : Int) :
    Revalued (.constant name value) (.constant name other)

/-- Tokens in the same files whose lexemes differ in the numbers of constants only. -/
structure RevaluedTokens (tokens others : List Token) : Prop where
  words : Revalued (lexemes tokens) (lexemes others)
  files_eq : (others.map fun token => token.location.file) =
    tokens.map fun token => token.location.file
  live : ∀ token ∈ tokens, token.Live
  live_others : ∀ token ∈ others, token.Live

theorem map_essence (tokens : List Token) :
    tokens.map essence = (lexemes tokens).zip (tokens.map fun token => token.location.file) :=
  List.zip_map'.symm

section
variable {tokens others rest : List Token}

theorem RevaluedTokens.append_inv {front : List Token} (h : RevaluedTokens (front ++ rest) others)
    (hFront : .directive ".equ" ∉ lexemes front) :
    ∃ first left, others = first ++ left ∧ Relocated front first ∧ RevaluedTokens rest left := by
  obtain ⟨hWords, hFiles, hLive, hOthers⟩ := h
  rw [lexemes, List.map_append] at hWords
  obtain ⟨words, hSame, hLeft⟩ := hWords.append_inv hFront
  obtain ⟨first, left, rfl, hFirst, rfl⟩ := List.map_eq_append_iff.1 hSame
  have hLength : first.length = front.length := by simpa using congrArg List.length hFirst
  rw [List.map_append, List.map_append] at hFiles
  obtain ⟨hFirstFiles, hLeftFiles⟩ := List.append_inj hFiles (by simp [hLength])
  obtain ⟨hFrontLive, hRestLive⟩ := List.forall_mem_append.1 hLive
  have hLeftLive := (List.forall_mem_append.1 hOthers).2
  refine ⟨first, left, rfl, ⟨?_, hFrontLive⟩, hLeft, hLeftFiles, hRestLive, hLeftLive⟩
  rw [map_essence, map_essence, hFirstFiles]
  exact congrArg (List.zip · _) hFirst

theorem RevaluedTokens.brought (h : RevaluedTokens tokens others) {brought : List Token}
    (hLive : ∀ token ∈ brought, token.Live) :
    RevaluedTokens (brought ++ tokens) (brought ++ others) := by
  obtain ⟨hWords, hFiles, hTokens, hOthers⟩ := h
  refine ⟨?_, ?_, List.forall_mem_append.2 ⟨hLive, hTokens⟩,
    List.forall_mem_append.2 ⟨hLive, hOthers⟩⟩
  · rw [lexemes, lexemes, List.map_append, List.map_append]
    exact hWords.append _
  · rw [List.map_append, List.map_append, hFiles]

theorem RevaluedTokens.cons_inv {token : Token} (h : RevaluedTokens (token :: rest) others)
    (hToken : token.lexeme ≠ .directive ".equ") :
    ∃ other left, others = other :: left ∧ other.lexeme = token.lexeme ∧
      RevaluedTokens rest left := by
  have hFront : .directive ".equ" ∉ lexemes [token] := by
    intro hMem
    exact hToken (List.mem_singleton.1 hMem).symm
  have hAll : RevaluedTokens ([token] ++ rest) others := h
  obtain ⟨first, left, rfl, hFirst, hLeft⟩ := hAll.append_inv hFront
  obtain ⟨other, more, rfl, hOther, -, hMore⟩ := hFirst.cons_inv
  obtain rfl := List.map_eq_nil_iff.1 hMore.1
  exact ⟨other, left, rfl, hOther, hLeft⟩

/-- The tokens of a directive for a constant are kept but for the number. -/
theorem RevaluedTokens.constant_inv {head named comma valued : Token} {tail : List Token}
    {name : String} {spelling : Option String} {value : Int}
    (h : RevaluedTokens (head :: named :: comma :: valued :: tail) others)
    (hHead : head.lexeme = .directive ".equ") (hNamed : named.lexeme = .identifier name)
    (hComma : comma.lexeme = .delimiter .comma spelling) (hValued : valued.lexeme = .number value) :
    ∃ first body left same, others = first :: body ++ left ∧ first.lexeme = .directive ".equ" ∧
      Statement.ConstantBody body same ∧ Corresponding Clause.Revalued
        (.constant name named.location value) same ∧ RevaluedTokens tail left := by
  obtain ⟨hWords, hFiles, hLive, hOthers⟩ := h
  simp only [lexemes, List.map_cons, hHead, hNamed, hComma, hValued] at hWords
  obtain ⟨other, left, hSame, hLeft⟩ := hWords.constant_inv
  obtain ⟨first, _, rfl, hFirst, hSame⟩ := List.map_eq_cons_iff.1 hSame
  obtain ⟨second, _, rfl, hSecond, hSame⟩ := List.map_eq_cons_iff.1 hSame
  obtain ⟨third, _, rfl, hThird, hSame⟩ := List.map_eq_cons_iff.1 hSame
  obtain ⟨fourth, later, rfl, hFourth, rfl⟩ := List.map_eq_cons_iff.1 hSame
  refine ⟨first, [second, third, fourth], later, _, rfl, hFirst, .intro hSecond hThird hFourth,
    .clause rfl rfl (.constant name value other), hLeft, ?_, ?_, ?_⟩
  · simp only [List.map_cons, List.cons.injEq] at hFiles
    exact hFiles.2.2.2.2
  · intro token hMem
    exact hLive token (by simp [hMem])
  · intro token hMem
    exact hOthers token (by simp [hMem])

theorem RevaluedTokens.eq_nil (h : RevaluedTokens [] others) : others = [] := by
  have hWords := h.words
  generalize hLexemes : lexemes others = words at hWords
  cases hWords
  exact List.map_eq_nil_iff.1 hLexemes

theorem RevaluedTokens.ends {tail : List Token} (h : RevaluedTokens tail others)
    (hEnds : Statement.Ends tail rest) :
    ∃ left, Statement.Ends others left ∧ RevaluedTokens rest left := by
  cases hEnds with
  | input =>
    obtain rfl := h.eq_nil
    exact ⟨[], .input, h⟩
  | line hLine =>
    obtain ⟨other, left, rfl, hOther, hLeft⟩ := h.cons_inv (by simp [hLine])
    exact ⟨left, .line (hOther.trans hLine), hLeft⟩
  | file hFile =>
    obtain ⟨other, left, rfl, hOther, -⟩ := h.cons_inv (by simp [hFile])
    exact ⟨other :: left, .file (hOther.trans hFile), h⟩

end

/-! ## Statements -/

/-- The name of the kind of item that a command places, if it places one. -/
def kindName? : Command → Option String
  | .blank | .endInclude _ | .label _ | .sectionMark _ => none
  | .instruction _ _ _ => some "Instruction"
  | .bytes _ => some "ByteData"
  | .string _ => some "StringData"
  | .fill _ _ => some "Fill"
  | .origin _ _ _ => some "Pad"
  | .constant _ _ _ => some "Constant"
  | .use _ _ => some "Include"

/-- The first token of a statement says what kind of item it places. -/
theorem kindName?_eq {head other : Token} {body first : List Token} {command same : Command}
    (h : Statement.Body head body command) (hOther : Statement.Body other first same)
    (hHead : other.lexeme = head.lexeme) : kindName? command = kindName? same := by
  obtain ⟨lexeme, location⟩ := head
  obtain ⟨other, place⟩ := other
  obtain rfl : other = lexeme := hHead
  cases other with
  | mnemonic name =>
    obtain ⟨-, -⟩ := h
    obtain ⟨-, -⟩ := hOther
    rfl
  | directive name =>
    simp only [Statement.Body, Statement.DirectiveBody] at h hOther
    split at h
    case h_11 => exact h.elim
    all_goals cases h <;> cases hOther <;> rfl
  | _ => exact h.elim

/-- Commands that do the like: they correspond, and they place items of the same kind. -/
structure Parallel (command other : Command) : Prop where
  corresponding : Corresponding Clause.Revalued command other
  kindName?_eq : kindName? command = kindName? other

section
variable {tokens others rest : List Token} {command : Command}

theorem Corresponding.parallel {other : Command} (h : Corresponding Eq command other)
    (hKind : kindName? command = kindName? other) : Parallel command other := by
  refine ⟨?_, hKind⟩
  cases h with
  | clause hCommand hOther hSame =>
    rw [hSame] at hCommand
    exact .clause hCommand hOther (.same _)
  | blank => exact .blank
  | endInclude => exact .endInclude
  | use hFile => exact .use hFile

/-- Whatever is read from tokens is read from the revalued tokens too, constants with the values
that they have there. -/
theorem RevaluedTokens.reads (h : RevaluedTokens tokens others)
    (hReads : Statement.Reads tokens command rest) :
    ∃ other left, Statement.Reads others other left ∧ Parallel command other ∧
      RevaluedTokens rest left := by
  cases hReads with
  | blank hLine =>
    obtain ⟨other, left, rfl, hOther, hLeft⟩ := h.cons_inv (by simp [hLine])
    exact ⟨_, left, .blank (hOther.trans hLine), ⟨.blank, rfl⟩, hLeft⟩
  | endInclude hFile =>
    obtain ⟨other, left, rfl, hOther, hLeft⟩ := h.cons_inv (by simp [hFile])
    exact ⟨_, left, .endInclude (hOther.trans hFile), ⟨.endInclude, rfl⟩, hLeft⟩
  | label hName hColon =>
    obtain ⟨other, after, rfl, hOther, hAfter⟩ := h.cons_inv (by simp [hName])
    obtain ⟨colon, left, rfl, hSecond, hLeft⟩ := hAfter.cons_inv (by simp [hColon])
    exact ⟨_, left, .label (hOther.trans hName) (hSecond.trans hColon),
      ⟨.clause rfl rfl (.same _), rfl⟩, hLeft⟩
  | @statement head body tail _ _ hBody hEnds =>
    by_cases hHead : head.lexeme = .directive ".equ"
    · have hConstant : Statement.ConstantBody body command := by
        unfold Statement.Body at hBody
        rw [hHead] at hBody
        exact hBody
      obtain ⟨hNamed, hComma, hValued⟩ := hConstant
      obtain ⟨first, body, last, same, rfl, hFirst, hSame, hCorresponding, hTail⟩ :=
        h.constant_inv hHead hNamed hComma hValued
      obtain ⟨left, hLeftEnds, hLeft⟩ := hTail.ends hEnds
      have hOther : Statement.Body first body same := by
        unfold Statement.Body
        rw [hFirst]
        exact hSame
      exact ⟨same, left, .statement hOther hLeftEnds, ⟨hCorresponding,
        TwoPass.kindName?_eq hBody hOther (hFirst.trans hHead.symm)⟩, hLeft⟩
    · have hFront : .directive ".equ" ∉ lexemes (head :: body) := by
        intro hMem
        rcases List.mem_cons.1 hMem with hSame | hMem
        · exact hHead hSame.symm
        · -- what follows the first token is an argument
          obtain ⟨token, hToken, hDirective⟩ := List.mem_map.1 hMem
          have hArgument := hBody.isArgument token hToken
          rw [hDirective] at hArgument
          cases hArgument
      obtain ⟨line, last, rfl, hLine, hTail⟩ := h.append_inv hFront
      obtain ⟨other, first, rfl, hOther, -, hFirst⟩ := hLine.cons_inv
      obtain ⟨left, hLeftEnds, hLeft⟩ := hTail.ends hEnds
      obtain ⟨same, hSame, hCorresponding⟩ := Relocated.body hOther hFirst hBody
      exact ⟨same, left, .statement hSame hLeftEnds,
        hCorresponding.parallel (TwoPass.kindName?_eq hBody hSame hOther), hLeft⟩

theorem revaluedTokens_lockstep :
    Lockstep RevaluedTokens (fun _ => True) Parallel where
  done h := h.eq_nil
  read h hReads _ := h.reads hReads
  files hParallel hFiles := hParallel.corresponding.fileEffect hFiles
  brought hFiles h := h.brought hFiles.live

/-- The traces of sources that differ in the values of constants run in parallel. -/
theorem RevaluedTokens.trace {surroundings : Surroundings} {openFiles last final : List Spot}
    {statements more : List Statement} (h : RevaluedTokens tokens others)
    (hTrace : Trace surroundings tokens openFiles statements last)
    (hOther : Trace surroundings others openFiles more final) :
    List.Forall₂ (fun statement other => Parallel statement.command other.command) statements
      more := by
  obtain ⟨same, hSame, hParallel⟩ :=
    revaluedTokens_lockstep.trace hTrace h fun _ _ => trivial
  rw [hOther.unique hSame]
  exact hParallel

end

end Lr35902.TwoPass
