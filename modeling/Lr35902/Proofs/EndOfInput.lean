import Lr35902.Proofs.QuotedLines
import Lr35902.Proofs.TwoPass.Passes
import Lr35902.Proofs.UnfinishedStatements

/-!
Where the end of the input is reported. A source without inclusions is read from its front, so that
what is ahead of any statement is an end of its tokens (`Reaches.suffix`). Where the tokens run out
in the middle of a statement, the fault is put one column after the start of the last token. That is
just past the token exactly if its lexeme is one character long (`end_of_input_place`).
-/
namespace Lr35902

/-! ## The end of a token -/

section
variable {file : String} {text : List Char} {token : Token} {span : Scan.Span}

/-- Past a token that is no line end is the same line, as many columns further as its lexeme has
characters. -/
theorem Token.StandsAt.after_finish (h : token.StandsAt file text span)
    (hOther : token.lexeme ≠ .newline) :
    Location.after file (text.take span.finish) = { token.location with
      column := token.location.column + (span.finish - span.start : Nat) } := by
  have hInside : span.start < text.length := Nat.lt_of_lt_of_le h.nonempty h.bounded
  have hSplit : text.take span.finish =
      text.take span.start ++ text.extract span.start span.finish := by
    rw [List.extract_eq_take_drop, ← List.take_add, Nat.add_sub_of_le (Nat.le_of_lt h.nonempty)]
  have hLine : '\n' ∉ text.extract span.start span.finish := by
    apply h.spelled.not_lineEnd
    obtain ⟨first, more, hFirst, hSpelled⟩ := h.first
    have hPos : span.finish - span.start ≠ 0 := Nat.sub_ne_zero_of_lt h.nonempty
    rw [List.extract_eq_take_drop, List.head?_take, if_neg hPos, List.head?_drop, hFirst]
    rintro ⟨⟩
    cases hSpelled.head_not_isLineBreak hOther
  have hBefore : (text.take span.start).length = span.start :=
    List.length_take_of_le (Nat.le_of_lt hInside)
  have hLength : (text.extract span.start span.finish).length = span.finish - span.start := by
    have hAll := congrArg List.length hSplit
    rw [List.length_take_of_le h.bounded, List.length_append, hBefore] at hAll
    omega
  have hStart := Scan.lineStart_le (text.take span.start)
  rw [hBefore] at hStart
  rw [h.location_eq, hSplit, Location.after, Location.after, Scan.lineStart_append hLine,
    List.count_append, List.count_eq_zero.2 hLine, List.length_append, hLength, hBefore]
  simp only [Location.mk.injEq, Nat.add_zero, true_and]
  omega

/-- Whether a place that is reported at the end of the input is just past the last token. -/
theorem Token.StandsAt.placeAtEnd_eq_iff (h : token.StandsAt file text span)
    (hOther : token.lexeme ≠ .newline) (cause : Cause) :
    cause.placeAtEnd token.location = .after file (text.take span.finish) ↔
      cause ≠ .emptyParentheses ∧ span.finish = span.start + 1 := by
  have hPos := h.nonempty
  rw [h.after_finish hOther]
  generalize token.location = place
  obtain ⟨file, line, column⟩ := place
  by_cases hParentheses : cause = .emptyParentheses
  · simp only [hParentheses, Cause.placeAtEnd, Location.mk.injEq, true_and, ne_eq,
      not_true_eq_false, false_and, iff_false]
    omega
  · have hNext : cause.placeAtEnd ⟨file, line, column⟩ = ⟨file, line, column + 1⟩ := by
      unfold Cause.placeAtEnd
      split
      · exact absurd rfl hParentheses
      · rfl
    simp only [hNext, Location.mk.injEq, true_and, ne_eq, hParentheses, not_false_eq_true]
    omega

end

namespace Assembly

/-! ## Sources without inclusions -/

section
variable {surroundings : Surroundings} {first state : State}

theorem Step.suffix {after : State} (h : Step surroundings state after)
    (hPlain : ∀ token ∈ state.tokens, TwoPass.Plain token) : after.tokens <:+ state.tokens := by
  obtain ⟨command, rest, brought, hReads, hFiles, hAfter⟩ := h.fileEffect
  obtain ⟨rfl, -⟩ := (TwoPass.fileEffect_plain_iff hReads hPlain).1 hFiles
  obtain ⟨front, hFront, -, -⟩ := hReads.front
  exact ⟨front, by rw [hAfter, hFront, List.nil_append]⟩

/-- Without inclusions, what is ahead is an end of what was ahead at first. -/
theorem Reaches.suffix (h : Reaches surroundings first state)
    (hPlain : ∀ token ∈ first.tokens, TwoPass.Plain token) : state.tokens <:+ first.tokens := by
  induction h with
  | refl => exact List.suffix_rfl
  | tail _ hStep ih =>
    exact (hStep.suffix fun token hMem => hPlain token (ih.subset hMem)).trans ih

end

end Assembly

/-- What a diagnostic says of the end of the input, by the last token before it. Its place is just
past that token exactly if the token is one character long and no parenthesis that holds nothing. -/
structure Diagnostic.ReportsEnd (file : String) (text : List Char) (last : Token) (span : Scan.Span)
    (cause : Cause) (d : Diagnostic) : Prop where
  cause_eq : d.cause = cause
  location_eq : d.location = some (cause.placeAtEnd last.location)
  past_iff : d.location = some (.after file (text.take span.finish)) ↔
    cause ≠ .emptyParentheses ∧ span.finish = span.start + 1

namespace Assembly

/-- Where the end of the input is reported, in a source without inclusions. If the assembly comes to
tokens that break off in the middle of a statement, it stops there, at the start of the last token
of the source or one column after that. No other statement is refused because the tokens run out. -/
theorem end_of_input_place {surroundings : Surroundings} {text file : String} {tokens : List Token}
    {defines : NameMap Int} {first state : State} {head : Token} {body : List Token}
    (hScan : scan text file = .ok tokens)
    (hNoUse : ∀ token ∈ tokens, token.lexeme ≠ .directive ".use")
    (hStart : start surroundings ⟨tokens, file, some text.toList, defines⟩ = .ok first)
    (hReaches : Reaches surroundings first state) (hTokens : state.tokens = head :: body) :
    (∀ cause, Statement.Lacks head body cause →
      ∃ last span d, tokens.getLast? = some last ∧ last.StandsAt file text.toList span ∧
        (assembleText surroundings text file defines).result = .error (.diagnostic d) ∧
        d.ReportsEnd file text.toList last span cause) ∧
    ∀ cause location hint, Statement.read head body = .error (.rejected cause location hint) →
      cause.RunsOut body → Statement.Lacks head body cause := by
  refine ⟨?_, fun _ _ _ hRead hOut => Statement.lacks_of_read hRead hOut⟩
  intro cause hLacks
  have hFirst : first.tokens = tokens := (start_ok hStart).1
  have hPlain : ∀ token ∈ first.tokens, TwoPass.Plain token := by
    intro token hMem
    rw [hFirst] at hMem
    exact ⟨scan_scanned hScan token hMem, hNoUse token hMem⟩
  -- the last token of the statement is the last token of the source
  obtain ⟨last, hLast⟩ : ∃ last, (head :: body).getLast? = some last :=
    ⟨_, List.getLast?_eq_some_getLast (List.cons_ne_nil head body)⟩
  have hSourceLast : tokens.getLast? = some last := by
    obtain ⟨front, hFront⟩ := hReaches.suffix hPlain
    rw [← hFirst, ← hFront, hTokens, List.getLast?_append, hLast, Option.some_or]
  have hOther : last.lexeme ≠ .newline := by
    intro hLexeme
    have hEnds := hLacks.endsStatement last (List.mem_of_getLast? hLast)
    rw [hLexeme] at hEnds
    cases hEnds
  obtain ⟨spans, hSpans, -, -⟩ := (Scan.divides_of_scan hScan).covers
  obtain ⟨span, hStands⟩ := exists_of_forall₂ hSpans (List.mem_of_getLast? hSourceLast)
  have hPlace : Statement.lastPlace head.location body = last.location := by
    rw [← Statement.lastPlace_cons head.location, Statement.lastPlace, hLast]
    rfl
  have hStep : state.step surroundings head body =
      .error (state.diagnose cause (cause.placeAtEnd last.location) none) := by
    rw [State.step, Statement.read_of_lacks hLacks, Statement.lackFault, hPlace]
    rfl
  have hResult : (assembleText surroundings text file defines).result =
      .error (state.diagnose cause (cause.placeAtEnd last.location) none) := by
    rw [assembleText, hScan]
    exact assemble_of_reaches hStart hReaches hTokens hStep
  refine ⟨last, span, _, hSourceLast, hStands, hResult, rfl, rfl, ?_⟩
  rw [Option.some.injEq]
  exact hStands.placeAtEnd_eq_iff hOther cause

/-- An address that lacks its closing parenthesis, below another statement. -/
theorem end_of_input_place_open_address :
    ∃ tokens first state head body, scan "nop\nld hl,(0xFF44" Location.input = .ok tokens ∧
      (∀ token ∈ tokens, token.lexeme ≠ .directive ".use") ∧
      start (workingDirectory []) ⟨tokens, Location.input, some "nop\nld hl,(0xFF44".toList,
        .empty⟩ = .ok first ∧
      Reaches (workingDirectory []) first state ∧ state.tokens = head :: body ∧
      Statement.Lacks head body (.expected .closingParen none) ∧
      ∃ last span d, tokens.getLast? = some last ∧ last.location = ⟨Location.input, 2, 8⟩ ∧
        last.StandsAt Location.input "nop\nld hl,(0xFF44".toList span ∧
        (assembleText (workingDirectory []) "nop\nld hl,(0xFF44" Location.input .empty).result =
          .error (.diagnostic d) ∧
        d.ReportsEnd Location.input "nop\nld hl,(0xFF44".toList last span
          (.expected .closingParen none) := by
  have hRun : ((scan "nop\nld hl,(0xFF44" Location.input).toOption.bind fun tokens =>
      (start (workingDirectory []) ⟨tokens, Location.input, some "nop\nld hl,(0xFF44".toList,
        .empty⟩).toOption.bind fun first =>
      (run (workingDirectory []) 1 first).state.tokens.head?.bind fun head =>
      tokens.getLast?.map fun last =>
        (tokens.all fun token => decide (token.lexeme ≠ .directive ".use"),
          decide (Statement.read head (run (workingDirectory []) 1 first).state.tokens.tail =
            .error (.rejected (.expected .closingParen none) ⟨Location.input, 2, 9⟩ none)),
          last.location)) = some (true, true, ⟨Location.input, 2, 8⟩) := by decide +kernel
  obtain ⟨tokens, hScan, hRun⟩ := Option.bind_eq_some_iff.1 hRun
  obtain ⟨first, hStart, hRun⟩ := Option.bind_eq_some_iff.1 hRun
  obtain ⟨head, hHead, hRun⟩ := Option.bind_eq_some_iff.1 hRun
  obtain ⟨last, hLast, hRun⟩ := Option.map_eq_some_iff.1 hRun
  simp only [Prod.mk.injEq] at hRun
  obtain ⟨hAll, hRead, hLocation⟩ := hRun
  have hScan := eq_ok_of_toOption hScan
  have hStart := eq_ok_of_toOption hStart
  have hNoUse : ∀ token ∈ tokens, token.lexeme ≠ .directive ".use" :=
    fun token hMem => of_decide_eq_true (List.all_eq_true.1 hAll token hMem)
  have hReaches := run_reaches (workingDirectory []) 1 first
  obtain ⟨body, hTokens⟩ := List.head?_eq_some_iff.1 hHead
  have hRead := of_decide_eq_true hRead
  rw [hTokens, List.tail_cons] at hRead
  obtain ⟨hReports, hOnly⟩ := end_of_input_place hScan hNoUse hStart hReaches hTokens
  have hLacks := hOnly _ _ _ hRead (.expected .closingParen)
  obtain ⟨found, span, d, hFound, hStands, hResult, hEnd⟩ := hReports _ hLacks
  obtain rfl : last = found := Option.some.inj (hLast.symm.trans hFound)
  exact ⟨tokens, first, _, head, body, hScan, hNoUse, hStart, hReaches, hTokens, hLacks, last, span,
    d, hLast, hLocation, hStands, hResult, hEnd⟩

/-- A missing string is reported in the middle of the directive that needs it, and an empty
parenthesis where it opens. -/
theorem end_of_input_short :
    (∃ d, (assembleText (workingDirectory []) ".ascii" Location.input .empty).result =
        .error (.diagnostic d) ∧
      d.cause = .expected .string none ∧ d.location = some ⟨Location.input, 1, 2⟩ ∧
      Location.after Location.input ".ascii".toList = ⟨Location.input, 1, 7⟩) ∧
    ∃ d, (assembleText (workingDirectory []) "ld a,(" Location.input .empty).result =
        .error (.diagnostic d) ∧
      d.cause = .emptyParentheses ∧ d.location = some ⟨Location.input, 1, 6⟩ ∧
      Location.after Location.input "ld a,(".toList = ⟨Location.input, 1, 7⟩ := by
  have hString : (assembleText (workingDirectory []) ".ascii" Location.input
      .empty).diagnostic?.map (fun d => (d.cause, d.location)) =
      some (.expected .string none, some ⟨Location.input, 1, 2⟩) := by decide +kernel
  have hParenthesis : (assembleText (workingDirectory []) "ld a,(" Location.input
      .empty).diagnostic?.map (fun d => (d.cause, d.location)) =
      some (.emptyParentheses, some ⟨Location.input, 1, 6⟩) := by decide +kernel
  obtain ⟨first, hFirst, hString⟩ := Option.map_eq_some_iff.1 hString
  obtain ⟨second, hSecond, hParenthesis⟩ := Option.map_eq_some_iff.1 hParenthesis
  obtain ⟨hCause, hPlace⟩ := Prod.mk.inj hString
  obtain ⟨hOther, hOpening⟩ := Prod.mk.inj hParenthesis
  exact ⟨⟨first, Outcome.result_eq hFirst, hCause, hPlace, rfl⟩,
    ⟨second, Outcome.result_eq hSecond, hOther, hOpening, rfl⟩⟩

end Assembly
end Lr35902
