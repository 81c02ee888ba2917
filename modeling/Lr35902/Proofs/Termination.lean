import Lr35902.Proofs.OpenFiles
import Mathlib.Data.Set.Finite.List

/-!
Assembling comes to an end, however the files include one another. A file that is open is not
opened again, so below every token only the files that are not open yet can bring in more; `cost`
sums what the tokens ahead can take under this bound, each with the files that will be open when it
is reached. Every statement lowers the cost (`Step.cost_lt`), an inclusion too: the tokens of the
file come with one more file open. The cost of a source is within the budget of its run, so the
budget never makes a difference (`assemble_terminates`).
-/
namespace Lr35902

/-! ## The length of texts -/

theorem Scan.length_scanFrom {file : String} {cursor : Cursor} {done : List Token}
    {text : List Char} {tokens : List Token} (h : scanFrom file cursor done text = .ok tokens) :
    tokens.length ≤ done.length + text.length := by
  fun_induction scanFrom file cursor done text with
  | case1 cursor done =>
    cases h
    simp
  | case2 _ _ _ _ _ ih =>
    have hRest := ih h
    simp only [List.length_cons]
    omega
  | case3 _ _ _ _ _ ih =>
    have hRest := ih h
    simp only [List.length_cons, List.length_drop] at hRest ⊢
    omega
  | case4 cursor done rest after _ _ ih =>
    have hRest := ih h
    have hAfter : after.length ≤ done.length + 1 := by
      by_cases hStart : atLineStart done = true
      · simp [after, hStart]
      · simp [after, hStart]
    simp only [List.length_cons]
    omega
  | case5 => cases h
  | case6 _ _ _ _ _ _ _ _ _ _ ih =>
    have hRest := ih h
    simp only [List.length_cons, List.length_drop] at hRest ⊢
    omega

/-- A text has no more tokens than characters. -/
theorem length_scan {text : List Char} {file : String} {tokens : List Token}
    (h : scan (String.ofList text) file = .ok tokens) : tokens.length ≤ text.length := by
  have hLength := Scan.length_scanFrom h
  simpa using hLength

theorem length_scanText {text : List CodePoint} {file : String} {tokens : List Token}
    (h : scanText text file = .ok tokens) : tokens.length ≤ text.length := by
  obtain ⟨shadows, hScan, rfl⟩ := scanText_ok_iff.1 h
  simpa using length_scan hScan

theorem Utf8.length_decodeFrom {offset : Nat} {done : List Char} {bytes : Bytes}
    {text : List Char} (h : decodeFrom offset done bytes = .ok text) :
    text.length ≤ done.length + bytes.length := by
  fun_induction decodeFrom offset done bytes with
  | case1 _ done =>
    cases h
    simp
  | case2 _ _ _ _ _ ih =>
    have hRest := ih h
    simp only [List.length_cons] at hRest ⊢
    omega
  | case3 => cases h
  | case4 => cases h
  | case5 _ _ _ _ _ _ _ _ _ ih =>
    have hRest := ih h
    simp only [List.length_cons, List.length_drop] at hRest ⊢
    omega

theorem Text.length_unifyNewlines (text : List Char) :
    (unifyNewlines text).length ≤ text.length := by
  fun_induction unifyNewlines text with
  | case1 => exact Nat.le_refl 0
  | case2 _ ih =>
    simp only [List.length_cons]
    omega
  | case3 _ _ _ ih =>
    simp only [List.length_cons]
    omega

theorem FileSystem.mem_files_of_locate {fs : FileSystem} {path : Path} {spot : Spot} {number : Nat}
    {data : Bytes} (h : fs.locate path = .ok (.file spot number data)) :
    (spot, data) ∈ fs.files :=
  List.mem_filterMap.2 ⟨(spot, .file number data), mem_entries (locate_stands h), rfl⟩

theorem FileSystem.locate_of_fileSpot? {fs : FileSystem} {path : Path} {spot : Spot}
    (h : fs.fileSpot? path = .ok (some spot)) :
    ∃ number data, fs.locate path = .ok (.file spot number data) := by
  unfold fileSpot? probe at h
  cases hLocate : fs.locate path with
  | error fault => cases fault <;> simp [hLocate] at h
  | ok found =>
    cases found with
    | file other number data =>
      simp only [hLocate, Except.ok.injEq, Option.some.injEq] at h
      exact ⟨number, data, by rw [h]⟩
    | directory other => simp [hLocate] at h
    | vacant other => simp [hLocate] at h

namespace Surroundings
variable {surroundings : Surroundings}

theorem fileSpot?_of_firstFile {files : FileSystem} {paths : List Path} {path : Path} {spot : Spot}
    (h : firstFile files paths = .ok (some (path, spot))) :
    files.fileSpot? path = .ok (some spot) := by
  fun_induction firstFile files paths with
  | case1 => cases h
  | case2 => cases h
  | case3 _ _ _ hSpot =>
    cases h
    exact hSpot
  | case4 _ _ _ ih => exact ih h

theorem mem_of_firstFile {files : FileSystem} {paths : List Path} {path : Path} {spot : Spot}
    (h : firstFile files paths = .ok (some (path, spot))) : path ∈ paths := by
  fun_induction firstFile files paths with
  | case1 => cases h
  | case2 => cases h
  | case3 =>
    cases h
    exact List.mem_cons_self
  | case4 _ _ _ ih => exact List.mem_cons_of_mem _ (ih h)

/-- What is found is one of the candidates, and a file. -/
theorem find_found {includer name : String} {path : Path} {spot : Spot}
    (h : surroundings.find includer name = .found path spot) :
    path ∈ surroundings.candidates includer name ∧
      surroundings.files.fileSpot? path = .ok (some spot) := by
  unfold find at h
  simp only at h
  split at h
  · cases h
  · next hFirst =>
    cases h
    exact ⟨mem_of_firstFile hFirst, fileSpot?_of_firstFile hFirst⟩
  · cases h

theorem locate_of_find {includer name : String} {path : Path} {spot : Spot}
    (h : surroundings.find includer name = .found path spot) :
    ∃ number data, surroundings.files.locate path = .ok (.file spot number data) :=
  FileSystem.locate_of_fileSpot? (find_found h).2

theorem le_foldl_max {values : List Nat} {value : Nat} (least : Nat) (h : value ∈ values) :
    value ≤ values.foldl max least := by
  rw [List.foldl_max, List.max?_eq_some_max (List.ne_nil_of_mem h), Option.getD_some]
  exact Nat.le_trans (List.le_max_of_mem h) (Nat.le_max_right _ _)

theorem length_read {supply : Supply} {text : List CodePoint} (h : supply.read = .ok text) :
    text.length = supply.length := by
  cases supply with
  | text content =>
    cases h
    rfl
  | systemFailure number reason => cases h
  | failure message => cases h

theorem length_readText_files {files : FileSystem} {path : Path} {text : List Char}
    (h : files.readText path = .ok text) :
    ∃ file ∈ files.files, text.length ≤ file.2.length := by
  unfold FileSystem.readText FileSystem.read at h
  cases hLocate : files.locate path with
  | error fault => simp [hLocate] at h
  | ok found =>
    cases found with
    | directory spot => simp [hLocate] at h
    | vacant spot => simp [hLocate] at h
    | file spot number data =>
      simp only [hLocate] at h
      split at h
      · next decoded hDecode =>
        cases h
        have hDecoded := Utf8.length_decodeFrom hDecode
        have hUnified := Text.length_unifyNewlines decoded
        refine ⟨(spot, data), FileSystem.mem_files_of_locate hLocate, ?_⟩
        simp only [List.length_nil] at hDecoded
        show (Text.unifyNewlines decoded).length ≤ data.length
        omega
      · cases h

theorem length_readText {path : Path} {text : List CodePoint}
    (h : surroundings.readText path = .ok text) : text.length ≤ surroundings.longestText := by
  unfold readText at h
  unfold longestText
  cases hSupplies : surroundings.supplies with
  | some supplies =>
    simp only [hSupplies] at h ⊢
    split at h
    · next supply hSupply =>
      obtain ⟨before, others, hEntries, -⟩ := List.lookup_eq_some_iff.1 hSupply
      rw [length_read h]
      apply le_foldl_max
      simp [hEntries]
    · cases h
  | none =>
    simp only [hSupplies] at h ⊢
    split at h
    · next found hText =>
      cases h
      obtain ⟨file, hFile, hLength⟩ := length_readText_files hText
      rw [List.length_map]
      refine Nat.le_trans hLength (le_foldl_max 0 ?_)
      exact List.mem_append_left _ (List.mem_map.2 ⟨file, hFile, rfl⟩)
    · cases h

end Surroundings

/-! ## What the tokens ahead can cost -/

namespace Assembly

/-- The files that can still be opened. -/
def unopened (files : List (Spot × Bytes)) (openFiles : List Spot) : List (Spot × Bytes) :=
  files.filter fun file => decide (file.1 ∉ openFiles)

/-- The files that are open after a mark: one that it closes is open no more. -/
def closeMark (openFiles : List Spot) (mark : FileMark) : List Spot :=
  match openFiles.find? mark.closes with
  | some spot => openFiles.erase spot
  | none => openFiles

/-- The steps that tokens may take from some open files on, if every token brings in as much as it
could. -/
def cost (surroundings : Surroundings) : List Spot → List Token → Nat
  | _, [] => 0
  | openFiles, token :: tokens =>
    tokenCost surroundings.longestText (unopened surroundings.files.files openFiles).length +
      cost surroundings ((Statement.marks [token]).foldl closeMark openFiles) tokens

theorem length_unopened_concat {files : List (Spot × Bytes)} {openFiles : List Spot} {spot : Spot}
    {data : Bytes} (hFile : (spot, data) ∈ files) (hClosed : spot ∉ openFiles) :
    (unopened files (openFiles ++ [spot])).length < (unopened files openFiles).length := by
  have hFewer : unopened files (openFiles ++ [spot]) =
      (unopened files openFiles).filter fun file => decide (file.1 ≠ spot) := by
    unfold unopened
    rw [List.filter_filter]
    apply List.filter_congr
    intro file _
    simp [and_comm]
  rw [hFewer, List.length_filter_lt_length_iff_exists]
  exact ⟨(spot, data), List.mem_filter.2 ⟨hFile, by simpa using hClosed⟩, by simp⟩

theorem one_le_tokenCost (longest depth : Nat) : 1 ≤ tokenCost longest depth := by
  cases depth with
  | zero => exact Nat.le_refl 1
  | succ depth => exact Nat.le_add_right 1 _

theorem tokenCost_mono {longest depth deeper : Nat} (h : depth ≤ deeper) :
    tokenCost longest depth ≤ tokenCost longest deeper := by
  induction h with
  | refl => exact Nat.le_refl _
  | @step deeper _ ih =>
    calc tokenCost longest depth
        ≤ tokenCost longest deeper := ih
      _ ≤ (longest + 1) * tokenCost longest deeper := Nat.le_mul_of_pos_left _ (Nat.succ_pos _)
      _ ≤ tokenCost longest (deeper + 1) := Nat.le_add_left _ 1

section
variable {surroundings : Surroundings}

theorem cost_append (openFiles : List Spot) (front rest : List Token) :
    cost surroundings openFiles (front ++ rest) =
      cost surroundings openFiles front +
        cost surroundings ((Statement.marks front).foldl closeMark openFiles) rest := by
  induction front generalizing openFiles with
  | nil => simp [cost, Statement.marks]
  | cons token front ih =>
    have hMarks : Statement.marks (token :: front) =
        Statement.marks [token] ++ Statement.marks front := Statement.marks_append [token] front
    rw [List.cons_append, cost, cost, ih, hMarks, List.foldl_append, Nat.add_assoc]

/-- Tokens of a text close no file, so all of them cost the same. -/
theorem cost_eq_mul (openFiles : List Spot) {tokens : List Token}
    (h : Statement.marks tokens = []) :
    cost surroundings openFiles tokens = tokens.length *
      tokenCost surroundings.longestText (unopened surroundings.files.files openFiles).length := by
  induction tokens with
  | nil => simp [cost]
  | cons token tokens ih =>
    have hBoth : Statement.marks [token] ++ Statement.marks tokens = [] := by
      rw [← Statement.marks_append]
      exact h
    obtain ⟨hToken, hTokens⟩ := List.append_eq_nil_iff.1 hBoth
    rw [cost, hToken, List.foldl_nil, ih hTokens, List.length_cons, Nat.succ_mul, Nat.add_comm]

theorem cost_le (openFiles : List Spot) (tokens : List Token) :
    cost surroundings openFiles tokens ≤
      tokens.length * tokenCost surroundings.longestText surroundings.fileCount := by
  induction tokens generalizing openFiles with
  | nil => simp [cost]
  | cons token tokens ih =>
    have hToken : tokenCost surroundings.longestText
        (unopened surroundings.files.files openFiles).length ≤
        tokenCost surroundings.longestText surroundings.fileCount :=
      tokenCost_mono (List.length_filter_le _ _)
    have hRest := ih ((Statement.marks [token]).foldl closeMark openFiles)
    rw [cost, List.length_cons, Nat.succ_mul]
    omega

theorem cost_pos (surroundings : Surroundings) (openFiles : List Spot) {tokens : List Token}
    (h : tokens ≠ []) : 0 < cost surroundings openFiles tokens := by
  cases tokens with
  | nil => exact absurd rfl h
  | cons token tokens =>
    rw [cost]
    have hToken := one_le_tokenCost surroundings.longestText
      (unopened surroundings.files.files openFiles).length
    omega

/-- The mark of the file that was opened last closes it. -/
theorem closeMark_concat {openFiles : List Spot} {spot : Spot} (h : spot ∉ openFiles) :
    closeMark (openFiles ++ [spot]) (.spot spot) = openFiles := by
  unfold closeMark
  rw [find?_closes_concat h]
  exact erase_concat h

/-- The tokens of a file cost less than the token that brings them in, since they come with one more
file open. -/
theorem cost_included {openFiles : List Spot} {includer name : String} {path : Path} {spot : Spot}
    {text : List CodePoint} {included : List Token}
    (hFind : surroundings.find includer name = .found path spot) (hClosed : spot ∉ openFiles)
    (hText : surroundings.readText path = .ok text)
    (hScan : scanText text path.text = .ok included) (rest : List Token) :
    cost surroundings (openFiles ++ [spot])
        (included ++ [State.closingMark spot path.text included] ++ rest) <
      tokenCost surroundings.longestText (unopened surroundings.files.files openFiles).length +
        cost surroundings openFiles rest := by
  obtain ⟨number, data, hLocate⟩ := Surroundings.locate_of_find hFind
  have hFewer := length_unopened_concat (FileSystem.mem_files_of_locate hLocate) hClosed
  have hLength : included.length ≤ surroundings.longestText :=
    Nat.le_trans (length_scanText hScan) (Surroundings.length_readText hText)
  have hNone := marks_eq_nil (scanText_scanned hScan)
  have hMark : Statement.marks [State.closingMark spot path.text included] = [.spot spot] := rfl
  rw [cost_append, cost_append, Statement.marks_append, hNone, List.nil_append, hMark,
    List.foldl_cons, List.foldl_nil, List.foldl_nil, closeMark_concat hClosed, cost_eq_mul _ hNone]
  simp only [cost]
  -- all that is left is the count of the tokens between the two marks
  generalize (unopened surroundings.files.files openFiles).length = depth at hFewer ⊢
  generalize (unopened surroundings.files.files (openFiles ++ [spot])).length = deeper at hFewer ⊢
  have hTokens : included.length * tokenCost surroundings.longestText deeper ≤
      surroundings.longestText * tokenCost surroundings.longestText deeper :=
    Nat.mul_le_mul_right _ hLength
  have hDepth : 1 + (surroundings.longestText + 1) * tokenCost surroundings.longestText deeper ≤
      tokenCost surroundings.longestText depth := tokenCost_mono hFewer
  rw [Nat.succ_mul] at hDepth
  omega

/-- Whatever a statement does to the tokens, less is to come than before. -/
theorem FileEffect.cost_lt {front rest brought : List Token} {openFiles others : List Spot}
    {command : Command} (h : FileEffect surroundings openFiles command brought others)
    (hFront : front ≠ []) (hMarks : Statement.marks front = Statement.closing command) :
    cost surroundings others (brought ++ rest) < cost surroundings openFiles (front ++ rest) := by
  have hPos := cost_pos surroundings openFiles hFront
  rw [cost_append openFiles front, hMarks]
  cases h with
  | none hUse hEnd =>
    have hOpen := Statement.closing_eq_nil hEnd
    rw [hOpen, List.foldl_nil, List.nil_append]
    omega
  | endInclude hFind =>
    simp only [Statement.closing, List.foldl_cons, List.foldl_nil, closeMark, hFind,
      List.nil_append]
    omega
  | use hFind hClosed hText hScan =>
    obtain ⟨token, more, rfl⟩ := List.exists_cons_of_ne_nil hFront
    have hIncluded := cost_included hFind hClosed hText hScan rest
    simp only [Statement.closing, List.foldl_nil, cost]
    omega

theorem Step.cost_lt {state after : State} (h : Step surroundings state after) :
    cost surroundings after.openFiles after.tokens <
      cost surroundings state.openFiles state.tokens := by
  obtain ⟨command, rest, brought, hReads, hFiles, hAfter⟩ := h.fileEffect
  obtain ⟨front, hTokens, hFront, hMarks⟩ := hReads.front
  rw [hTokens, hAfter]
  exact hFiles.cost_lt hFront hMarks

/-- Each step takes something from the cost, so there are no more steps than that. -/
theorem count_le_cost {count : Nat} {states : Nat → State}
    (h : ∀ i < count, Step surroundings (states i) (states (i + 1))) :
    count ≤ cost surroundings (states 0).openFiles (states 0).tokens := by
  induction count generalizing states with
  | zero => exact Nat.zero_le _
  | succ count ih =>
    have hFirst := (h 0 (Nat.succ_pos count)).cost_lt
    have hSteps : ∀ i < count, Step surroundings (states (i + 1)) (states (i + 1 + 1)) :=
      fun i hi => h (i + 1) (by omega)
    have hRest := @ih (fun i => states (i + 1)) hSteps
    simp only [Nat.zero_add] at hFirst hRest
    omega

end

/-! ## Budgets -/

theorem step_ne_exhausted {surroundings : Surroundings} {state : State} {token : Token}
    {rest : List Token} : state.step surroundings token rest ≠ .error .exhausted := by
  unfold State.step
  split
  · next fault _ => cases fault <;> nofun
  · next statement _ _ =>
    intro hFault
    obtain ⟨location, command⟩ := statement
    cases State.perform_met hFault

section
variable {surroundings : Surroundings}

/-- A run with a budget for all its tokens does not spend it, and more would change nothing. -/
theorem run_settles {budget : Nat} {state : State}
    (h : cost surroundings state.openFiles state.tokens ≤ budget) :
    (run surroundings budget state).fault ≠ some .exhausted ∧
      ∀ more, run surroundings (budget + more) state = run surroundings budget state := by
  induction budget generalizing state with
  | zero =>
    cases hTokens : state.tokens with
    | nil => simp [run_nil _ hTokens]
    | cons token rest =>
      have hPos := cost_pos surroundings state.openFiles (List.cons_ne_nil token rest)
      rw [hTokens] at h
      omega
  | succ budget ih =>
    cases hTokens : state.tokens with
    | nil => simp [run_nil _ hTokens]
    | cons token rest =>
      simp only [Nat.add_right_comm budget 1, run_succ _ hTokens]
      cases hStep : state.step surroundings token rest with
      | error fault =>
        refine ⟨?_, fun _ => rfl⟩
        intro hFault
        cases hFault
        exact step_ne_exhausted hStep
      | ok after =>
        have hLess := Step.cost_lt ⟨token, rest, hTokens, hStep⟩
        exact ih (by omega)

theorem cost_le_budgetFor (surroundings : Surroundings) (state : State) :
    cost surroundings state.openFiles state.tokens ≤ budgetFor surroundings state :=
  cost_le state.openFiles state.tokens

/-- An assembly does a bounded number of steps, and its result is a program or a fault that a
statement met: it would be the same however long the run could go on. -/
structure Terminates (surroundings : Surroundings) (source : Source) : Prop where
  bounded : ∀ first, start surroundings source = .ok first →
    ∀ (count : Nat) (states : Nat → State), states 0 = first →
      (∀ i < count, Step surroundings (states i) (states (i + 1))) →
      count ≤ budgetFor surroundings first
  settled : ∀ first, start surroundings source = .ok first →
    ∀ budget ≥ budgetFor surroundings first,
      run surroundings budget first = run surroundings (budgetFor surroundings first) first
  finished : (assemble surroundings source).result ≠ .error .exhausted

theorem terminates (surroundings : Surroundings) (source : Source) :
    Terminates surroundings source := by
  refine ⟨?_, ?_, ?_⟩
  · rintro first - count states rfl hSteps
    exact Nat.le_trans (count_le_cost hSteps) (cost_le_budgetFor surroundings (states 0))
  · intro first _ budget hBudget
    obtain ⟨more, rfl⟩ := Nat.exists_eq_add_of_le hBudget
    exact (run_settles (cost_le_budgetFor surroundings first)).2 more
  · unfold assemble
    split
    · next fault hStart =>
      intro hFault
      cases hFault
      unfold start at hStart
      split at hStart
      · cases hStart
      · split at hStart <;> cases hStart
    · next first _ =>
      have hSettled := (run_settles (cost_le_budgetFor surroundings first)).1
      split
      · next hRun =>
        intro hFault
        cases hFault
        rw [hRun] at hSettled
        exact hSettled rfl
      · split
        · next hResolve =>
          intro hFault
          cases hFault
          unfold State.resolve at hResolve
          simp only at hResolve
          split at hResolve <;> cases hResolve
        · nofun

end

/-! ## Readers -/

theorem finite_char : Finite Char :=
  Finite.of_injective (fun c => c.val.toFin) fun _ _ h => Char.ext (UInt32.toFin_inj.1 h)

theorem length_le_byteLength (text : String) : text.toList.length ≤ FileSystem.byteLength text := by
  unfold FileSystem.byteLength Utf8.encode
  induction text.toList with
  | nil => exact Nat.le_refl 0
  | cons c rest ih =>
    have hChar : 1 ≤ (Utf8.encodeChar c).length := by
      unfold Utf8.encodeChar
      simp only
      split
      · exact Nat.le_refl 1
      · split
        · exact Nat.succ_pos 1
        · split
          · exact Nat.succ_pos 2
          · exact Nat.succ_pos 3
    rw [List.flatMap_cons, List.length_append, List.length_cons]
    omega

/-- There are finitely many paths that can be looked for. -/
theorem finite_paths :
    {text : String | FileSystem.byteLength text ≤ FileSystem.pathLimit}.Finite := by
  have := finite_char
  have hLists := List.finite_length_le Char FileSystem.pathLimit
  have hTexts : (Set.preimage String.toList {l | l.length ≤ FileSystem.pathLimit}).Finite :=
    hLists.preimage fun _ _ _ _ h => String.toList_inj.1 h
  refine hTexts.subset ?_
  intro text hText
  exact Nat.le_trans (length_le_byteLength text) hText

/-- The texts that a function of the path gives can be supplied by a table, however many spellings a
file has. -/
theorem exists_supplies (surroundings : Surroundings) (reader : String → Supply) :
    ∃ supplies : NameMap Supply, ∀ includer name path spot,
      surroundings.find includer name = .found path spot →
      supplies.find? path.text = some (reader path.text) := by
  refine ⟨⟨finite_paths.toFinset.toList.map fun text => (text, reader text)⟩, ?_⟩
  intro includer name path spot hFind
  obtain ⟨number, data, hLocate⟩ := Surroundings.locate_of_find hFind
  have hShort : FileSystem.byteLength path.text ≤ FileSystem.pathLimit := by
    have hFree := (FileSystem.locate_ok_iff.1 hLocate).1
    unfold FileSystem.pathFault? at hFree
    split at hFree
    · cases hFree
    · split at hFree
      · cases hFree
      · next hShort => exact Nat.not_lt.1 hShort
  apply List.lookup_graph
  simpa using hShort

/-- Assembling terminates: for all files, whether their texts are read or come from a function of
the path, and for all tokens. -/
theorem assemble_terminates (surroundings : Surroundings) (source : Source) :
    Terminates surroundings source ∧ ∀ reader : String → Supply, ∃ supplies : NameMap Supply,
      (∀ includer name path spot, surroundings.find includer name = .found path spot →
        supplies.find? path.text = some (reader path.text)) ∧
      Terminates { surroundings with supplies := some supplies } source := by
  refine ⟨terminates surroundings source, ?_⟩
  intro reader
  obtain ⟨supplies, hSupplies⟩ := exists_supplies surroundings reader
  exact ⟨supplies, hSupplies, terminates _ source⟩

theorem assemble_terminates_cycle :
    ∃ tokens, scan ".use \"a\"\n" "<input>" = .ok tokens ∧
      (match (assemble (workingDirectory [("a", ".use \"b\""), ("b", "nop\n.use \"./a\"")])
          ⟨tokens, "<input>", none, .empty⟩).result with
        | .error (.diagnostic diagnostic) => some diagnostic.cause
        | _ => none) = some (.inclusion "./a" (.circular ["a", "b", "a"]) []) ∧
      Terminates (workingDirectory [("a", ".use \"b\""), ("b", "nop\n.use \"./a\"")])
        ⟨tokens, "<input>", none, .empty⟩ := by
  have hRun : ((scan ".use \"a\"\n" "<input>").toOption.map fun tokens =>
      match (assemble (workingDirectory [("a", ".use \"b\""), ("b", "nop\n.use \"./a\"")])
          ⟨tokens, "<input>", none, .empty⟩).result with
        | .error (.diagnostic diagnostic) => some diagnostic.cause
        | _ => none) = some (some (.inclusion "./a" (.circular ["a", "b", "a"]) [])) := by
    decide +kernel
  obtain ⟨tokens, hScan, hRun⟩ := Option.map_eq_some_iff.1 hRun
  exact ⟨tokens, eq_ok_of_toOption hScan, hRun, (assemble_terminates _ _).1⟩

end Assembly
end Lr35902
