import Lr35902.Proofs.TwoPass.Passes

/-!
Sources that correspond to each other, statement by statement. If whatever is read from one list of
tokens can be read from another with a command that does the like (`Lockstep`), then the traces
correspond too, and open and close the same files (`Lockstep.trace`); in a `Simulation` the like is
said of their clauses. Clauses that are alike under a table have the same bytes and definitions
(`Output.congr`).
-/
namespace Lr35902.TwoPass

open Assembly (Trace FileEffect)

/-! ## Commands and traces -/

/-- Commands that do the like: they have clauses that are the same in some sense, or they do the
same to the files. -/
inductive Corresponding (Same : Clause → Clause → Prop) : Command → Command → Prop
  | clause {command other : Command} {clause same : Clause} :
    ofCommand command = [clause] → ofCommand other = [same] → Same clause same →
    Corresponding Same command other
  | blank : Corresponding Same .blank .blank
  | endInclude {file : FileMark} : Corresponding Same (.endInclude file) (.endInclude file)
  | use {file : String} {location other : Location} : location.file = other.file →
    Corresponding Same (.use file location) (.use file other)

section
variable {Same : Clause → Clause → Prop} {command other : Command}

theorem Corresponding.refl (hSame : ∀ clause, Same clause clause) (command : Command) :
    Corresponding Same command command := by
  cases command with
  | blank => exact .blank
  | endInclude => exact .endInclude
  | use => exact .use rfl
  | _ => exact .clause rfl rfl (hSame _)

theorem Corresponding.clauses (h : Corresponding Same command other) :
    List.Forall₂ Same (ofCommand command) (ofCommand other) := by
  cases h with
  | clause hCommand hOther hSame =>
    rw [hCommand, hOther]
    exact .cons hSame .nil
  | blank => exact .nil
  | endInclude => exact .nil
  | use _ => exact .nil

theorem Corresponding.fileEffect (h : Corresponding Same command other)
    {surroundings : Surroundings} {openFiles others : List Spot} {brought : List Token}
    (hFiles : FileEffect surroundings openFiles command brought others) :
    FileEffect surroundings openFiles other brought others := by
  cases h with
  | clause hCommand hOther _ =>
    obtain ⟨rfl, rfl⟩ := eq_of_fileEffect hFiles hCommand
    exact fileEffect_of_clause hOther
  | blank => exact hFiles
  | endInclude => exact hFiles
  | use hFile =>
    cases hFiles with
    | none hUse _ => exact absurd rfl (hUse _ _)
    | use hFind hClosed hText hScan =>
      rw [hFile] at hFind
      exact .use hFind hClosed hText hScan

end

/-- Tokens are related in such a way that every statement of the one has one of the other that does
the like, also to the files, as long as it is allowed; and the tokens after it are related again. -/
structure Lockstep (Related : List Token → List Token → Prop) (Allowed : Command → Prop)
    (Like : Command → Command → Prop) : Prop where
  done : ∀ {others}, Related [] others → others = []
  read : ∀ {tokens others rest command}, Related tokens others →
    Statement.Reads tokens command rest → Allowed command →
    ∃ other left, Statement.Reads others other left ∧ Like command other ∧ Related rest left
  files : ∀ {surroundings openFiles command other brought middle}, Like command other →
    FileEffect surroundings openFiles command brought middle →
    FileEffect surroundings openFiles other brought middle
  brought : ∀ {surroundings openFiles command brought middle rest left},
    FileEffect surroundings openFiles command brought middle → Related rest left →
    Related (brought ++ rest) (brought ++ left)

/-- Related tokens have traces whose statements do the like, one by one. -/
theorem Lockstep.trace {Related : List Token → List Token → Prop} {Allowed : Command → Prop}
    {Like : Command → Command → Prop} (h : Lockstep Related Allowed Like)
    {surroundings : Surroundings} {tokens others : List Token} {openFiles last : List Spot}
    {statements : List Statement} (hTrace : Trace surroundings tokens openFiles statements last)
    (hRelated : Related tokens others)
    (hAllowed : ∀ statement ∈ statements, Allowed statement.command) :
    ∃ more, Trace surroundings others openFiles more last ∧
      List.Forall₂ (fun statement other => Like statement.command other.command) statements
        more := by
  induction hTrace generalizing others with
  | done =>
    obtain rfl := h.done hRelated
    exact ⟨[], .done, .nil⟩
  | @step token tokens rest brought _ _ _ statement statements hRead hFiles _ ih =>
    obtain ⟨hHere, hLater⟩ := List.forall_mem_cons.1 hAllowed
    have hReads := (Statement.read_ok_iff.1 hRead).2
    obtain ⟨command, left, hOther, hLike, hLeft⟩ := h.read hRelated hReads hHere
    obtain ⟨more, hMore, hStatements⟩ := ih (h.brought hFiles hLeft) hLater
    obtain ⟨front, hFront, hSome, -⟩ := hOther.front
    obtain ⟨first, front, rfl⟩ := List.exists_cons_of_ne_nil hSome
    rw [List.cons_append] at hFront
    rw [hFront] at hOther ⊢
    have hSame := h.files hLike hFiles
    refine ⟨⟨first.location, command⟩ :: more, .step ?_ hSame hMore, .cons hLike hStatements⟩
    exact Statement.read_ok_iff.2 ⟨rfl, hOther⟩

/-- Tokens are related in such a way that every statement of the one has one of the other, as long
as its clause is allowed, and the tokens after it are related again. -/
structure Simulation (Related : List Token → List Token → Prop) (Allowed : Clause → Prop)
    (Same : Clause → Clause → Prop) : Prop where
  done : ∀ {others}, Related [] others → others = []
  read : ∀ {tokens others rest command}, Related tokens others →
    Statement.Reads tokens command rest → (∀ clause ∈ ofCommand command, Allowed clause) →
    ∃ other left, Statement.Reads others other left ∧ Corresponding Same command other ∧
      Related rest left
  brought : ∀ {surroundings openFiles command brought middle rest left},
    FileEffect surroundings openFiles command brought middle → Related rest left →
    Related (brought ++ rest) (brought ++ left)

theorem clausesOf_corresponding {Same : Clause → Clause → Prop} {statements more : List Statement}
    (h : List.Forall₂ (fun statement other => Corresponding Same statement.command other.command)
      statements more) :
    List.Forall₂ Same (clausesOf statements) (clausesOf more) := by
  induction h with
  | nil => exact .nil
  | cons hHead _ ih =>
    rw [clausesOf_cons, clausesOf_cons]
    exact List.rel_append hHead.clauses ih

theorem Simulation.trace {Related : List Token → List Token → Prop} {Allowed : Clause → Prop}
    {Same : Clause → Clause → Prop} (h : Simulation Related Allowed Same)
    {surroundings : Surroundings} {tokens others : List Token} {openFiles last : List Spot}
    {statements : List Statement} (hTrace : Trace surroundings tokens openFiles statements last)
    (hRelated : Related tokens others)
    (hAllowed : ∀ clause ∈ clausesOf statements, Allowed clause) :
    ∃ more, Trace surroundings others openFiles more last ∧
      List.Forall₂ Same (clausesOf statements) (clausesOf more) := by
  have hLockstep : Lockstep Related (fun command => ∀ clause ∈ ofCommand command, Allowed clause)
      (Corresponding Same) :=
    ⟨h.done, h.read, fun hSame hFiles => hSame.fileEffect hFiles, h.brought⟩
  obtain ⟨more, hMore, hStatements⟩ := hLockstep.trace hTrace hRelated
    fun statement hStatement clause hClause =>
      hAllowed clause (List.mem_flatMap.2 ⟨statement, hStatement, hClause⟩)
  exact ⟨more, hMore, clausesOf_corresponding hStatements⟩

/-! ## Clauses -/

/-- Clauses that neither pass tells apart. -/
structure Alike (table : List Definition) (clause other : Clause) : Prop where
  size_eq : ∀ address, clause.size address = other.size address
  admissible_eq : ∀ address, clause.admissible address = other.admissible address
  definition?_eq : ∀ address, clause.definition? address = other.definition? address
  encode?_eq : ∀ address, clause.encode? table address = other.encode? table address

theorem Alike.refl (table : List Definition) (clause : Clause) : Alike table clause clause :=
  ⟨fun _ => rfl, fun _ => rfl, fun _ => rfl, fun _ => rfl⟩

section
variable {table : List Definition} {clauses others : List Clause}

theorem addressed_alike (h : List.Forall₂ (Alike table) clauses others) (address : Int) :
    ((∀ place ∈ addressed address clauses, place.2.admissible place.1 = true) →
        ∀ place ∈ addressed address others, place.2.admissible place.1 = true) ∧
      definedIn (addressed address clauses) = definedIn (addressed address others) ∧
      ∀ parts, Encoded table (addressed address clauses) parts →
        Encoded table (addressed address others) parts := by
  induction h generalizing address with
  | nil => exact ⟨id, rfl, fun _ => id⟩
  | @cons clause other clauses others hAlike _ ih =>
    obtain ⟨hAdmissible, hDefined, hEncoded⟩ := ih (address + clause.size address)
    simp only [addressed]
    rw [← hAlike.size_eq address]
    refine ⟨?_, ?_, ?_⟩
    · intro hAll
      obtain ⟨hHere, hLater⟩ := List.forall_mem_cons.1 hAll
      refine List.forall_mem_cons.2 ⟨?_, hAdmissible hLater⟩
      rw [← hAlike.admissible_eq address]
      exact hHere
    · rw [definedIn_cons, definedIn_cons, hAlike.definition?_eq address, hDefined]
    · intro parts hParts
      obtain ⟨part, more, hPart, hMore, rfl⟩ := List.forall₂_cons_left_iff.1 hParts
      refine .cons ?_ (hEncoded more hMore)
      rw [← hAlike.encode?_eq address]
      exact hPart

theorem Output.congr {defines : List (String × Int)} {code : Bytes}
    (h : Output defines clauses code table) (hAlike : List.Forall₂ (Alike table) clauses others) :
    Output defines others code table := by
  obtain ⟨hAdmissible, hTable, hDistinct, parts, hParts, hCode⟩ := h
  obtain ⟨hOther, hDefined, hEncoded⟩ := addressed_alike hAlike 0
  refine ⟨hOther hAdmissible, ?_, hDistinct, parts, hEncoded parts hParts, hCode⟩
  rw [hTable, definitions, definitions, hDefined]

end

end Lr35902.TwoPass
