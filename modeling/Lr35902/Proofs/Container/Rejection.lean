import Lr35902.Proofs.Container.Contents

/-!
What is no container. Every rejection names a flaw that the bytes have (`read_flaw`): they end too
early, begin with another magic text, hold a text that is not UTF-8, or go on behind a container.
A reader that has enough bytes does the same whatever follows (`Reader.Steady`), so that cutting a
container anywhere leaves one that ends too early, and nothing can be put behind one
(`read_prefix_free`). The number of symbols that a container announces does not matter beyond what
its bytes can hold (`takeSymbols_min`).
-/
namespace Lr35902.Library

open MachineCode (littleEndian)

/-! ## Readers with more behind -/

/-- What is unread, with more behind it. -/
def Unread.extend (unread : Unread) (more : Bytes) : Unread :=
  ⟨unread.offset, unread.bytes ++ more⟩

/-- The offset at which what is unread ends. -/
def Unread.finish (unread : Unread) : Nat := unread.offset + unread.bytes.length

theorem Unread.Starts.extend {unread after : Unread} {piece : Bytes} (h : unread.Starts piece after)
    (more : Bytes) : (unread.extend more).Starts piece (after.extend more) := by
  obtain ⟨hBytes, hOffset⟩ := h
  refine ⟨?_, hOffset⟩
  simp only [Unread.extend, hBytes, List.append_assoc]

theorem Unread.Starts.finish_eq {unread after : Unread} {piece : Bytes}
    (h : unread.Starts piece after) : after.finish = unread.finish := by
  obtain ⟨hBytes, hOffset⟩ := h
  rw [finish, finish, hBytes, hOffset, List.length_append, Nat.add_assoc]

/-- The error says that a field needs more bytes than are left. -/
def CutShort (unread : Unread) (error : FormatError) : Prop :=
  ∃ field needed offset left, error = .truncated field needed offset left ∧ left < needed ∧
    offset + left = unread.finish

/-- Taking a piece first does not move the end. -/
theorem CutShort.after {unread after : Unread} {piece : Bytes} {error : FormatError}
    (h : CutShort after error) (hStarts : unread.Starts piece after) : CutShort unread error := by
  obtain ⟨field, needed, offset, left, hError, hLeft, hEnd⟩ := h
  exact ⟨field, needed, offset, left, hError, hLeft, hEnd.trans hStarts.finish_eq⟩

/-- The error says that a text is not UTF-8, and the bytes hold such a text. -/
def Misspelt (bytes : Bytes) (error : FormatError) : Prop :=
  ∃ field raw, error = .notUtf8 field ∧ packBytes raw <:+: bytes ∧ ∀ text, raw ≠ Utf8.encode text

/-- The reader takes from the front only, and once it has enough bytes it does the same whatever
follows them. -/
structure Reader.Steady {α : Type} (take : Reader α) : Prop where
  ok : ∀ {unread after value}, take unread = .ok (value, after) →
    (∃ piece, unread.Starts piece after) ∧
      ∀ more, take (unread.extend more) = .ok (value, after.extend more)
  error : ∀ {unread error}, take unread = .error error →
    CutShort unread error ∨
      Misspelt unread.bytes error ∧ ∀ more, take (unread.extend more) = .error error

theorem Misspelt.mono {bytes rest : Bytes} {error : FormatError} (h : Misspelt rest error)
    (hRest : rest <:+: bytes) : Misspelt bytes error := by
  obtain ⟨field, raw, hError, hRaw, hText⟩ := h
  exact ⟨field, raw, hError, hRaw.trans hRest, hText⟩

theorem Unread.Starts.within {unread after : Unread} {piece : Bytes}
    (h : unread.Starts piece after) :
    after.bytes <:+: unread.bytes := by
  rw [h.1]
  exact (List.suffix_append piece after.bytes).isInfix

namespace Reader

variable {α β : Type}

theorem andThen_ok {first : Reader α} {next : α → Reader β} {unread between : Unread} {value : α}
    (h : first unread = .ok (value, between)) : first.andThen next unread = next value between := by
  rw [andThen, h]

theorem andThen_error {first : Reader α} {next : α → Reader β} {unread : Unread}
    {error : FormatError} (h : first unread = .error error) :
    first.andThen next unread = .error error := by
  rw [andThen, h]

theorem Steady.give (value : α) : (give value).Steady where
  ok := by
    intro unread after _ h
    cases h
    exact ⟨⟨[], Unread.starts_nil_iff.2 rfl⟩, fun more => rfl⟩
  error := by
    intro unread error h
    cases h

/-- Steady readers one after another are steady: the second starts where the first has ended, and
what is unread ends where it did. -/
theorem Steady.andThen {first : Reader α} {next : α → Reader β} (hFirst : first.Steady)
    (hNext : ∀ value, (next value).Steady) : (first.andThen next).Steady where
  ok := by
    intro unread after b h
    obtain ⟨a, between, hTake, hRest⟩ := andThen_ok_iff.1 h
    obtain ⟨⟨piece, hPiece⟩, hMore⟩ := hFirst.ok hTake
    obtain ⟨⟨second, hSecond⟩, hRestMore⟩ := (hNext a).ok hRest
    refine ⟨⟨piece ++ second, Unread.starts_append_iff.2 ⟨between, hPiece, hSecond⟩⟩, ?_⟩
    intro more
    rw [andThen_ok (hMore more), hRestMore more]
  error := by
    intro unread error h
    cases hTake : first unread with
    | error fault =>
      rw [andThen_error hTake] at h
      cases h
      rcases hFirst.error hTake with hShort | ⟨hText, hMore⟩
      · exact .inl hShort
      · exact .inr ⟨hText, fun more => andThen_error (hMore more)⟩
    | ok taken =>
      obtain ⟨a, between⟩ := taken
      rw [andThen_ok hTake] at h
      obtain ⟨⟨piece, hPiece⟩, hMore⟩ := hFirst.ok hTake
      rcases (hNext a).error h with hShort | ⟨hText, hRestMore⟩
      · exact .inl (hShort.after hPiece)
      · refine .inr ⟨hText.mono hPiece.within, fun more => ?_⟩
        rw [andThen_ok (hMore more), hRestMore more]

end Reader

/-! ## The readers of a container -/

section
variable (field lengthField : LibraryField)

theorem steady_takeBytes (n : Nat) : Reader.Steady (takeBytes field n) where
  ok := by
    intro unread after bytes h
    obtain ⟨hLength, hStarts⟩ := takeBytes_ok_iff.1 h
    exact ⟨⟨bytes, hStarts⟩, fun more => takeBytes_ok_iff.2 ⟨hLength, hStarts.extend more⟩⟩
  error := by
    intro unread error h
    simp only [takeBytes, List.length_take] at h
    split at h
    · cases h
    · next hLength =>
      cases h
      exact .inl ⟨field, n, unread.offset, unread.bytes.length, rfl, by omega, rfl⟩

theorem steady_takeNumber (width : Nat) : Reader.Steady (takeNumber field width) := by
  rw [takeNumber_eq]
  exact (steady_takeBytes field width).andThen fun bytes => .give _

theorem steady_takeBlock : Reader.Steady (takeBlock lengthField field) := by
  rw [takeBlock_eq]
  exact (steady_takeNumber lengthField 8).andThen (steady_takeBytes field)

theorem steady_takeText : Reader.Steady (takeText lengthField field) where
  ok := by
    intro unread after text h
    obtain ⟨hLimit, hStarts⟩ := takeText_ok_iff.1 h
    exact ⟨⟨packText text, hStarts⟩, fun more => takeText_ok_iff.2 ⟨hLimit, hStarts.extend more⟩⟩
  error := by
    intro unread error h
    rw [takeText_eq] at h ⊢
    cases hTake : takeBlock lengthField field unread with
    | error fault =>
      rw [Reader.andThen_error hTake] at h
      cases h
      rcases (steady_takeBlock field lengthField).error hTake with hShort | ⟨hText, hMore⟩
      · exact .inl hShort
      · exact .inr ⟨hText, fun more => Reader.andThen_error (hMore more)⟩
    | ok taken =>
      -- the block is there, so that the text in it is at fault
      obtain ⟨raw, rest⟩ := taken
      obtain ⟨-, hBlock⟩ := takeBlock_ok_iff.1 hTake
      rw [Reader.andThen_ok hTake] at h
      obtain ⟨hError, hText⟩ := textOf_error_iff.1 h
      refine .inr ⟨⟨field, raw, hError, ?_, hText⟩, fun more => ?_⟩
      · rw [hBlock.1]
        exact (List.prefix_append (packBytes raw) rest.bytes).isInfix
      · rw [Reader.andThen_ok (((steady_takeBlock field lengthField).ok hTake).2 more)]
        exact textOf_error_iff.2 ⟨hError, hText⟩

end

theorem steady_takeSymbol : Reader.Steady takeSymbol := by
  rw [takeSymbol_eq]
  refine (steady_takeText _ _).andThen fun name => ?_
  exact (steady_takeNumber _ _).andThen fun address => .give _

theorem steady_takeSymbols (known : NameMap Nat) (count : Nat) :
    Reader.Steady (takeSymbols known count) := by
  induction count generalizing known with
  | zero => exact Reader.Steady.give known
  | succ count ih =>
    rw [takeSymbols_eq]
    exact steady_takeSymbol.andThen fun symbol => ih _

theorem steady_takeBody (magic : String) : (takeBody magic).Steady := by
  unfold takeBody
  refine (steady_takeText _ _).andThen fun version => ?_
  refine (steady_takeBlock _ _).andThen fun code => ?_
  refine (steady_takeNumber _ _).andThen fun count => ?_
  exact (steady_takeSymbols _ _).andThen fun symbols => .give _

/-! ## Flaws -/

/-- What is wrong with bytes that are refused. -/
inductive Flaw (bytes : Bytes) : FormatError → Prop where
  | truncated {field : LibraryField} {needed offset left : Nat} :
      left < needed → offset + left = bytes.length →
      Flaw bytes (.truncated field needed offset left)
  | badMagic {found : String} :
      found ≠ standardMagic → packText found <+: bytes → Flaw bytes (.badMagic found)
  | notUtf8 {field : LibraryField} {raw : Bytes} :
      packBytes raw <:+: bytes → (∀ text, raw ≠ Utf8.encode text) → Flaw bytes (.notUtf8 field)
  | trailing {contents : Contents} {more : Bytes} :
      bytes = contents.bytes ++ more → more ≠ [] → Flaw bytes (.trailing more.length)

theorem CutShort.flaw {bytes : Bytes} {unread : Unread} {error : FormatError}
    (h : CutShort unread error) (hFinish : unread.finish = bytes.length) : Flaw bytes error := by
  obtain ⟨field, needed, offset, left, rfl, hLeft, hEnd⟩ := h
  exact .truncated hLeft (hEnd.trans hFinish)

theorem Misspelt.flaw {bytes : Bytes} {error : FormatError} (h : Misspelt bytes error) :
    Flaw bytes error := by
  obtain ⟨field, raw, rfl, hRaw, hText⟩ := h
  exact .notUtf8 hRaw hText

/-- A library cannot be taken when the bytes end too early, or else for a reason that no more bytes
remove. -/
theorem takeLibrary_error {unread : Unread} {error : FormatError}
    (h : takeLibrary unread = .error error) :
    CutShort unread error ∨
      Flaw unread.bytes error ∧ ∀ more, takeLibrary (unread.extend more) = .error error := by
  unfold takeLibrary at h ⊢
  cases hTake : takeText .magicLength .magic unread with
  | error fault =>
    rw [Reader.andThen_error hTake] at h
    cases h
    rcases (steady_takeText _ _).error hTake with hShort | ⟨hText, hMore⟩
    · exact .inl hShort
    · exact .inr ⟨hText.flaw, fun more => Reader.andThen_error (hMore more)⟩
  | ok taken =>
    obtain ⟨magic, between⟩ := taken
    obtain ⟨-, hStarts⟩ := takeText_ok_iff.1 hTake
    obtain ⟨-, hTakeMore⟩ := (steady_takeText _ _).ok hTake
    rw [Reader.andThen_ok hTake] at h
    by_cases hMagic : magic = standardMagic
    · have hCheck (unread : Unread) : checkMagic magic unread = .ok ((), unread) :=
        checkMagic_ok_iff.2 ⟨hMagic, rfl⟩
      rw [Reader.andThen_ok (hCheck between)] at h
      rcases (steady_takeBody magic).error h with hShort | ⟨hText, hMore⟩
      · exact .inl (hShort.after hStarts)
      · refine .inr ⟨(hText.mono hStarts.within).flaw, fun more => ?_⟩
        rw [Reader.andThen_ok (hTakeMore more), Reader.andThen_ok (hCheck _), hMore more]
    · have hCheck (unread : Unread) : checkMagic magic unread = .error (.badMagic magic) :=
        if_pos hMagic
      rw [Reader.andThen_error (hCheck between)] at h
      cases h
      refine .inr ⟨.badMagic hMagic ⟨between.bytes, hStarts.1.symm⟩, fun more => ?_⟩
      rw [Reader.andThen_ok (hTakeMore more), Reader.andThen_error (hCheck _)]

/-- Bytes are refused for a flaw that they have, and unless they end too early or go on behind a
container, more bytes do not change that. -/
theorem read_error {bytes : Bytes} {error : FormatError} (h : read bytes = .error error) :
    CutShort ⟨0, bytes⟩ error ∨
      (∃ contents : Contents, ∃ more, bytes = contents.bytes ++ more ∧ more ≠ [] ∧
        error = .trailing more.length) ∨
      Flaw bytes error ∧ ∀ more, read (bytes ++ more) = .error error := by
  cases hTake : takeLibrary ⟨0, bytes⟩ with
  | error fault =>
    rw [read_eq, hTake] at h
    cases h
    rcases takeLibrary_error hTake with hShort | ⟨hFlaw, hMore⟩
    · exact .inl hShort
    · refine .inr (.inr ⟨hFlaw, fun more => ?_⟩)
      have hExtended : takeLibrary ⟨0, bytes ++ more⟩ = .error error := hMore more
      rw [read_eq, hExtended]
  | ok taken =>
    obtain ⟨library, rest⟩ := taken
    obtain ⟨contents, ⟨hBytes, -⟩, rfl⟩ := takeLibrary_ok_iff.1 hTake
    have hRead := read_bytes_append contents rest.bytes
    have hBytes : bytes = contents.bytes ++ rest.bytes := hBytes
    rw [← hBytes, h] at hRead
    split at hRead
    · cases hRead
    · next hRest =>
      cases hRead
      exact .inr (.inl ⟨contents, rest.bytes, hBytes, by simpa using hRest, rfl⟩)

theorem read_flaw {bytes : Bytes} {error : FormatError} (h : read bytes = .error error) :
    Flaw bytes error := by
  rcases read_error h with hShort | ⟨contents, more, hBytes, hMore, rfl⟩ | ⟨hFlaw, -⟩
  · exact hShort.flaw (Nat.zero_add _)
  · exact .trailing hBytes hMore
  · exact hFlaw

/-- What is cut off a container leaves bytes that end too early. -/
theorem read_front {contents : Contents} {front more : Bytes} (h : contents.bytes = front ++ more)
    (hMore : more ≠ []) : ∃ error, read front = .error error ∧ CutShort ⟨0, front⟩ error := by
  have hRead : read (front ++ more) = .ok contents.library := read_ok_iff.2 ⟨contents, h.symm, rfl⟩
  cases hFront : read front with
  | ok library =>
    -- a container that goes on would be refused
    obtain ⟨other, rfl, -⟩ := read_ok_iff.1 hFront
    rw [read_bytes_append, if_neg (by simpa using hMore)] at hRead
    cases hRead
  | error error =>
    refine ⟨error, rfl, ?_⟩
    rcases read_error hFront with hShort | ⟨other, extra, rfl, hExtra, -⟩ | ⟨-, hLasts⟩
    · exact hShort
    · rw [List.append_assoc, read_bytes_append, if_neg (by simp [hExtra])] at hRead
      cases hRead
    · rw [hLasts more] at hRead
      cases hRead

/-! ## How many symbols are looked at -/

theorem length_packSymbol (symbol : String × Nat) : 10 ≤ (packSymbol symbol).length := by
  simp only [packSymbol, packText, packBytes, List.length_append, length_littleEndian]
  omega

/-- However many symbols are announced, no more are looked at than the bytes can hold, and one in
which they end. -/
theorem takeSymbols_min (known : NameMap Nat) (count : Nat) {bound : Nat} {unread : Unread}
    (h : unread.bytes.length / 10 < bound) :
    takeSymbols known count unread = takeSymbols known (min count bound) unread := by
  induction count generalizing known bound unread with
  | zero => rw [Nat.zero_min]
  | succ count ih =>
    obtain ⟨bound, rfl⟩ := Nat.exists_eq_add_one_of_ne_zero (Nat.ne_zero_of_lt h)
    rw [Nat.succ_min_succ, takeSymbols_eq, takeSymbols_eq]
    cases hTake : takeSymbol unread with
    | error error => rw [Reader.andThen_error hTake, Reader.andThen_error hTake]
    | ok taken =>
      obtain ⟨symbol, rest⟩ := taken
      rw [Reader.andThen_ok hTake, Reader.andThen_ok hTake]
      -- a symbol has at least ten bytes, so that the rest can hold one less
      obtain ⟨-, hBytes, -⟩ := takeSymbol_ok_iff.1 hTake
      have hSymbol := length_packSymbol symbol
      have hLength := congrArg List.length hBytes
      rw [List.length_append] at hLength
      exact ih _ (by omega)

/-! ## Containers and nothing else -/

theorem Contents.address_le (contents : Contents) {name : String} {address : Nat}
    (h : contents.library.symbols.find? name = some address) : address ≤ 0xFFFF := by
  have hMem := (NameMap.distinct_ofList contents.symbols).find?_eq_some_iff.1 h
  exact (contents.symbols_fit _ (NameMap.mem_of_mem_ofList hMem)).address

/-- Bytes that are the container of nothing are refused for a flaw that they have. All others give a
library, whose addresses have 16 bits; such bytes cut short are refused because they end too early,
and with more behind them because of that. Whatever number of symbols is announced, the bytes limit
how many are looked at. -/
theorem read_prefix_free (bytes : Bytes) :
    (∀ known count (unread : Unread), takeSymbols known count unread =
      takeSymbols known (min count (unread.bytes.length / 10 + 1)) unread) ∧
    ((∃ error, read bytes = .error error ∧ Flaw bytes error ∧
        ∀ contents : Contents, contents.bytes ≠ bytes) ∨
      ∃ library, read bytes = .ok library ∧
        (∀ name address, library.symbols.find? name = some address → address ≤ 0xFFFF) ∧
        (∀ front, front <+: bytes → front ≠ bytes →
          ∃ error, read front = .error error ∧ CutShort ⟨0, front⟩ error) ∧
        ∀ more, more ≠ [] → read (bytes ++ more) = .error (.trailing more.length)) := by
  refine ⟨fun known count unread => takeSymbols_min known count (Nat.lt_succ_self _), ?_⟩
  cases hRead : read bytes with
  | error error =>
    refine .inl ⟨error, rfl, read_flaw hRead, ?_⟩
    rintro contents rfl
    rw [read_ok_iff.2 ⟨contents, rfl, rfl⟩] at hRead
    cases hRead
  | ok library =>
    obtain ⟨contents, rfl, rfl⟩ := read_ok_iff.1 hRead
    refine .inr ⟨_, rfl, fun name address => contents.address_le, ?_, ?_⟩
    · rintro front ⟨more, hMore⟩ hProper
      refine read_front hMore.symm ?_
      rintro rfl
      exact hProper (List.append_nil front ▸ hMore)
    · intro more hMore
      rw [read_bytes_append, if_neg (by simpa using hMore)]

end Lr35902.Library
