import Lr35902.MachineCode
import Lr35902.Proofs.Layout
import Mathlib.Data.List.Forall2

/-!
The delivery of programs, also of such as no source gives: items may have any size, any count and
any address. The loop behind a run writes full chunks and then what is left (`runFrom_eq`), so a run
is delivered whole in chunks of any size, and nothing is delivered for a run of negative length
(`runWrites_chunked`). Delivery goes through the items up to the first one that is refused
(`accounted_or_refused`); each item before it has delivered as many bytes as its size says, or none
if its size is negative (`length_itemWrites`). Comparing sizes therefore finds every mistake but
one: a run of negative length counts for less than nothing (`guard_exact_iff`).
-/
namespace Lr35902

theorem exists_of_forall₂ {α β : Type} {R : α → β → Prop} {as : List α} {bs : List β}
    (h : List.Forall₂ R as bs) {a : α} (hMem : a ∈ as) : ∃ b, R a b := by
  induction h with
  | nil => cases hMem
  | cons hHead _ ih =>
    rcases List.mem_cons.1 hMem with rfl | hMem
    · exact ⟨_, hHead⟩
    · exact ih hMem

/-- The length and the byte of the run that an item is. -/
def Item.run? (item : Item) : Option (Int × Int) :=
  match item.content with
  | .fill count value => some (count, value)
  | .pad target value => some (target - item.address, value)
  | _ => none

namespace MachineCode

/-! ## Runs -/

/-- What the loop adds to the writes before it: full chunks, and a shorter one unless the chunk size
divides the length. -/
theorem runFrom_eq (chunk : ChunkSize) (byte : UInt8) (done : List Bytes) (remaining : Nat) :
    runFrom chunk byte done remaining =
      done.reverse ++
        (List.replicate (remaining / chunk.size) (List.replicate chunk.size byte) ++
          if remaining % chunk.size = 0 then []
          else [List.replicate (remaining % chunk.size) byte]) := by
  have hChunk := chunk.positive
  fun_induction runFrom chunk byte done remaining with
  | case1 done remaining hSome length ih =>
    rw [ih, List.reverse_cons, List.append_assoc]
    congr 1
    by_cases hFull : chunk.size ≤ remaining
    · have hLength : length = chunk.size := Nat.min_eq_right hFull
      rw [hLength, Nat.div_eq_sub_div hChunk hFull, Nat.mod_eq_sub_mod hFull, List.replicate_succ]
      rfl
    · have hLess : remaining < chunk.size := Nat.not_le.1 hFull
      have hLength : length = remaining := Nat.min_eq_left (Nat.le_of_lt hLess)
      rw [hLength, Nat.sub_self, Nat.zero_div, Nat.zero_mod, Nat.div_eq_of_lt hLess,
        Nat.mod_eq_of_lt hLess, if_pos rfl, if_neg (Nat.ne_of_gt hSome)]
      rfl
  | case2 done remaining hNone =>
    obtain rfl : remaining = 0 := by omega
    rw [Nat.zero_div, Nat.zero_mod, if_pos rfl]
    exact (List.append_nil _).symm

/-- Writes that deliver `count` bytes of one value in chunks: full ones, then at most one that is
shorter and not empty. -/
structure Chunked (chunk : ChunkSize) (count value : Int) (writes : List Bytes) : Prop where
  shape : ∃ full last, writes = full ++ last ∧ (∀ write ∈ full, write.length = chunk.size) ∧
    (last = [] ∨ ∃ write, last = [write] ∧ 0 < write.length ∧ write.length < chunk.size)
  bytes : ∀ write ∈ writes, ∀ byte ∈ write, (byte.toNat : Int) = value
  length : (writes.flatten.length : Int) = count

theorem chunked_runFrom (chunk : ChunkSize) (byte : UInt8) (count : Nat) :
    Chunked chunk count byte.toNat (runFrom chunk byte [] count) := by
  rw [runFrom_eq, List.reverse_nil, List.nil_append]
  -- the last write, if there is one, is what division leaves over
  have hLast : ∀ write ∈ (if count % chunk.size = 0 then []
      else [List.replicate (count % chunk.size) byte]), ∀ b ∈ write, b = byte := by
    intro write hWrite b hb
    split at hWrite
    · cases hWrite
    · rw [List.mem_singleton.1 hWrite] at hb
      exact List.eq_of_mem_replicate hb
  refine ⟨⟨_, _, rfl, ?_, ?_⟩, ?_, ?_⟩
  · intro write hWrite
    rw [List.eq_of_mem_replicate hWrite, List.length_replicate]
  · split
    · exact .inl rfl
    · next hSome =>
      refine .inr ⟨_, rfl, ?_, ?_⟩
      · rw [List.length_replicate]
        exact Nat.pos_of_ne_zero hSome
      · rw [List.length_replicate]
        exact Nat.mod_lt count chunk.positive
  · intro write hWrite b hb
    rcases List.mem_append.1 hWrite with hFull | hRest
    · rw [List.eq_of_mem_replicate hFull] at hb
      rw [List.eq_of_mem_replicate hb]
    · rw [hLast write hRest b hb]
  · have hRest : (if count % chunk.size = 0 then []
        else [List.replicate (count % chunk.size) byte]).flatten.length = count % chunk.size := by
      split
      · next hZero => rw [hZero]; rfl
      · rw [List.flatten_singleton, List.length_replicate]
    rw [List.flatten_append, List.length_append, hRest, List.flatten_replicate_replicate,
      List.length_replicate, Nat.div_add_mod']

/-- A run that is delivered is delivered whole; one of negative length is delivered like an empty
one. -/
theorem runWrites_chunked {chunk : ChunkSize} {count value : Int} {writes : List Bytes}
    (h : runWrites chunk count value = .ok writes) : Chunked chunk (max 0 count) value writes := by
  unfold runWrites at h
  split at h
  · next hEmpty =>
    cases h
    exact ⟨⟨[], [], rfl, List.forall_mem_nil _, .inl rfl⟩, List.forall_mem_nil _,
      (Int.max_eq_left hEmpty).symm⟩
  · next hSome =>
    split at h
    · cases h
    · next hByte =>
      split at h
      · cases h
      · cases h
        have hValue : (value.toNat.toUInt8.toNat : Int) = value := by
          have hRange := Decidable.not_not.1 hByte
          have hLess : value.toNat < 256 := by omega
          have hByte : value.toNat.toUInt8.toNat = value.toNat := UInt8.toNat_ofNat_of_lt hLess
          omega
        have hCount : ((count.toNat : Nat) : Int) = max 0 count := by omega
        have hChunked := chunked_runFrom chunk value.toNat.toUInt8 count.toNat
        rw [hValue, hCount] at hChunked
        exact hChunked

theorem Chunked.flatten_eq {chunk : ChunkSize} {count value : Int} {writes : List Bytes}
    (h : Chunked chunk (max 0 count) value writes) :
    writes.flatten = List.replicate count.toNat value.toNat.toUInt8 := by
  refine List.eq_replicate_iff.2 ⟨?_, ?_⟩
  · have hLength := h.length
    omega
  · intro byte hByte
    obtain ⟨write, hWrite, hMem⟩ := List.mem_flatten.1 hByte
    rw [← h.bytes write hWrite byte hMem, Int.toNat_natCast]
    exact UInt8.ofNat_toNat.symm

/-! ## Items -/

theorem itemWrites_run {item : Item} {count value : Int} (h : item.run? = some (count, value))
    (chunk : ChunkSize) :
    item.size = count ∧ itemWrites chunk item =
      match runWrites chunk count value with
      | .error fault => .error fault
      | .ok writes => .ok (writes, count) := by
  obtain ⟨location, address, content⟩ := item
  cases content with
  | fill | pad =>
    cases h
    exact ⟨rfl, rfl⟩
  | _ => cases h

/-- Whatever is not a run is measured when it is written. -/
theorem itemWrites_other {item : Item} (h : item.run? = none) {chunk : ChunkSize}
    {writes : List Bytes} {count : Int} (hWrites : itemWrites chunk item = .ok (writes, count)) :
    (writes.flatten.length : Int) = count := by
  obtain ⟨location, address, content⟩ := item
  cases content with
  | instruction mnemonic operands size =>
    simp only [itemWrites] at hWrites
    split at hWrites
    · cases hWrites
    · cases hWrites
      rw [List.flatten_singleton]
  | bytes | string =>
    cases hWrites
    rw [List.flatten_singleton]
  | refusedString => cases hWrites
  | fill | pad => cases h
  | constant | inclusion | marker =>
    cases hWrites
    rfl

/-- The writes of a run are chunks of it, as many bytes as it counts for if these are not fewer than
none. -/
theorem itemWrites_chunked {item : Item} {count value : Int} (h : item.run? = some (count, value))
    {chunk : ChunkSize} {writes : List Bytes} {counted : Int}
    (hWrites : itemWrites chunk item = .ok (writes, counted)) :
    counted = count ∧ Chunked chunk (max 0 count) value writes := by
  rw [(itemWrites_run h chunk).2] at hWrites
  split at hWrites
  · cases hWrites
  · next hRun =>
    cases hWrites
    exact ⟨rfl, runWrites_chunked hRun⟩

theorem length_itemWrites {chunk : ChunkSize} {item : Item} {writes : List Bytes} {count : Int}
    (h : itemWrites chunk item = .ok (writes, count)) :
    (writes.flatten.length : Int) = max 0 count := by
  cases hRun : item.run? with
  | none =>
    have hLength := itemWrites_other hRun h
    omega
  | some run =>
    obtain ⟨rfl, hChunked⟩ := itemWrites_chunked hRun h
    exact hChunked.length

/-- Some writes deliver an item, and count for as many bytes as its size. -/
def Accounted (chunk : ChunkSize) (item : Item) (writes : List Bytes) : Prop :=
  itemWrites chunk item = .ok (writes, item.size)

/-- An item ends delivery with a fault, after some writes: it cannot be encoded, or it counts for
another number of bytes than its size. -/
inductive Refused (chunk : ChunkSize) (item : Item) : List Bytes → EncodeFault → Prop
  | fault {fault : EncodeFault} :
    itemWrites chunk item = .error fault → Refused chunk item [] fault
  | size {writes : List Bytes} {count : Int} :
    itemWrites chunk item = .ok (writes, count) → count ≠ item.size →
    Refused chunk item writes
      (.sizeMismatch item.location count item.kindName item.address item.size)

theorem Accounted.not_refused {chunk : ChunkSize} {item : Item} {writes others : List Bytes}
    {fault : EncodeFault} (h : Accounted chunk item writes) : ¬Refused chunk item others fault := by
  intro hRefused
  cases hRefused with
  | fault hFault =>
    rw [h] at hFault
    cases hFault
  | size hWrites hSize =>
    rw [h] at hWrites
    cases hWrites
    exact hSize rfl

theorem accounted_or_refused (chunk : ChunkSize) (item : Item) :
    (∃ writes, Accounted chunk item writes) ∨ ∃ writes fault, Refused chunk item writes fault := by
  cases hWrites : itemWrites chunk item with
  | error fault => exact .inr ⟨[], fault, .fault hWrites⟩
  | ok result =>
    obtain ⟨writes, count⟩ := result
    by_cases hSize : count = item.size
    · subst hSize
      exact .inl ⟨writes, hWrites⟩
    · exact .inr ⟨writes, _, .size hWrites hSize⟩

/-! ## Programs -/

section
variable {chunk : ChunkSize} {items before after : List Item} {item : Item}
  {parts : List (List Bytes)} {writes : List Bytes} {fault : EncodeFault} {program : Program}

/-- Delivery passes items that are accounted for. -/
theorem deliverFrom_accounted (h : List.Forall₂ (Accounted chunk) items parts) (total : Int)
    (done : List Bytes) (rest : List Item) :
    deliverFrom chunk total done (items ++ rest) =
      deliverFrom chunk (total + totalSize items) (parts.flatten.reverse ++ done) rest := by
  induction h generalizing total done with
  | nil => rw [totalSize_nil, Int.add_zero]; rfl
  | @cons item writes items parts hFirst _ ih =>
    have hStep : deliverFrom chunk total done (item :: (items ++ rest)) =
        deliverFrom chunk (total + item.size) (writes.reverse ++ done) (items ++ rest) := by
      rw [deliverFrom, hFirst]
      exact if_pos rfl
    rw [List.cons_append, hStep, ih, totalSize_cons, Int.add_assoc, List.flatten_cons,
      List.reverse_append, List.append_assoc]

theorem deliver_accounted (h : List.Forall₂ (Accounted chunk) program.items parts) :
    deliver chunk program = ⟨parts.flatten, .ok (totalSize program.items)⟩ := by
  have hAll := deliverFrom_accounted h 0 [] []
  rw [List.append_nil, List.append_nil, Int.zero_add] at hAll
  rw [deliver, hAll, deliverFrom, List.reverse_reverse]

/-- Delivery ends at an item that is refused, with the writes that it has made by then. -/
theorem deliver_refused (hItems : program.items = before ++ item :: after)
    (hBefore : List.Forall₂ (Accounted chunk) before parts) (h : Refused chunk item writes fault) :
    deliver chunk program = ⟨parts.flatten ++ writes, .error fault⟩ := by
  have hAll := deliverFrom_accounted hBefore 0 [] (item :: after)
  rw [List.append_nil] at hAll
  rw [deliver, hItems, hAll]
  cases h with
  | fault hFault => rw [deliverFrom, hFault, List.append_nil, List.reverse_reverse]
  | size hWrites hSize =>
    rw [deliverFrom, hWrites]
    simp only [if_neg hSize, List.reverse_append, List.reverse_reverse]

/-- Either all items are accounted for, or all before one that is refused. -/
theorem accounted_upTo (chunk : ChunkSize) (items : List Item) :
    (∃ parts, List.Forall₂ (Accounted chunk) items parts) ∨
      ∃ before item after parts writes fault, items = before ++ item :: after ∧
        List.Forall₂ (Accounted chunk) before parts ∧ Refused chunk item writes fault := by
  induction items with
  | nil => exact .inl ⟨[], .nil⟩
  | cons item rest ih =>
    rcases accounted_or_refused chunk item with ⟨writes, hWrites⟩ | ⟨writes, fault, hRefused⟩
    · rcases ih with ⟨parts, hParts⟩ | ⟨before, other, after, parts, others, fault, rfl, hParts, h⟩
      · exact .inl ⟨writes :: parts, .cons hWrites hParts⟩
      · exact .inr ⟨item :: before, other, after, writes :: parts, others, fault, rfl,
          .cons hWrites hParts, h⟩
    · exact .inr ⟨[], item, rest, [], writes, fault, rfl, .nil, hRefused⟩

theorem deliver_ok_iff {total : Int} :
    (deliver chunk program).total = .ok total ↔
      total = totalSize program.items ∧
        ∃ parts, List.Forall₂ (Accounted chunk) program.items parts := by
  constructor
  · intro h
    rcases accounted_upTo chunk program.items with
      ⟨parts, hParts⟩ | ⟨before, item, after, parts, writes, fault, hItems, hBefore, hRefused⟩
    · rw [deliver_accounted hParts] at h
      exact ⟨(Except.ok.inj h).symm, parts, hParts⟩
    · rw [deliver_refused hItems hBefore hRefused] at h
      cases h
  · rintro ⟨rfl, parts, hParts⟩
    rw [deliver_accounted hParts]

/-- The items that are accounted for have delivered at least the sum of their sizes, and no more
exactly if none of the sizes is negative. -/
theorem length_accounted (h : List.Forall₂ (Accounted chunk) items parts) :
    totalSize items ≤ parts.flatten.flatten.length ∧
      ((parts.flatten.flatten.length : Int) = totalSize items ↔ ∀ item ∈ items, 0 ≤ item.size) := by
  induction h with
  | nil => exact ⟨Int.le_refl _, iff_of_true rfl (List.forall_mem_nil _)⟩
  | @cons item writes items parts hFirst _ ih =>
    have hLength := length_itemWrites hFirst
    obtain ⟨hLe, hEq⟩ := ih
    rw [List.flatten_cons, List.flatten_append, List.length_append, totalSize_cons,
      List.forall_mem_cons, ← hEq]
    omega

/-! ## What comparing sizes finds -/

/-- A delivery is exact: the bytes delivered are as many as its total, and those of each item as
many as the item's size. -/
structure Exact (chunk : ChunkSize) (program : Program) (total : Int) : Prop where
  received : ((deliver chunk program).writes.flatten.length : Int) = total
  shares : ∃ parts, (deliver chunk program).writes = parts.flatten ∧
    List.Forall₂ (fun item writes => (∃ count, itemWrites chunk item = .ok (writes, count)) ∧
      (writes.flatten.length : Int) = item.size) program.items parts

/-- A delivery that ends with a total is exact unless an item has a negative size. -/
theorem exact_iff {total : Int} (h : (deliver chunk program).total = .ok total) :
    Exact chunk program total ↔ ∀ item ∈ program.items, 0 ≤ item.size := by
  obtain ⟨rfl, parts, hParts⟩ := deliver_ok_iff.1 h
  have hDeliver := deliver_accounted hParts
  have hLength := (length_accounted hParts).2
  constructor
  · intro hExact
    have hReceived := hExact.received
    rw [hDeliver] at hReceived
    exact hLength.1 hReceived
  · intro hSizes
    refine ⟨by rw [hDeliver]; exact hLength.2 hSizes, parts, by rw [hDeliver], ?_⟩
    refine ((List.forall₂_and_left _ _).2 ⟨hSizes, hParts⟩).imp ?_
    rintro item writes ⟨hSize, hWrites⟩
    exact ⟨⟨item.size, hWrites⟩, (length_itemWrites hWrites).trans (Int.max_eq_right hSize)⟩

theorem deliver_error_iff :
    (∃ fault, (deliver chunk program).total = .error fault) ↔
      ∃ item ∈ program.items, ∃ writes fault, Refused chunk item writes fault := by
  rcases accounted_upTo chunk program.items with
    ⟨parts, hParts⟩ | ⟨before, item, after, parts, writes, fault, hItems, hBefore, hRefused⟩
  · rw [deliver_accounted hParts]
    constructor
    · rintro ⟨fault, hFault⟩
      cases hFault
    · rintro ⟨item, hMem, writes, fault, hRefused⟩
      obtain ⟨others, hAccounted⟩ := exists_of_forall₂ hParts hMem
      exact absurd hRefused hAccounted.not_refused
  · rw [deliver_refused hItems hBefore hRefused, hItems]
    exact iff_of_true ⟨fault, rfl⟩ ⟨item, List.mem_append_cons_self, writes, fault, hRefused⟩

/-- Delivery ends with a fault exactly if an item is refused; else each item has delivered as many
bytes as its size says, none if that is negative. So the total can be relied on exactly if an item
is refused or none has a negative size. Only runs have a negative size without being refused. -/
theorem guard_exact_iff (chunk : ChunkSize) (program : Program) :
    ((∃ fault, (deliver chunk program).total = .error fault) ↔
      ∃ item ∈ program.items, ∃ writes fault, Refused chunk item writes fault) ∧
    (∀ total, (deliver chunk program).total = .ok total →
      total = totalSize program.items ∧
        ∃ parts, (deliver chunk program).writes = parts.flatten ∧
          List.Forall₂ (fun item writes => (writes.flatten.length : Int) = max 0 item.size)
            program.items parts) ∧
    ((∀ total, (deliver chunk program).total = .ok total → Exact chunk program total) ↔
      (∃ item ∈ program.items, ∃ writes fault, Refused chunk item writes fault) ∨
        ∀ item ∈ program.items, 0 ≤ item.size) ∧
    ∀ item, item.size < 0 → item.run? = none →
      ∃ writes fault, Refused chunk item writes fault := by
  refine ⟨deliver_error_iff, ?_, ?_, ?_⟩
  · intro total hTotal
    obtain ⟨rfl, parts, hParts⟩ := deliver_ok_iff.1 hTotal
    exact ⟨rfl, parts, by rw [deliver_accounted hParts], hParts.imp fun _ _ => length_itemWrites⟩
  · rw [← deliver_error_iff]
    cases hTotal : (deliver chunk program).total with
    | error fault => exact iff_of_true (fun _ h => by cases h) (.inl ⟨fault, rfl⟩)
    | ok total =>
      rw [← exact_iff hTotal]
      constructor
      · intro hExact
        exact .inr (hExact total rfl)
      · rintro (⟨fault, hFault⟩ | hExact) other hOther
        · cases hFault
        · cases hOther
          exact hExact
  · intro item hSize hRun
    rcases accounted_or_refused chunk item with ⟨writes, hWrites⟩ | hRefused
    · have hLength := itemWrites_other hRun hWrites
      omega
    · exact hRefused

/-- A run of length minus one passes with a total of minus one, and nothing is delivered. -/
theorem negative_run_passes :
    let program := Program.empty.append ⟨⟨"<units>", 1, 1⟩, 0, .fill (-1) 0⟩
    (deliver .standard program).total = .ok (-1) ∧ (deliver .standard program).writes = [] ∧
      ¬Exact .standard program (-1) := by
  refine ⟨rfl, rfl, ?_⟩
  intro hExact
  have hReceived := hExact.received
  cases hReceived

end

end MachineCode
end Lr35902
