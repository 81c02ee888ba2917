import Lr35902.Text.Utf8

/-!
Decoding and encoding are inverse to each other: bytes spell characters exactly when they are the
encoding of those characters (`decode_ok_iff`), so that every text has one spelling. A character
that stands in front is read first and alone (`decodeFrom_encodeChar`), and whatever decoding
accepts has the encoding of a character in front (`encodeChar_of_readTails`).
-/
namespace Lr35902.Utf8

/-! ## Code points and bytes -/

theorem byte_eq {n : Nat} {b : UInt8} (h : n = b.toNat) : n.toUInt8 = b := by
  rw [h]
  exact UInt8.ofNat_toNat

theorem toNat_ofNat {n : Nat} (h : n.isValidChar) : (Char.ofNat n).toNat = n := by
  rw [Char.ofNat, dif_pos h]
  rfl

/-- A tail byte within the bounds adds its six bits. -/
theorem readTails_tail {low high tail : Nat} (bits seen count : Nat) (rest : Bytes)
    (hTail : tail < 64) (hLow : low ≤ 0x80 + tail) (hHigh : 0x80 + tail ≤ high) :
    readTails low high bits seen (count + 1) ((0x80 + tail).toUInt8 :: rest) =
      readTails 0x80 0xBF (bits * 64 + tail) (seen + 1) count rest := by
  have hByte : (0x80 + tail).toUInt8.toNat = 0x80 + tail :=
    UInt8.toNat_ofNat_of_lt' (show 0x80 + tail < 0x100 by omega)
  rw [readTails, hByte, if_pos ⟨hLow, hHigh⟩, Nat.add_sub_cancel_left]

/-- Tails that are accepted start with one within the bounds, and the others follow. -/
theorem readTails_ok {low high bits seen count n : Nat} {bytes : Bytes}
    (h : readTails low high bits seen (count + 1) bytes = .ok n) :
    ∃ b rest, bytes = b :: rest ∧ low ≤ b.toNat ∧ b.toNat ≤ high ∧
      readTails 0x80 0xBF (bits * 64 + (b.toNat - 0x80)) (seen + 1) count rest = .ok n := by
  cases bytes with
  | nil => cases h
  | cons b rest =>
    by_cases hTail : low ≤ b.toNat ∧ b.toNat ≤ high
    · rw [readTails, if_pos hTail] at h
      exact ⟨b, rest, rfl, hTail.1, hTail.2, h⟩
    · rw [readTails, if_neg hTail] at h
      cases h

/-! ## One character -/

/-- A lead byte and its tails are read as one character. -/
theorem decodeFrom_lead {offset lead bits tails low high n : Nat} {done : List Char}
    {rest : Bytes} (hByte : lead < 0x100) (hLead : lead? lead = some ⟨bits, tails, low, high⟩)
    (hTails : readTails low high bits 1 tails rest = .ok n) :
    decodeFrom offset done (lead.toUInt8 :: rest) =
      decodeFrom (offset + 1 + tails) (Char.ofNat n :: done) (rest.drop tails) := by
  have hAscii : ¬lead < 0x80 := by
    intro hLow
    rw [lead?, if_pos (by omega)] at hLead
    cases hLead
  have hRead : lead.toUInt8.toNat = lead := UInt8.toNat_ofNat_of_lt' hByte
  rw [decodeFrom, hRead, if_neg hAscii, hLead]
  simp only [hTails]

section
variable {n : Nat} (offset : Nat) (done : List Char) (rest : Bytes)

theorem decodeFrom_two (hLow : 0x80 ≤ n) (hHigh : n < 0x800) :
    decodeFrom offset done ((0xC0 + n / 64).toUInt8 :: (0x80 + n % 64).toUInt8 :: rest) =
      decodeFrom (offset + 2) (Char.ofNat n :: done) rest := by
  have hLead : lead? (0xC0 + n / 64) = some ⟨n / 64, 1, 0x80, 0xBF⟩ := by
    rw [lead?, if_neg (by omega), if_pos (by omega), Nat.add_sub_cancel_left]
  refine decodeFrom_lead (by omega) hLead ?_
  rw [readTails_tail _ _ _ _ (by omega) (by omega) (by omega), readTails]
  exact congrArg _ (by omega)

theorem decodeFrom_three (hLow : 0x800 ≤ n) (hHigh : n < 0x10000)
    (hScalar : n < 0xD800 ∨ 0xDFFF < n) :
    decodeFrom offset done ((0xE0 + n / 4096).toUInt8 :: (0x80 + n / 64 % 64).toUInt8 ::
        (0x80 + n % 64).toUInt8 :: rest) =
      decodeFrom (offset + 3) (Char.ofNat n :: done) rest := by
  have hLead : lead? (0xE0 + n / 4096) = some ⟨n / 4096, 2,
      if 0xE0 + n / 4096 = 0xE0 then 0xA0 else 0x80,
      if 0xE0 + n / 4096 = 0xED then 0x9F else 0xBF⟩ := by
    rw [lead?, if_neg (by omega), if_neg (by omega), if_pos (by omega), Nat.add_sub_cancel_left]
  refine decodeFrom_lead (by omega) hLead ?_
  rw [readTails_tail _ _ _ _ (by omega) (by split <;> omega) (by split <;> omega),
    readTails_tail _ _ _ _ (by omega) (by omega) (by omega), readTails]
  exact congrArg _ (by omega)

theorem decodeFrom_four (hLow : 0x10000 ≤ n) (hHigh : n < 0x110000) :
    decodeFrom offset done ((0xF0 + n / 262144).toUInt8 :: (0x80 + n / 4096 % 64).toUInt8 ::
        (0x80 + n / 64 % 64).toUInt8 :: (0x80 + n % 64).toUInt8 :: rest) =
      decodeFrom (offset + 4) (Char.ofNat n :: done) rest := by
  have hLead : lead? (0xF0 + n / 262144) = some ⟨n / 262144, 3,
      if 0xF0 + n / 262144 = 0xF0 then 0x90 else 0x80,
      if 0xF0 + n / 262144 = 0xF4 then 0x8F else 0xBF⟩ := by
    rw [lead?, if_neg (by omega), if_neg (by omega), if_neg (by omega), if_pos (by omega),
      Nat.add_sub_cancel_left]
  refine decodeFrom_lead (by omega) hLead ?_
  rw [readTails_tail _ _ _ _ (by omega) (by split <;> omega) (by split <;> omega),
    readTails_tail _ _ _ _ (by omega) (by omega) (by omega),
    readTails_tail _ _ _ _ (by omega) (by omega) (by omega), readTails]
  exact congrArg _ (by omega)

end

/-- The encoding of a character is read back as that character, whatever follows it. -/
theorem decodeFrom_encodeChar (offset : Nat) (done : List Char) (c : Char) (rest : Bytes) :
    decodeFrom offset done (encodeChar c ++ rest) =
      decodeFrom (offset + (encodeChar c).length) (c :: done) rest := by
  have hValid : c.toNat < 0xD800 ∨ 0xDFFF < c.toNat ∧ c.toNat < 0x110000 := c.valid
  have hBack : Char.ofNat c.toNat = c := Char.ofNat_toNat c
  unfold encodeChar
  by_cases hOne : c.toNat < 0x80
  · simp only [if_pos hOne, List.cons_append, List.nil_append, List.length_singleton]
    have hByte : c.toNat.toUInt8.toNat = c.toNat :=
      UInt8.toNat_ofNat_of_lt' (show c.toNat < 0x100 by omega)
    rw [decodeFrom, hByte, if_pos hOne, hBack]
  by_cases hTwo : c.toNat < 0x800
  · simp only [if_neg hOne, if_pos hTwo, List.cons_append, List.nil_append]
    rw [decodeFrom_two _ _ _ (by omega) hTwo, hBack]
    rfl
  by_cases hThree : c.toNat < 0x10000
  · simp only [if_neg hOne, if_neg hTwo, if_pos hThree, List.cons_append, List.nil_append]
    rw [decodeFrom_three _ _ _ (by omega) hThree (by omega), hBack]
    rfl
  · simp only [if_neg hOne, if_neg hTwo, if_neg hThree, List.cons_append, List.nil_append]
    rw [decodeFrom_four _ _ _ (by omega) (by omega), hBack]
    rfl

section
variable {b : UInt8} {n : Nat} {bytes : Bytes}

theorem encodeChar_of_two (hLow : 0xC2 ≤ b.toNat) (hHigh : b.toNat < 0xE0)
    (hTails : readTails 0x80 0xBF (b.toNat - 0xC0) 1 1 bytes = .ok n) :
    b :: bytes = encodeChar (Char.ofNat n) ++ bytes.drop 1 := by
  obtain ⟨t, rest, rfl, hFirst, hLast, hTails⟩ := readTails_ok hTails
  obtain rfl := Except.ok.inj hTails
  have hNat := toNat_ofNat (n := (b.toNat - 0xC0) * 64 + (t.toNat - 0x80)) (.inl (by omega))
  rw [encodeChar, hNat, if_neg (by omega), if_pos (by omega), byte_eq (b := b) (by omega),
    byte_eq (b := t) (by omega)]
  rfl

theorem encodeChar_of_three (hLow : 0xE0 ≤ b.toNat) (hHigh : b.toNat < 0xF0)
    (hTails : readTails (if b.toNat = 0xE0 then 0xA0 else 0x80)
      (if b.toNat = 0xED then 0x9F else 0xBF) (b.toNat - 0xE0) 1 2 bytes = .ok n) :
    b :: bytes = encodeChar (Char.ofNat n) ++ bytes.drop 2 := by
  obtain ⟨t, _, rfl, hFirst, hLast, hTails⟩ := readTails_ok hTails
  obtain ⟨u, rest, rfl, hFirst', hLast', hTails⟩ := readTails_ok hTails
  obtain rfl := Except.ok.inj hTails
  have hTail : 0x80 ≤ t.toNat ∧ t.toNat ≤ 0xBF ∧ (b.toNat = 0xE0 → 0xA0 ≤ t.toNat) ∧
      (b.toNat = 0xED → t.toNat ≤ 0x9F) := by
    split at hFirst <;> split at hLast <;> omega
  have hNat := toNat_ofNat
    (n := ((b.toNat - 0xE0) * 64 + (t.toNat - 0x80)) * 64 + (u.toNat - 0x80)) (by
      unfold Nat.isValidChar
      omega)
  rw [encodeChar, hNat, if_neg (by omega), if_neg (by omega), if_pos (by omega),
    byte_eq (b := b) (by omega), byte_eq (b := t) (by omega), byte_eq (b := u) (by omega)]
  rfl

theorem encodeChar_of_four (hLow : 0xF0 ≤ b.toNat) (hHigh : b.toNat < 0xF5)
    (hTails : readTails (if b.toNat = 0xF0 then 0x90 else 0x80)
      (if b.toNat = 0xF4 then 0x8F else 0xBF) (b.toNat - 0xF0) 1 3 bytes = .ok n) :
    b :: bytes = encodeChar (Char.ofNat n) ++ bytes.drop 3 := by
  obtain ⟨t, _, rfl, hFirst, hLast, hTails⟩ := readTails_ok hTails
  obtain ⟨u, _, rfl, hFirst', hLast', hTails⟩ := readTails_ok hTails
  obtain ⟨v, rest, rfl, hFirst'', hLast'', hTails⟩ := readTails_ok hTails
  obtain rfl := Except.ok.inj hTails
  have hTail : 0x80 ≤ t.toNat ∧ t.toNat ≤ 0xBF ∧ (b.toNat = 0xF0 → 0x90 ≤ t.toNat) ∧
      (b.toNat = 0xF4 → t.toNat ≤ 0x8F) := by
    split at hFirst <;> split at hLast <;> omega
  have hNat := toNat_ofNat
    (n := (((b.toNat - 0xF0) * 64 + (t.toNat - 0x80)) * 64 + (u.toNat - 0x80)) * 64 +
      (v.toNat - 0x80)) (by
      unfold Nat.isValidChar
      omega)
  rw [encodeChar, hNat, if_neg (by omega), if_neg (by omega), if_neg (by omega),
    byte_eq (b := b) (by omega), byte_eq (b := t) (by omega), byte_eq (b := u) (by omega),
    byte_eq (b := v) (by omega)]
  rfl

/-- A lead byte and tails that are accepted are the encoding of the character that they give. -/
theorem encodeChar_of_readTails {lead : Lead} (hLead : lead? b.toNat = some lead)
    (hTails : readTails lead.low lead.high lead.bits 1 lead.tails bytes = .ok n) :
    b :: bytes = encodeChar (Char.ofNat n) ++ bytes.drop lead.tails := by
  unfold lead? at hLead
  by_cases hNone : b.toNat < 0xC2
  · rw [if_pos hNone] at hLead
    cases hLead
  by_cases hTwo : b.toNat < 0xE0
  · rw [if_neg hNone, if_pos hTwo] at hLead
    obtain rfl := Option.some.inj hLead
    exact encodeChar_of_two (by omega) hTwo hTails
  by_cases hThree : b.toNat < 0xF0
  · rw [if_neg hNone, if_neg hTwo, if_pos hThree] at hLead
    obtain rfl := Option.some.inj hLead
    exact encodeChar_of_three (by omega) hThree hTails
  by_cases hFour : b.toNat < 0xF5
  · rw [if_neg hNone, if_neg hTwo, if_neg hThree, if_pos hFour] at hLead
    obtain rfl := Option.some.inj hLead
    exact encodeChar_of_four (by omega) hFour hTails
  · rw [if_neg hNone, if_neg hTwo, if_neg hThree, if_neg hFour] at hLead
    cases hLead

end

/-! ## Texts -/

theorem encode_cons (c : Char) (text : List Char) :
    encode (c :: text) = encodeChar c ++ encode text := List.flatMap_cons

/-- What decoding accepts is the encoding of the characters that it adds. -/
theorem encode_of_decodeFrom {offset : Nat} {done : List Char} {bytes : Bytes} {text : List Char}
    (h : decodeFrom offset done bytes = .ok text) :
    ∃ more, text = done.reverse ++ more ∧ bytes = encode more := by
  fun_induction decodeFrom offset done bytes with
  | case1 _ done =>
    obtain rfl := Except.ok.inj h
    exact ⟨[], (List.append_nil _).symm, rfl⟩
  | case2 _ done b rest hAscii ih =>
    obtain ⟨more, rfl, rfl⟩ := ih h
    refine ⟨Char.ofNat b.toNat :: more, by simp, ?_⟩
    have hNat := toNat_ofNat (n := b.toNat) (.inl (by omega))
    rw [encode_cons, encodeChar, hNat, if_pos hAscii, byte_eq rfl]
    rfl
  | case3 => cases h
  | case4 => cases h
  | case5 _ done b rest _ lead hLead n hTails ih =>
    obtain ⟨more, rfl, hRest⟩ := ih h
    refine ⟨Char.ofNat n :: more, by simp, ?_⟩
    rw [encode_cons, encodeChar_of_readTails hLead hTails, hRest]

/-- The encoding of some characters is decoded to them, after those already decoded. -/
theorem decodeFrom_encode (offset : Nat) (done more : List Char) :
    decodeFrom offset done (encode more) = .ok (done.reverse ++ more) := by
  induction more generalizing offset done with
  | nil =>
    rw [List.append_nil]
    exact decodeFrom.eq_1 _ _
  | cons c more ih =>
    rw [encode_cons, decodeFrom_encodeChar, ih, List.reverse_cons, List.append_assoc,
      List.singleton_append]

/-- Bytes spell characters exactly when they are the encoding of those characters. -/
theorem decode_ok_iff {bytes : Bytes} {text : List Char} :
    decode bytes = .ok text ↔ bytes = encode text := by
  constructor
  · intro h
    obtain ⟨more, rfl, hBytes⟩ := encode_of_decodeFrom h
    exact hBytes
  · rintro rfl
    exact decodeFrom_encode 0 [] text

end Lr35902.Utf8
