import Firmware.Text.Utf8

/-! The encoding of a text reads back as the text.
`next` reads the first character of an encoding and leaves what follows it (`next_encodeChar`), so
`scan` reads a text character by character (`scan_encode_append`). The byte of an
ASCII character stands for nothing else (`mem_encode_iff`). The bytes of a string are those that it
is kept in (`ofString_eq_toUTF8`).
-/

namespace Firmware.Utf8

theorem encode_append (text more : List Char)
    : encode (text ++ more) = encode text ++ encode more :=
  List.flatMap_append

theorem encode_flatten (texts : List (List Char))
    : encode texts.flatten = (texts.map encode).flatten := by
  induction texts with
  | nil => rfl
  | cons text rest ih => rw [List.flatten_cons, encode_append, ih, List.map_cons, List.flatten_cons]

--------------------------------------------------------------------------------
-- One character
--------------------------------------------------------------------------------

theorem toNat_continuation (n : Nat) : (continuation n).toNat = 0x80 + n % 64 := by
  rw [continuation, UInt8.toNat_ofNat']
  omega

theorem isContinuation_continuation (n : Nat) : IsContinuation (continuation n) := by
  rw [IsContinuation, toNat_continuation]
  omega

theorem payload_continuation (n : Nat) : payload (continuation n) = n % 64 := by
  have value := toNat_continuation n
  unfold payload
  omega

/-- No character is a surrogate, and none lies beyond the last code point. -/
theorem toNat_valid (c : Char) : c.toNat < 0xD800 ∨ 0xDFFF < c.toNat ∧ c.toNat < 0x110000 := by
  have valid := c.valid
  rwa [UInt32.isValidChar, Nat.isValidChar] at valid

theorem nextOfTwo_encode {c : Char} (large : 0x80 ≤ c.toNat) (small : c.toNat < 0x800)
    (rest : List UInt8)
    : nextOfTwo (UInt8.ofNat (0xC0 + c.toNat / 64)) (continuation c.toNat :: rest)
      = (some c, rest) := by
  have lead : (UInt8.ofNat (0xC0 + c.toNat / 64)).toNat = 0xC0 + c.toNat / 64 :=
    UInt8.toNat_ofNat_of_lt' (show _ < 0x100 by omega)
  have value : (0xC0 + c.toNat / 64 - 0xC0) * 64 + c.toNat % 64 = c.toNat := by omega
  rw [nextOfTwo, if_pos (isContinuation_continuation _), lead, payload_continuation, value,
    Char.ofNat_toNat]

theorem nextOfThree_encode {c : Char} (large : 0x800 ≤ c.toNat) (small : c.toNat < 0x10000)
    (rest : List UInt8)
    : nextOfThree (UInt8.ofNat (0xE0 + c.toNat / 4096))
        (continuation (c.toNat / 64) :: continuation c.toNat :: rest)
      = (some c, rest) := by
  have lead : (UInt8.ofNat (0xE0 + c.toNat / 4096)).toNat = 0xE0 + c.toNat / 4096 :=
    UInt8.toNat_ofNat_of_lt' (show _ < 0x100 by omega)
  have second
      : IsSecondOfThree (UInt8.ofNat (0xE0 + c.toNat / 4096)) (continuation (c.toNat / 64)) := by
    have valid := toNat_valid c
    refine ⟨isContinuation_continuation _, ?_, ?_⟩ <;> rw [lead, toNat_continuation] <;> omega
  have value
      : (0xE0 + c.toNat / 4096 - 0xE0) * 4096 + c.toNat / 64 % 64 * 64 + c.toNat % 64
        = c.toNat := by
    omega
  simp only [nextOfThree, second, isContinuation_continuation, not_true_eq_false, if_false, if_true,
    lead, payload_continuation, value, Char.ofNat_toNat]

theorem nextOfFour_encode {c : Char} (large : 0x10000 ≤ c.toNat) (rest : List UInt8)
    : nextOfFour (UInt8.ofNat (0xF0 + c.toNat / 262144))
        (continuation (c.toNat / 4096) :: continuation (c.toNat / 64) :: continuation c.toNat
          :: rest)
      = (some c, rest) := by
  have valid := toNat_valid c
  have lead : (UInt8.ofNat (0xF0 + c.toNat / 262144)).toNat = 0xF0 + c.toNat / 262144 :=
    UInt8.toNat_ofNat_of_lt' (show _ < 0x100 by omega)
  have second
      : IsSecondOfFour (UInt8.ofNat (0xF0 + c.toNat / 262144))
          (continuation (c.toNat / 4096)) := by
    refine ⟨isContinuation_continuation _, ?_, ?_⟩ <;> rw [lead, toNat_continuation] <;> omega
  have value
      : (0xF0 + c.toNat / 262144 - 0xF0) * 262144 + c.toNat / 4096 % 64 * 4096
          + c.toNat / 64 % 64 * 64 + c.toNat % 64
        = c.toNat := by
    omega
  simp only [nextOfFour, second, isContinuation_continuation, not_true_eq_false, if_false, if_true,
    lead, payload_continuation, value, Char.ofNat_toNat]

/-- Reading the encoding of a character gives the character, by cases on the number of its bytes. -/
theorem next_encodeChar (c : Char) (rest : List UInt8)
    : ∃ lead tail, encodeChar c = lead :: tail ∧ next lead (tail ++ rest) = (some c, rest) := by
  have valid := toNat_valid c
  by_cases one : c.toNat < 0x80
  · have lead : (UInt8.ofNat c.toNat).toNat = c.toNat :=
      UInt8.toNat_ofNat_of_lt' (show _ < 0x100 by omega)
    refine ⟨_, [], by simp only [encodeChar, one, if_true]; rfl, ?_⟩
    simp only [next, lead, one, if_true, Char.ofNat_toNat, List.nil_append]
  · by_cases two : c.toNat < 0x800
    · have lead : (UInt8.ofNat (0xC0 + c.toNat / 64)).toNat = 0xC0 + c.toNat / 64 :=
        UInt8.toNat_ofNat_of_lt' (show _ < 0x100 by omega)
      refine ⟨_, _, by simp only [encodeChar, one, two, if_false, if_true]; rfl, ?_⟩
      rw [next, lead]
      rw [if_neg (by omega), if_neg (by omega), if_pos (by omega)]
      exact nextOfTwo_encode (Nat.le_of_not_lt one) two rest
    · by_cases three : c.toNat < 0x10000
      · have lead : (UInt8.ofNat (0xE0 + c.toNat / 4096)).toNat = 0xE0 + c.toNat / 4096 :=
          UInt8.toNat_ofNat_of_lt' (show _ < 0x100 by omega)
        refine ⟨_, _, by simp only [encodeChar, one, two, three, if_false, if_true]; rfl, ?_⟩
        rw [next, lead]
        rw [if_neg (by omega), if_neg (by omega), if_neg (by omega), if_pos (by omega)]
        exact nextOfThree_encode (Nat.le_of_not_lt two) three rest
      · have lead : (UInt8.ofNat (0xF0 + c.toNat / 262144)).toNat = 0xF0 + c.toNat / 262144 :=
          UInt8.toNat_ofNat_of_lt' (show _ < 0x100 by omega)
        refine ⟨_, _, by simp only [encodeChar, one, two, three, if_false]; rfl, ?_⟩
        rw [next, lead]
        rw [if_neg (by omega), if_neg (by omega), if_neg (by omega), if_neg (by omega),
          if_pos (by omega)]
        exact nextOfFour_encode (Nat.le_of_not_lt three) rest

--------------------------------------------------------------------------------
-- Texts
--------------------------------------------------------------------------------

theorem scan_encode_append (text : List Char) (rest : List UInt8)
    : scan (encode text ++ rest) = text.map some ++ scan rest := by
  induction text with
  | nil => rfl
  | cons c text ih =>
      obtain ⟨lead, tail, bytes, reads⟩ := next_encodeChar c (encode text ++ rest)
      have split : encode (c :: text) ++ rest = lead :: (tail ++ (encode text ++ rest)) := by
        change encodeChar c ++ encode text ++ rest = _
        rw [bytes, List.append_assoc, List.cons_append]
      rw [split, scan, reads, ih]
      rfl

theorem scan_encode (text : List Char) : scan (encode text) = text.map some := by
  have scanned := scan_encode_append text []
  rwa [List.append_nil, scan, List.append_nil] at scanned

theorem decode?_encode (text : List Char) : decode? (encode text) = some text := by
  rw [decode?, scan_encode]
  induction text with
  | nil => rfl
  | cons c text ih => simp [ih]

/-- Different texts have different encodings. -/
theorem encode_injective {text other : List Char} (same : encode text = encode other)
    : text = other := by
  apply Option.some.inj
  rw [← decode?_encode text, same, decode?_encode]

/-- The bytes below 128 stand for themselves. -/
theorem toNat_eq_of_mem_encodeChar {c : Char} {byte : UInt8} (member : byte ∈ encodeChar c)
    (small : byte.toNat < 0x80)
    : c.toNat = byte.toNat := by
  have valid := toNat_valid c
  have continued : ∀ n, byte ≠ continuation n := by
    rintro n rfl
    rw [toNat_continuation] at small
    omega
  have led : ∀ n, 0x80 ≤ n → n < 0x100 → byte ≠ UInt8.ofNat n := by
    rintro n large bounded rfl
    rw [UInt8.toNat_ofNat_of_lt' bounded] at small
    omega
  by_cases one : c.toNat < 0x80
  · simp only [encodeChar, one, if_true, List.mem_singleton] at member
    rw [member, UInt8.toNat_ofNat_of_lt' (Nat.lt_trans one (by decide))]
  · exfalso
    simp only [encodeChar, one, if_false] at member
    split at member
    · simp only [List.mem_cons, continued, List.not_mem_nil, or_false] at member
      exact led _ (by omega) (by omega) member
    · split at member
      all_goals
        simp only [List.mem_cons, continued, List.not_mem_nil, or_false] at member
        exact led _ (by omega) (by omega) member

theorem mem_encode_iff {c : Char} (ascii : c.toNat < 0x80) {text : List Char}
    : UInt8.ofNat c.toNat ∈ encode text ↔ c ∈ text := by
  have byte : (UInt8.ofNat c.toNat).toNat = c.toNat :=
    UInt8.toNat_ofNat_of_lt' (Nat.lt_trans ascii (by decide))
  rw [encode, List.mem_flatMap]
  constructor
  · rintro ⟨other, member, encoded⟩
    have same := toNat_eq_of_mem_encodeChar encoded (byte.symm ▸ ascii)
    rw [byte] at same
    rwa [← Char.toNat_inj.mp same]
  · intro member
    refine ⟨c, member, ?_⟩
    simp only [encodeChar, ascii, if_true, List.mem_singleton]

--------------------------------------------------------------------------------
-- The encoding of strings in memory
--------------------------------------------------------------------------------

/-- The encoding that strings are kept in has other bounds and masks for the same bytes, by cases on
their number.
-/
theorem encodeChar_eq_utf8EncodeChar (c : Char) : encodeChar c = String.utf8EncodeChar c := by
  have valid := toNat_valid c
  have number : c.val.toNat = c.toNat := rfl
  have byte : ∀ n, 0x80 + n % 64 = n % 64 + 128 := fun n => Nat.add_comm ..
  simp only [encodeChar, String.utf8EncodeChar, continuation, number, byte]
  by_cases one : c.toNat < 0x80
  · rw [if_pos one, if_pos (by omega)]
  · rw [if_neg one, if_neg (show ¬ c.toNat ≤ 127 by omega)]
    by_cases two : c.toNat < 0x800
    · have lead : 0xC0 + c.toNat / 64 = c.toNat / 64 % 32 + 192 := by omega
      rw [if_pos two, if_pos (by omega), lead]
    · rw [if_neg two, if_neg (show ¬ c.toNat ≤ 2047 by omega)]
      by_cases three : c.toNat < 0x10000
      · have lead : 0xE0 + c.toNat / 4096 = c.toNat / 4096 % 16 + 224 := by omega
        rw [if_pos three, if_pos (by omega), lead]
      · have lead : 0xF0 + c.toNat / 262144 = c.toNat / 262144 % 8 + 240 := by omega
        rw [if_neg three, if_neg (by omega), lead]

theorem ofString_eq_toUTF8 (text : String) : ofString text = text.toUTF8.data.toList := by
  have each : encodeChar = String.utf8EncodeChar := funext encodeChar_eq_utf8EncodeChar
  rw [ofString, encode, each, String.toUTF8_eq_toByteArray, ← String.utf8Encode_toList,
    List.utf8Encode, List.toList_data_toByteArray]

end Firmware.Utf8
