/-! UTF-8: text as bytes, and bytes as text.
`next` reads one character, or skips the longest run of bytes that begins a well-formed character
without completing it; `scan` does so to the end. `decode?` accepts well-formed text only, and
`decodeLossy` puts a replacement character in the place of each run that is skipped.
-/

namespace Firmware.Utf8

--------------------------------------------------------------------------------
-- Writing
--------------------------------------------------------------------------------

/-- The continuation byte with the low six bits of `n`. -/
def continuation (n : Nat) : UInt8 := UInt8.ofNat (0x80 + n % 64)

/-- The bytes of a character. -/
def encodeChar (c : Char) : List UInt8 :=
  let n := c.toNat
  if n < 0x80 then [UInt8.ofNat n]
  else if n < 0x800 then [UInt8.ofNat (0xC0 + n / 64), continuation n]
  else if n < 0x10000 then
    [UInt8.ofNat (0xE0 + n / 4096), continuation (n / 64), continuation n]
  else
    [UInt8.ofNat (0xF0 + n / 262144), continuation (n / 4096), continuation (n / 64),
      continuation n]

/-- The bytes of a list of characters. -/
def encode (text : List Char) : List UInt8 := text.flatMap encodeChar

/-- The bytes of a string. -/
def ofString (text : String) : List UInt8 := encode text.toList

--------------------------------------------------------------------------------
-- Reading
--------------------------------------------------------------------------------

/-- The bytes that follow the first byte of a character. -/
def IsContinuation (byte : UInt8) : Prop := 0x80 ≤ byte.toNat ∧ byte.toNat < 0xC0

instance (byte : UInt8) : Decidable (IsContinuation byte) :=
  inferInstanceAs (Decidable (0x80 ≤ byte.toNat ∧ byte.toNat < 0xC0))

/-- The second bytes that may follow the first byte of a three-byte character: no character has
a shorter form, and none is a surrogate. -/
def IsSecondOfThree (lead byte : UInt8) : Prop :=
  IsContinuation byte
  ∧ (lead.toNat = 0xE0 → 0xA0 ≤ byte.toNat)
  ∧ (lead.toNat = 0xED → byte.toNat < 0xA0)

instance (lead byte : UInt8) : Decidable (IsSecondOfThree lead byte) :=
  inferInstanceAs
    (Decidable
      (IsContinuation byte
        ∧ (lead.toNat = 0xE0 → 0xA0 ≤ byte.toNat)
        ∧ (lead.toNat = 0xED → byte.toNat < 0xA0)))

/-- The second bytes that may follow the first byte of a four-byte character: no character has
a shorter form, and none lies beyond the last code point. -/
def IsSecondOfFour (lead byte : UInt8) : Prop :=
  IsContinuation byte
  ∧ (lead.toNat = 0xF0 → 0x90 ≤ byte.toNat)
  ∧ (lead.toNat = 0xF4 → byte.toNat < 0x90)

instance (lead byte : UInt8) : Decidable (IsSecondOfFour lead byte) :=
  inferInstanceAs
    (Decidable
      (IsContinuation byte
        ∧ (lead.toNat = 0xF0 → 0x90 ≤ byte.toNat)
        ∧ (lead.toNat = 0xF4 → byte.toNat < 0x90)))

/-- The payload of a continuation byte. -/
def payload (byte : UInt8) : Nat := byte.toNat - 0x80

/-- Completes a two-byte character. -/
def nextOfTwo (lead : UInt8) : List UInt8 → Option Char × List UInt8
  | second :: rest =>
    if IsContinuation second then
      (some (Char.ofNat ((lead.toNat - 0xC0) * 64 + payload second)), rest)
    else (none, second :: rest)
  | [] => (none, [])

/-- Completes a three-byte character. -/
def nextOfThree (lead : UInt8) : List UInt8 → Option Char × List UInt8
  | second :: rest =>
    if ¬ IsSecondOfThree lead second then (none, second :: rest)
    else
      match rest with
      | third :: rest =>
        if IsContinuation third then
          (some
            (Char.ofNat ((lead.toNat - 0xE0) * 4096 + payload second * 64 + payload third)),
            rest)
        else (none, third :: rest)
      | [] => (none, [])
  | [] => (none, [])

/-- Completes a four-byte character. -/
def nextOfFour (lead : UInt8) : List UInt8 → Option Char × List UInt8
  | second :: rest =>
    if ¬ IsSecondOfFour lead second then (none, second :: rest)
    else
      match rest with
      | third :: rest =>
        if ¬ IsContinuation third then (none, third :: rest)
        else
          match rest with
          | fourth :: rest =>
            if IsContinuation fourth then
              (some
                (Char.ofNat
                  ((lead.toNat - 0xF0) * 262144 + payload second * 4096 + payload third * 64
                    + payload fourth)),
                rest)
            else (none, fourth :: rest)
          | [] => (none, [])
      | [] => (none, [])
  | [] => (none, [])

/-- The character that starts with the byte `lead`, or nothing if the bytes are ill-formed, and
the bytes after what was read. -/
def next (lead : UInt8) (rest : List UInt8) : Option Char × List UInt8 :=
  let n := lead.toNat
  if n < 0x80 then (some (Char.ofNat n), rest)
  else if n < 0xC2 then (none, rest)
  else if n < 0xE0 then nextOfTwo lead rest
  else if n < 0xF0 then nextOfThree lead rest
  else if n < 0xF5 then nextOfFour lead rest
  else (none, rest)

theorem length_next_le (lead : UInt8) (rest : List UInt8)
    : (next lead rest).2.length ≤ rest.length := by
  simp only [next]
  repeat' split
  all_goals try exact Nat.le_refl _
  · unfold nextOfTwo
    repeat' split
    all_goals simp
  · unfold nextOfThree
    repeat' split
    all_goals simp
    all_goals omega
  · unfold nextOfFour
    repeat' split
    all_goals simp
    all_goals omega

/-- The characters of a byte string in order, with `none` for each run that is skipped. -/
def scan : List UInt8 → List (Option Char)
  | [] => []
  | lead :: rest => (next lead rest).1 :: scan (next lead rest).2
termination_by bytes => bytes.length
decreasing_by
  have := length_next_le lead rest
  simp only [List.length_cons]
  omega

/-- The text of which the bytes are the encoding, if they are well-formed. -/
def decode? (bytes : List UInt8) : Option (List Char) := (scan bytes).mapM id

/-- The character in the place of bytes that are ill-formed. -/
def replacement : Char := Char.ofNat 0xFFFD

/-- Text for any bytes, with a replacement character for each run that is skipped. -/
def decodeLossy (bytes : List UInt8) : List Char :=
  (scan bytes).map fun c => c.getD replacement

end Firmware.Utf8
