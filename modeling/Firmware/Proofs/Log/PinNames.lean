import Firmware.Pin
import Firmware.Proofs.Log.SinkWrites
import Firmware.Proofs.Text.Utf8

/-! Pins have one name, as text and over a serial line.
The pieces that go over the line are the encoding of the text (`flatten_pieces`), and the bank fits
into the buffer in which it is encoded (`length_encodeChar_le`). The name tells the bank from the
number, since the bank is always one character (`text_injective`).
-/

namespace Firmware.Pin

/-- The name of a pin is put together from the texts of its bank and its number. -/
theorem ofList_text (pin : Pin)
    : String.ofList pin.text = "P" ++ String.singleton pin.bank ++ toString pin.index := by
  have number : (toString pin.index).toList = Decimal.digits pin.index.toNat := Nat.toList_repr
  rw [← String.toList_inj, String.toList_ofList, String.toList_append, String.toList_append,
    String.toList_singleton, number]
  rfl

theorem flatten_pieces (pin : Pin) : pin.pieces.flatten = Utf8.encode pin.text := by
  have parts : pin.text = ['P'] ++ [pin.bank] ++ Decimal.digits pin.index.toNat := rfl
  have letter : Utf8.encode ['P'] = Utf8.ofString "P" := rfl
  have bank : Utf8.encode [pin.bank] = Utf8.encodeChar pin.bank := List.append_nil _
  rw [parts, Utf8.encode_append, Utf8.encode_append, letter, bank]
  simp only [pieces, List.flatten_cons, List.flatten_nil, List.append_nil, List.append_assoc]

theorem length_encodeChar_le (c : Char) : (Utf8.encodeChar c).length ≤ 4 := by
  rw [Utf8.encodeChar_eq_utf8EncodeChar, String.length_utf8EncodeChar]
  exact c.utf8Size_le_four

theorem text_injective {pin other : Pin} (same : pin.text = other.text) : pin = other := by
  obtain ⟨bank, index⟩ := pin
  obtain ⟨otherBank, otherIndex⟩ := other
  simp only [text, List.cons.injEq, true_and] at same
  obtain ⟨rfl, digits⟩ := same
  have number := UInt8.toNat_inj.mp (Decimal.digits_injective digits)
  rw [number]

/-- On a sink that never fails, the pieces of a pin's name come out as the bytes of the name that is
put together as text, and the bank needs no more than the four bytes of its buffer. Two pins have
the same name, as text or as bytes, if and only if they are equal.
-/
theorem names_agree (pin other : Pin) {sink : Sink} (endless : sink.limit = none)
    : let name := "P" ++ String.singleton pin.bank ++ toString pin.index
      (∃ later,
          sink.writePieces pin.pieces = (.ok (), later)
          ∧ later.record = sink.record ++ name.toUTF8.data.toList)
      ∧ String.ofList pin.text = name
      ∧ (Utf8.encodeChar pin.bank).length ≤ 4
      ∧ (String.ofList pin.text = String.ofList other.text ↔ pin = other)
      ∧ (pin.pieces.flatten = other.pieces.flatten ↔ pin = other) := by
  intro name
  have bytes : pin.pieces.flatten = name.toUTF8.data.toList := by
    have text : name = String.ofList pin.text := (ofList_text pin).symm
    rw [flatten_pieces, ← Utf8.ofString_eq_toUTF8, text, Utf8.ofString, String.toList_ofList]
  refine ⟨?_, ofList_text pin, length_encodeChar_le pin.bank, ⟨?_, fun same => same ▸ rfl⟩, ?_,
    fun same => same ▸ rfl⟩
  · obtain ⟨later, written, _, record⟩ := Sink.writePieces_endless endless pin.pieces
    exact ⟨later, written, bytes ▸ record⟩
  · exact fun same => text_injective (String.ofList_injective same)
  · intro same
    rw [flatten_pieces, flatten_pieces] at same
    exact text_injective (Utf8.encode_injective same)

/-- A bank of four bytes, and one that looks like a part of the number, on a sink that is busy. -/
theorem names_agree_of_odd_banks
    : let pin : Pin := { bank := Char.ofNat 0x10FFFF, index := 255 }
      let other : Pin := { bank := '1', index := 0 }
      let sink : Sink := { record := [0x3E], delay := fun _ => 2 }
      sink.limit = none
      ∧ (∃ later,
          sink.writePieces pin.pieces = (.ok (), later)
          ∧ later.record = [0x3E, 0x50, 0xF4, 0x8F, 0xBF, 0xBF, 0x32, 0x35, 0x35])
      ∧ (String.ofList other.text = String.ofList pin.text ↔ other = pin)
      ∧ String.ofList other.text = "P10" := by
  intro pin other sink
  have endless : sink.limit = none := rfl
  obtain ⟨⟨later, written, record⟩, _⟩ := names_agree pin other endless
  obtain ⟨_, text, _, equal, _⟩ := names_agree other pin endless
  exact ⟨endless, ⟨later, written, record.trans (by decide)⟩, equal, text.trans (by decide)⟩

end Firmware.Pin
