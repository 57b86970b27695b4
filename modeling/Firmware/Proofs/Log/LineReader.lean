import Firmware.Log.Line
import Firmware.Proofs.Text.Utf8
import Mathlib.Data.List.Infix

/-! Reading a line of the serial log back.
The texts of a line are not escaped. The reader takes the tag from the front (`readTag_tagText`),
the format up to the first opening parenthesis after a blank (`readFormat_append`), and the location
from the end, up to the last colon (`readPlace_append`). What is left is the module, whatever it
contains, so a line reads back as its record (`readLine_text`).
-/

namespace Firmware

--------------------------------------------------------------------------------
-- Signed numbers
--------------------------------------------------------------------------------

namespace Decimal

/-- The number that digits stand for, after a minus sign if it is negative. -/
def readSigned : List Char → Int
  | '-' :: digits => -(value digits : Int)
  | digits => value digits

theorem isDigit_of_mem_signed {n : Int} {c : Char} (member : c ∈ signed n)
    : c = '-' ∨ c.isDigit = true := by
  unfold signed at member
  split at member
  · rcases List.mem_cons.mp member with rfl | digit
    · exact Or.inl rfl
    · exact Or.inr (isDigit_of_mem_digits digit)
  · exact Or.inr (isDigit_of_mem_digits member)

theorem readSigned_signed (n : Int) : readSigned (signed n) = n := by
  unfold signed
  split
  · rename_i negative
    change -(value (digits n.natAbs) : Int) = n
    rw [value_digits]
    omega
  · rename_i nonnegative
    have unsigned : readSigned (digits n.natAbs) = value (digits n.natAbs) := by
      unfold readSigned
      split
      · rename_i rest starts
        have minus : '-' ∈ digits n.natAbs := starts ▸ List.mem_cons_self
        cases isDigit_of_mem_digits minus
      · rfl
    rw [unsigned, value_digits]
    omega

end Decimal

namespace LogLine

--------------------------------------------------------------------------------
-- The text of a line
--------------------------------------------------------------------------------

/-- The tag in front of a line as text. -/
def tagText (colored : Bool) (severity : Severity) : List Char :=
  if colored then
    (color severity).toList ++ '[' :: severity.tag.toList ++ ']' :: reset.toList ++ [' ']
  else '[' :: severity.tag.toList ++ [']', ' ']

/-- The line of a record as text, without the newline that ends it. -/
def text (colored : Bool) (record : LogRecord) : List Char :=
  tagText colored record.severity
    ++ (record.format.toList
      ++ ([' ', '('] ++ (record.module.toList ++ ':' :: Decimal.signed record.location ++ [')'])))

theorem flatten_tag (colored : Bool) (severity : Severity)
    : (tag colored severity).flatten = Utf8.encode (tagText colored severity) := by
  cases colored <;> cases severity <;> rfl

theorem flatten_ofRecord (colored : Bool) (record : LogRecord)
    : (ofRecord colored record).flatten = Utf8.encode (text colored record ++ ['\n']) := by
  have closing : ")\n".toList = [')', '\n'] := rfl
  have opening : " (".toList = [' ', '('] := rfl
  have colon : ":".toList = [':'] := rfl
  simp only [ofRecord, text, List.flatten_append, flatten_tag, Utf8.ofString, closing, opening,
    colon, List.flatten_cons, List.flatten_nil, List.append_nil, ← Utf8.encode_append,
    List.append_assoc, List.cons_append, List.nil_append]

--------------------------------------------------------------------------------
-- Reading
--------------------------------------------------------------------------------

def severities : List Severity := [.trace, .debug, .info, .warn, .error, .fatal]

def readTag (colored : Bool) (line : List Char) : Option (Severity × List Char) :=
  severities.findSome? fun severity =>
    ((tagText colored severity).isPrefixOf? line).map fun rest => (severity, rest)

def readFormat (line : List Char) : Option (List Char × List Char) :=
  line.dropInfix? [' ', '(']

def readPlace (line : List Char) : Option (List Char × Int) :=
  match line.reverse with
  | ')' :: reversed =>
      match reversed.dropWhile (· ≠ ':') with
      | ':' :: module =>
          some (module.reverse, Decimal.readSigned (reversed.takeWhile (· ≠ ':')).reverse)
      | _ => none
  | _ => none

/-- The record of which the text is the line. -/
def readLine (colored : Bool) (line : List Char) : Option LogRecord := do
  let (severity, line) ← readTag colored line
  let (format, line) ← readFormat line
  let (module, location) ← readPlace line
  return ⟨severity, String.ofList format, String.ofList module, location⟩

theorem readTag_tagText (colored : Bool) (severity : Severity) (rest : List Char)
    : readTag colored (tagText colored severity ++ rest) = some (severity, rest) := by
  cases colored <;> cases severity <;> rfl

/-- The first opening parenthesis after a blank ends the format. None starts inside of it, and none
can start in its last character: that would be a parenthesis where the line has a blank.
-/
theorem readFormat_append {format : List Char} (closed : ¬ [' ', '('] <:+: format)
    (rest : List Char)
    : readFormat (format ++ ([' ', '('] ++ rest)) = some (format, rest) := by
  apply List.dropInfix?_eq_some_iff.mpr
  refine ⟨⟨_, (List.append_assoc _ _ _).symm, beq_self_eq_true _⟩, ?_⟩
  intro before opening after split isOpening
  obtain rfl := eq_of_beq isOpening
  rw [List.append_assoc] at split
  rcases List.append_eq_append_iff.mp split with ⟨more, rfl, _⟩ | ⟨inside, rfl, overlap⟩
  · simp
  · rcases inside with _ | ⟨first, _ | ⟨second, inside⟩⟩
    · simp
    · simp at overlap
    · simp only [List.cons_append, List.cons.injEq] at overlap
      obtain ⟨rfl, rfl, _⟩ := overlap
      exact absurd ⟨before, inside, by simp⟩ closed

theorem readPlace_append (module : List Char) (location : Int)
    : readPlace (module ++ ':' :: Decimal.signed location ++ [')']) = some (module, location) := by
  have noColon : ∀ c ∈ (Decimal.signed location).reverse, decide (c ≠ ':') = true := by
    intro c member
    rw [List.mem_reverse] at member
    apply decide_eq_true
    rintro rfl
    rcases Decimal.isDigit_of_mem_signed member with minus | digit
    · cases minus
    · cases digit
  have reversed : (module ++ ':' :: Decimal.signed location ++ [')']).reverse
      = ')' :: ((Decimal.signed location).reverse ++ ':' :: module.reverse) := by
    simp
  have place : ((Decimal.signed location).reverse ++ ':' :: module.reverse).dropWhile (· ≠ ':')
      = ':' :: module.reverse := by
    rw [List.dropWhile_append_of_pos noColon]
    rfl
  have number : ((Decimal.signed location).reverse ++ ':' :: module.reverse).takeWhile (· ≠ ':')
      = (Decimal.signed location).reverse := by
    rw [List.takeWhile_append_of_pos noColon]
    exact List.append_nil _
  unfold readPlace
  simp only [reversed, place, number, List.reverse_reverse, Decimal.readSigned_signed]

theorem readLine_text (colored : Bool) {record : LogRecord}
    (closed : ¬ [' ', '('] <:+: record.format.toList)
    : readLine colored (text colored record) = some record := by
  have format := readFormat_append closed
    (record.module.toList ++ ':' :: Decimal.signed record.location ++ [')'])
  simp only [readLine, text, readTag_tagText, format, readPlace_append, Option.bind_eq_bind,
    Option.bind_some, String.ofList_toList]
  rfl

end LogLine

end Firmware
