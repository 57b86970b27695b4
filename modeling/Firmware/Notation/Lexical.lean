/-! The lexical part of the configuration notation: blanks and comments, names, and integers.
Every reader takes the text that is left and answers with what it read and the text after it, or
with nothing if the text does not start that way.
-/

namespace Firmware.Notation

--------------------------------------------------------------------------------
-- Characters
--------------------------------------------------------------------------------

def isBlank (c : Char) : Bool := c = ' ' || c = '\t' || c = '\r' || c = '\n'

def isLetter (c : Char) : Bool := ('a' ≤ c && c ≤ 'z') || ('A' ≤ c && c ≤ 'Z')

def isDigit (c : Char) : Bool := '0' ≤ c && c ≤ '9'

/-- The characters a name can start with. -/
def isNameStart (c : Char) : Bool := isLetter c || c = '_'

/-- The characters a name can go on with. -/
def isNameRest (c : Char) : Bool := isNameStart c || isDigit c

/-- The characters of a raw name. -/
def isRawName (c : Char) : Bool := isNameRest c || c = '.' || c = '+' || c = '-'

/-- The digits of the largest base, and the separator. -/
def isIntegerChar (c : Char) : Bool :=
  isDigit c || ('a' ≤ c && c ≤ 'f') || ('A' ≤ c && c ≤ 'F') || c = '_'

/-- The characters of a number with a fraction or an exponent. -/
def isFloatChar (c : Char) : Bool :=
  isDigit c || c = '.' || c = 'E' || c = 'e' || c = '+' || c = '-'

/-- The value of a hexadecimal digit. -/
def hexValue? (c : Char) : Option Nat :=
  if isDigit c then some (c.toNat - '0'.toNat)
  else if 'a' ≤ c && c ≤ 'f' then some (10 + (c.toNat - 'a'.toNat))
  else if 'A' ≤ c && c ≤ 'F' then some (10 + (c.toNat - 'A'.toNat))
  else none

--------------------------------------------------------------------------------
-- Blanks and comments
--------------------------------------------------------------------------------

/-- The text after a comment that is `depth` levels deep. Comments nest. -/
def skipComment : (depth : Nat) → List Char → Option (List Char)
  | 0, text => some text
  | depth + 1, '/' :: '*' :: rest => skipComment (depth + 2) rest
  | depth + 1, '*' :: '/' :: rest => skipComment depth rest
  | depth + 1, _ :: rest => skipComment (depth + 1) rest
  | _ + 1, [] => none

theorem length_le_of_skipComment {depth : Nat} {text rest : List Char}
    (skipped : skipComment depth text = some rest)
    : rest.length ≤ text.length := by
  induction depth, text using skipComment.induct with
  | case1 text =>
    rw [skipComment, Option.some.injEq] at skipped
    exact Nat.le_of_eq (congrArg List.length skipped.symm)
  | case2 depth text ih =>
    have := ih skipped
    simp only [List.length_cons]
    omega
  | case3 depth text ih =>
    have := ih skipped
    simp only [List.length_cons]
    omega
  | case4 depth c text notOpening notClosing ih =>
    rw [skipComment.eq_4 _ _ _ notOpening notClosing] at skipped
    have := ih skipped
    simp only [List.length_cons]
    omega
  | case5 depth => simp [skipComment] at skipped

/-- The text after a line. The line break is left. -/
def skipLine (text : List Char) : List Char := text.dropWhile (· ≠ '\n')

theorem length_skipLine_le (text : List Char) : (skipLine text).length ≤ text.length :=
  (List.dropWhile_suffix _).sublist.length_le

/-- The text after any blanks and comments; nothing if a comment is not closed, or a slash does
not start one. -/
def skipBlanks : List Char → Option (List Char)
  | [] => some []
  | '/' :: '/' :: rest => skipBlanks (skipLine rest)
  | '/' :: '*' :: rest =>
    match _closed : skipComment 1 rest with
    | some rest' => skipBlanks rest'
    | none => none
  | c :: rest => if isBlank c then skipBlanks rest else if c = '/' then none else some (c :: rest)
termination_by text => text.length
decreasing_by
  · have := length_skipLine_le rest
    simp only [List.length_cons]
    omega
  · have := length_le_of_skipComment _closed
    simp only [List.length_cons]
    omega
  · simp

--------------------------------------------------------------------------------
-- Fixed text
--------------------------------------------------------------------------------

/-- The text after `expected`, if it starts with it. -/
def readText? (expected : String) (text : List Char) : Option (List Char) :=
  expected.toList.isPrefixOf? text

/-- The text after `word`, if it starts with it and the word ends there. -/
def readWord? (word : String) (text : List Char) : Option (List Char) :=
  match readText? word text with
  | some (c :: rest) => if isNameRest c then none else some (c :: rest)
  | after => after

/-- The text after a comma and the blanks around it; whether there was a comma comes first. -/
def readComma? (text : List Char) : Option (Bool × List Char) := do
  match ← skipBlanks text with
  | ',' :: rest => return (true, ← skipBlanks rest)
  | rest => return (false, rest)

--------------------------------------------------------------------------------
-- Names
--------------------------------------------------------------------------------

/-- Reads a name: letters, digits and underscores, or a raw name after `r#`. Text that starts
like a raw string is no name, and neither is an `r` at the end. -/
def readName? : List Char → Option (List Char × List Char)
  | ['r'] => none
  | 'r' :: '"' :: _ => none
  | 'r' :: '#' :: rest =>
    match rest.takeWhile isRawName with
    | [] => none
    | name => some (name, rest.dropWhile isRawName)
  | text =>
    if text.head?.any isNameStart then
      some (text.takeWhile isNameRest, text.dropWhile isNameRest)
    else none

--------------------------------------------------------------------------------
-- Integers
--------------------------------------------------------------------------------

/-- The base that a text announces, and the text after the announcement. -/
def readBase : List Char → Nat × List Char
  | '0' :: 'x' :: rest => (16, rest)
  | '0' :: 'b' :: rest => (2, rest)
  | '0' :: 'o' :: rest => (8, rest)
  | text => (10, text)

/-- The value of digits in a base. Separators are ignored; a digit the base does not have makes
the value undefined. -/
def digitsValue? (base : Nat) : (value : Nat) → List Char → Option Nat
  | value, [] => some value
  | value, '_' :: rest => digitsValue? base value rest
  | value, c :: rest =>
    match hexValue? c with
    | some digit =>
      if digit < base then digitsValue? base (base * value + digit) rest else none
    | none => none

/-- Reads an unsigned integer below `limit`. The digits go as far as those of the largest base
would, and do not start with a separator. -/
def readUnsigned? (limit : Nat) (text : List Char) : Option (Nat × List Char) := do
  let (base, text) := readBase text
  let digits := text.takeWhile isIntegerChar
  if digits.isEmpty || digits.head? = some '_' then none
  else
    let value ← digitsValue? base 0 digits
    if value < limit then some (value, text.dropWhile isIntegerChar) else none

end Firmware.Notation
