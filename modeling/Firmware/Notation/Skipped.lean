import Firmware.Notation.Lexical

/-! Values that are read and ignored: the values of fields that no configuration has.
Any value of the notation is accepted: truth values, options, units, numbers, text, names with or
without a group, lists, maps and tuples.
-/

namespace Firmware.Notation

--------------------------------------------------------------------------------
-- Numbers
--------------------------------------------------------------------------------

/-- The text after the digits it starts with, and whether there is any. -/
def skipDigits (text : List Char) : Bool × List Char :=
  (text.head?.any isDigit, text.dropWhile isDigit)

/-- The text after a sign, if it starts with one. -/
def skipSign : List Char → List Char
  | '+' :: rest => rest
  | '-' :: rest => rest
  | text => text

/-- Whether a text without a sign is empty or an exponent with digits. -/
def isExponent : List Char → Bool
  | [] => true
  | 'e' :: rest => (skipDigits (skipSign rest)) = (true, [])
  | 'E' :: rest => (skipDigits (skipSign rest)) = (true, [])
  | _ => false

/-- Whether a text is a decimal number: a sign, digits with at most one point among them, and an
exponent; sign and exponent may be left out. -/
def isDecimal (text : List Char) : Bool :=
  let (whole, rest) := skipDigits (skipSign text)
  match rest with
  | '.' :: rest =>
    let (fraction, rest) := skipDigits rest
    (whole || fraction) && isExponent rest
  | rest => whole && isExponent rest

/-- The text after a number with a fraction or an exponent. -/
def skipFloat? (text : List Char) : Option (List Char) :=
  if isDecimal (text.takeWhile isFloatChar) then some (text.dropWhile isFloatChar) else none

/-- Whether the characters of a fractional number go further than those of an integer. -/
def looksFractional (text : List Char) : Bool :=
  ((skipSign text).takeWhile isIntegerChar).length < ((skipSign text).takeWhile isFloatChar).length

/-- The number of integers of 128 bits. -/
def integerCount : Nat := 0x100000000000000000000000000000000

/-- The text after an integer of 128 bits. -/
def skipInteger? : List Char → Option (List Char)
  | '-' :: rest => (readUnsigned? (integerCount / 2 + 1) rest).map Prod.snd
  | '+' :: rest => (readUnsigned? (integerCount / 2) rest).map Prod.snd
  | text => (readUnsigned? integerCount text).map Prod.snd

/-- The text after a number. What is no integer of 128 bits is read as a fractional number. -/
def skipNumber? (text : List Char) : Option (List Char) :=
  if looksFractional text then skipFloat? text
  else
    match skipInteger? text with
    | some rest => some rest
    | none => skipFloat? text

--------------------------------------------------------------------------------
-- Text
--------------------------------------------------------------------------------

/-- Reads up to `count` hexadecimal digits before a closing brace: their number, their value, and
the text after them. -/
def readBraced? : (count read value : Nat) → List Char → Option (Nat × Nat × List Char)
  | 0, read, value, text => some (read, value, text)
  | _ + 1, read, value, '}' :: rest => some (read, value, '}' :: rest)
  | count + 1, read, value, c :: rest => do
    readBraced? count (read + 1) (16 * value + (← hexValue? c)) rest
  | _ + 1, _, _, [] => none

/-- The text after an escape sequence, of which the backslash was read. -/
def skipEscape? : List Char → Option (List Char)
  | 'x' :: high :: low :: rest => do
    let _ ← hexValue? high
    let _ ← hexValue? low
    return rest
  | 'u' :: '{' :: rest => do
    match ← readBraced? 6 0 0 rest with
    | (read, value, '}' :: rest) =>
      if read ≠ 0 ∧ value.isValidChar then some rest else none
    | _ => none
  | c :: rest => if "'\"\\nrt".toList.contains c then some rest else none
  | [] => none

/-- The text after a string, of which the opening quote was read. -/
def skipString? : (fuel : Nat) → List Char → Option (List Char)
  | 0, _ => none
  | _ + 1, [] => none
  | _ + 1, '"' :: rest => some rest
  | fuel + 1, '\\' :: rest => do skipString? fuel (← skipEscape? rest)
  | fuel + 1, _ :: rest => skipString? fuel rest

/-- The text after the first occurrence of `ending`. -/
def skipPast? (ending : List Char) : List Char → Option (List Char)
  | [] => ending.isPrefixOf? []
  | c :: rest =>
    match ending.isPrefixOf? (c :: rest) with
    | some after => some after
    | none => skipPast? ending rest

/-- The text after a raw string, of which the `r` was read: hashes, a quote, and everything up to
a quote followed by as many hashes. -/
def skipRawString? (text : List Char) : Option (List Char) :=
  let hashes := text.takeWhile (· = '#')
  match text.dropWhile (· = '#') with
  | '"' :: rest => skipPast? ('"' :: hashes) rest
  | _ => none

/-- The text after a character literal, of which the opening quote was read. -/
def skipCharacter? (text : List Char) : Option (List Char) := do
  let rest ←
    match text with
    | '\\' :: rest => skipEscape? rest
    | '\'' :: _ => none
    | _ :: rest => some rest
    | [] => none
  match rest with
  | '\'' :: rest => some rest
  | _ => none

--------------------------------------------------------------------------------
-- Values
--------------------------------------------------------------------------------

/-- The kinds of groups, by their elements and the character that closes them. -/
inductive Group where
  /-- Values in brackets or parentheses. -/
  | values (close : Char)
  /-- Named fields in parentheses. -/
  | fields
  /-- Keys with values in braces. -/
  | entries
deriving DecidableEq, Repr

/-- The character that closes a group. -/
def Group.close : Group → Char
  | .values close => close
  | .fields => ')'
  | .entries => '}'

/-- The text after a colon and the blanks around it. -/
def readColon? (text : List Char) : Option (List Char) := do
  match ← skipBlanks text with
  | ':' :: rest => skipBlanks rest
  | _ => none

/-- What is in the parentheses that a text starts with: fields, if a name and a colon come
first. -/
def parenthesised? (text : List Char) : Option Group := do
  match readName? (← skipBlanks text) with
  | none => return .values ')'
  | some (_, rest) =>
    match ← skipBlanks rest with
    | [] => none
    | ':' :: _ => return .fields
    | _ => return .values ')'

mutual

/-- The text after a value. -/
def skipValue? : (fuel : Nat) → List Char → Option (List Char)
  | 0, _ => none
  | fuel + 1, text =>
    match readWord? "true" text, readWord? "false" text with
    | some rest, _ => some rest
    | _, some rest => some rest
    | none, none =>
      match readWord? "Some" text with
      | some rest => skipSome? fuel rest
      | none =>
        match skipUnit? text with
        | some rest => some rest
        | none =>
          match readName? text with
          | some (_, rest) => do
            match ← skipBlanks rest with
            | '(' :: rest => skipGroup? fuel (← parenthesised? rest) rest
            | rest => some rest
          | none =>
            match text with
            | '(' :: rest => do skipGroup? fuel (← parenthesised? rest) rest
            | '[' :: rest => skipGroup? fuel (.values ']') rest
            | '\x7b' :: rest => skipGroup? fuel .entries rest
            | '.' :: _ => skipFloat? text
            | '"' :: rest => skipString? (rest.length + 1) rest
            | 'r' :: rest => skipRawString? rest
            | '\'' :: rest => skipCharacter? rest
            | c :: _ => if isDigit c || c = '+' || c = '-' then skipNumber? text else none
            | [] => none
where
  /-- The text after one of the values that are a single word or sign. -/
  skipUnit? (text : List Char) : Option (List Char) :=
    (readWord? "None" text).or <| (readText? "()" text).or <| (readWord? "inf" text).or <|
      (readWord? "-inf" text).or <| readWord? "NaN" text

/-- The text after the value of an option, of which `Some` was read. -/
def skipSome? : (fuel : Nat) → List Char → Option (List Char)
  | 0, _ => none
  | fuel + 1, text => do
    match ← skipBlanks text with
    | '(' :: rest =>
      let rest ← skipValue? fuel (← skipBlanks rest)
      readText? ")" (← skipBlanks rest)
    | _ => none

/-- The text after a group, of which the elements so far were read with a comma after the last.
Without a comma after it an element is the last one. -/
def skipGroup? : (fuel : Nat) → Group → List Char → Option (List Char)
  | 0, _, _ => none
  | fuel + 1, group, text => do
    match ← skipBlanks text with
    | [] => none
    | c :: rest =>
      if c = group.close then some rest
      else
        let value ←
          match group with
          | .values _ => some (c :: rest)
          | .fields => do readColon? (← readName? (c :: rest)).2
          | .entries => do readColon? (← skipValue? fuel (c :: rest))
        match ← readComma? (← skipValue? fuel value) with
        | (true, rest) => skipGroup? fuel group rest
        | (false, rest) => readText? (String.singleton group.close) rest

end

/-- The text after any value. At least every second step takes a character, which bounds the
number of steps. -/
def skipAnyValue? (text : List Char) : Option (List Char) :=
  skipValue? (2 * text.length + 2) text

end Firmware.Notation
