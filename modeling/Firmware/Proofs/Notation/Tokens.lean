import Firmware.Proofs.Notation.Blanks
import Firmware.Text.Decimal
import Mathlib.Data.List.Basic

/-! The parts of a text: words, integers in any base, and marks.
A text of given parts has blanks between them wherever it likes (`Spaced`). Words and integers are
read up to the mark or the blank that follows them (`readName?_word`, `readUnsigned?_numeral`).
-/

namespace Firmware.Notation

/-- What may follow a word or an integer: none of the characters it could go on with. -/
def Ends (text : List Char) : Prop :=
  ∀ c, text.head? = some c → isNameRest c = false

--------------------------------------------------------------------------------
-- Words
--------------------------------------------------------------------------------

/-- Whether a text is a name as it stands: no raw name, and nothing that could start one. -/
def isPlain : List Char → Bool
  | [] => false
  | first :: rest => isNameStart first && first ≠ 'r' && rest.all isNameRest

/-- A name that is written as it stands. -/
structure Word where
  name : String
  plain : isPlain name.toList = true

theorem takeWhile_append_of_ends {p : Char → Bool} {inside text : List Char}
    (all : ∀ c ∈ inside, p c = true) (ends : ∀ c, text.head? = some c → p c = false)
    : (inside ++ text).takeWhile p = inside := by
  rw [List.takeWhile_append_of_pos all]
  cases text with
  | nil => exact List.append_nil inside
  | cons c text => rw [List.takeWhile_cons_of_neg (by simp [ends c rfl]), List.append_nil]

theorem dropWhile_append_of_ends {p : Char → Bool} {inside text : List Char}
    (all : ∀ c ∈ inside, p c = true) (ends : ∀ c, text.head? = some c → p c = false)
    : (inside ++ text).dropWhile p = text := by
  rw [List.dropWhile_append_of_pos all]
  cases text with
  | nil => rfl
  | cons c text => exact List.dropWhile_cons_of_neg (by simp [ends c rfl])

namespace Word

theorem exists_cons (word : Word)
    : ∃ first rest,
        word.name.toList = first :: rest
        ∧ isNameStart first = true
        ∧ first ≠ 'r'
        ∧ ∀ c ∈ first :: rest, isNameRest c = true := by
  have plain := word.plain
  cases letters : word.name.toList with
  | nil =>
      rw [letters] at plain
      cases plain
  | cons first rest =>
      simp only [letters, isPlain, Bool.and_eq_true, decide_eq_true_eq, List.all_eq_true] at plain
      obtain ⟨⟨starts, notRaw⟩, goesOn⟩ := plain
      have firstGoesOn : isNameRest first = true := by rw [isNameRest, starts, Bool.true_or]
      exact ⟨first, rest, rfl, starts, notRaw, List.forall_mem_cons.mpr ⟨firstGoesOn, goesOn⟩⟩

end Word

/-- A word is read up to its end. -/
theorem readName?_word (word : Word) {text : List Char} (ends : Ends text)
    : readName? (word.name.toList ++ text) = some (word.name.toList, text) := by
  obtain ⟨first, rest, letters, starts, notRaw, inside⟩ := word.exists_cons
  have notRawStart : ∀ {after}, first :: (rest ++ text) = 'r' :: after → False :=
    fun same => notRaw (List.cons.inj same).1
  rw [letters, List.cons_append, readName?]
  · rw [← List.cons_append, takeWhile_append_of_ends inside ends,
      dropWhile_append_of_ends inside ends, List.cons_append, List.head?_cons, Option.any_some,
      starts, if_pos rfl]
  · exact notRawStart
  · exact fun _ => notRawStart
  · exact fun _ => notRawStart

--------------------------------------------------------------------------------
-- Integers
--------------------------------------------------------------------------------

/-- The bases of integers. -/
inductive Base where
  | binary
  | octal
  | decimal
  | hexadecimal
deriving DecidableEq, Repr

namespace Base

def radix : Base → Nat
  | binary => 2
  | octal => 8
  | decimal => 10
  | hexadecimal => 16

/-- What announces a base. -/
def announcement : Base → List Char
  | binary => ['0', 'b']
  | octal => ['0', 'o']
  | decimal => []
  | hexadecimal => ['0', 'x']

/-- Whether a character is a digit of a base. -/
def isDigit (base : Base) (c : Char) : Bool := (hexValue? c).any (· < base.radix)

/-- The value of digits of which one more is read. Separators do not count. -/
def push (base : Base) (value : Nat) (c : Char) : Nat :=
  match hexValue? c with
  | some digit => base.radix * value + digit
  | none => value

theorem isDigit_iff {base : Base} {c : Char}
    : base.isDigit c = true ↔ ∃ digit, hexValue? c = some digit ∧ digit < base.radix := by
  simp [isDigit, Option.any_eq_true]

end Base

/-- An integer as it is written: digits of a base, with separators after the first of them. -/
structure Numeral where
  base : Base
  first : Char
  rest : List Char
  first_isDigit : base.isDigit first = true
  rest_isDigit : ∀ c ∈ rest, c = '_' ∨ base.isDigit c = true
deriving DecidableEq

namespace Numeral

def digits (numeral : Numeral) : List Char := numeral.first :: numeral.rest

def text (numeral : Numeral) : List Char := numeral.base.announcement ++ numeral.digits

/-- The number that is written. -/
def value (numeral : Numeral) : Nat := numeral.digits.foldl numeral.base.push 0

end Numeral

theorem isIntegerChar_of_hexValue? {c : Char} {digit : Nat} (value : hexValue? c = some digit)
    : isIntegerChar c = true := by
  unfold hexValue? at value
  unfold isIntegerChar
  split at value
  next decimal => rw [decimal, Bool.true_or, Bool.true_or, Bool.true_or]
  next =>
    split at value
    next small => rw [small, Bool.or_true, Bool.true_or, Bool.true_or]
    next =>
      split at value
      next large => rw [large, Bool.or_true, Bool.true_or]
      next => cases value

theorem isNameRest_of_isIntegerChar {c : Char} (inside : isIntegerChar c = true)
    : isNameRest c = true := by
  simp only [isIntegerChar, Bool.or_eq_true, Bool.and_eq_true, decide_eq_true_eq] at inside
  simp only [isNameRest, isNameStart, isLetter, Bool.or_eq_true, Bool.and_eq_true,
    decide_eq_true_eq]
  obtain ((digit | small) | large) | separator := inside
  · exact .inr digit
  · exact .inl (.inl (.inl ⟨small.1, Char.le_trans small.2 (by decide)⟩))
  · exact .inl (.inl (.inr ⟨large.1, Char.le_trans large.2 (by decide)⟩))
  · exact .inl (.inr separator)

theorem Ends.integer {text : List Char} (ends : Ends text)
    : ∀ c, text.head? = some c → isIntegerChar c = false := by
  intro c head
  cases inside : isIntegerChar c with
  | false => rfl
  | true => cases (isNameRest_of_isIntegerChar inside).symm.trans (ends c head)

/-- Digits have the value that is built up from them one by one. -/
theorem digitsValue?_eq (base : Base) {digits : List Char}
    (valid : ∀ c ∈ digits, c = '_' ∨ base.isDigit c = true) (value : Nat)
    : digitsValue? base.radix value digits = some (digits.foldl base.push value) := by
  induction digits generalizing value with
  | nil => rfl
  | cons c digits ih =>
      obtain ⟨first, later⟩ := List.forall_mem_cons.mp valid
      by_cases separator : c = '_'
      · subst separator
        exact ih later value
      · obtain ⟨digit, known, small⟩ := Base.isDigit_iff.mp (first.resolve_left separator)
        rw [digitsValue?, List.foldl_cons, Base.push, known, ← ih later]
        · exact if_pos small
        · exact separator

namespace Numeral

theorem isIntegerChar_of_mem_digits (numeral : Numeral)
    : ∀ c ∈ numeral.digits, isIntegerChar c = true := by
  intro c member
  have valid : c = '_' ∨ numeral.base.isDigit c = true := by
    obtain rfl | later := List.mem_cons.mp member
    · exact .inr numeral.first_isDigit
    · exact numeral.rest_isDigit c later
  obtain rfl | digit := valid
  · rfl
  · obtain ⟨_, known, _⟩ := Base.isDigit_iff.mp digit
    exact isIntegerChar_of_hexValue? known

/-- The base of a numeral is the one that is read. A digit of a decimal number announces no
base.
-/
theorem readBase_text (numeral : Numeral) {text : List Char} (ends : Ends text)
    : readBase (numeral.text ++ text) = (numeral.base.radix, numeral.digits ++ text) := by
  obtain ⟨base, first, rest, firstDigit, restDigits⟩ := numeral
  cases base with
  | binary | octal | hexadecimal => rfl
  | decimal =>
      have notMark (mark : Char) (goesOn : isNameRest mark = true)
          (noDigit : ¬ (mark = '_' ∨ Base.decimal.isDigit mark = true)) (after : List Char)
          : first :: (rest ++ text) = '0' :: mark :: after → False := by
        intro announced
        have second := (List.cons.inj announced).2
        cases rest with
        | nil =>
            have stops := ends mark (congrArg List.head? second)
            cases goesOn.symm.trans stops
        | cons c rest =>
            have same : c = mark := (List.cons.inj second).1
            exact noDigit (same ▸ restDigits c List.mem_cons_self)
      change readBase (first :: (rest ++ text)) = (10, first :: (rest ++ text))
      rw [readBase]
      · exact notMark 'x' (by decide) (by decide)
      · exact notMark 'b' (by decide) (by decide)
      · exact notMark 'o' (by decide) (by decide)

/-- A numeral is read as its value, if that is below the limit. -/
theorem readUnsigned?_text (numeral : Numeral) {text : List Char} (ends : Ends text) (limit : Nat)
    : readUnsigned? limit (numeral.text ++ text)
      = if numeral.value < limit then some (numeral.value, text) else none := by
  have inside := numeral.isIntegerChar_of_mem_digits
  have valid : ∀ c ∈ numeral.digits, c = '_' ∨ numeral.base.isDigit c = true :=
    List.forall_mem_cons.mpr ⟨.inr numeral.first_isDigit, numeral.rest_isDigit⟩
  have notSeparator : numeral.first ≠ '_' := by
    intro separator
    have digit := numeral.first_isDigit
    rw [separator] at digit
    cases digit
  have started : (numeral.digits.isEmpty || numeral.digits.head? = some '_') = false := by
    simp [digits, notSeparator]
  simp only [readUnsigned?, numeral.readBase_text ends,
    takeWhile_append_of_ends inside ends.integer, dropWhile_append_of_ends inside ends.integer,
    started, digitsValue?_eq numeral.base valid]
  rfl

theorem hexValue?_of_isDigit {c : Char} (digit : c.isDigit = true)
    : hexValue? c = some (c.toNat - '0'.toNat) := by
  have same : isDigit c = true := digit
  rw [hexValue?, if_pos same]

theorem isDigit_decimal {c : Char} (digit : c.isDigit = true) : Base.decimal.isDigit c = true := by
  have small : c.toNat ≤ 57 := (Char.isDigit_iff_toNat.mp digit).2
  refine Base.isDigit_iff.mpr ⟨_, hexValue?_of_isDigit digit, ?_⟩
  change c.toNat - 48 < 10
  omega

/-- A number in decimal digits. -/
def ofNat (n : Nat) : Numeral where
  base := .decimal
  first := (Decimal.digits n).head Nat.toDigits_ne_nil
  rest := (Decimal.digits n).tail
  first_isDigit := isDigit_decimal (Decimal.isDigit_of_mem_digits (List.head_mem _))
  rest_isDigit _ member :=
    .inr (isDigit_decimal (Decimal.isDigit_of_mem_digits (List.mem_of_mem_tail member)))

theorem text_ofNat (n : Nat) : (ofNat n).text = Decimal.digits n := List.cons_head_tail _

theorem value_ofNat (n : Nat) : (ofNat n).value = n := by
  have digits : (ofNat n).digits = Decimal.digits n := text_ofNat n
  rw [value, digits]
  calc (Decimal.digits n).foldl Base.decimal.push 0
      = Decimal.value (Decimal.digits n) := by
        refine List.foldl_ext _ _ _ fun _ _ member => ?_
        rw [Base.push, hexValue?_of_isDigit (Decimal.isDigit_of_mem_digits member)]
        rfl
    _ = n := Decimal.value_digits n

end Numeral

--------------------------------------------------------------------------------
-- Texts of tokens
--------------------------------------------------------------------------------

/-- The signs that hold a record together. -/
inductive Mark where
  | opening
  | closing
  | colon
  | comma
deriving DecidableEq, Repr

def Mark.char : Mark → Char
  | opening => '('
  | closing => ')'
  | colon => ':'
  | comma => ','

/-- A part of a text. -/
inductive Token where
  | mark (mark : Mark)
  | word (word : Word)
  | numeral (numeral : Numeral)

namespace Token

def text : Token → List Char
  | .mark sign => [sign.char]
  | .word name => name.name.toList
  | .numeral integer => integer.text

/-- No token starts with a blank or a slash. -/
theorem exists_cons (token : Token)
    : ∃ c rest, token.text = c :: rest ∧ isBlank c = false ∧ c ≠ '/' := by
  have solid {c : Char} (goesOn : isNameRest c = true) : isBlank c = false ∧ c ≠ '/' := by
    constructor
    · by_contra blank
      simp only [isBlank, Bool.not_eq_false, Bool.or_eq_true, decide_eq_true_eq] at blank
      obtain ((rfl | rfl) | rfl) | rfl := blank <;> cases goesOn
    · rintro rfl
      cases goesOn
  cases token with
  | mark sign => cases sign <;> exact ⟨_, [], rfl, by decide, by decide⟩
  | word word =>
      obtain ⟨first, rest, letters, _, _, inside⟩ := word.exists_cons
      exact ⟨first, rest, letters, solid (inside first List.mem_cons_self)⟩
  | numeral numeral =>
      obtain ⟨base, first, rest, firstDigit, restDigits⟩ := numeral
      cases base with
      | binary | octal | hexadecimal => exact ⟨'0', _, rfl, by decide, by decide⟩
      | decimal =>
          obtain ⟨_, known, _⟩ := Base.isDigit_iff.mp firstDigit
          exact ⟨first, rest, rfl,
            solid (isNameRest_of_isIntegerChar (isIntegerChar_of_hexValue? known))⟩

end Token

/-- A text has the given tokens, with blanks around each of them. -/
inductive Spaced : List Token → List Char → Prop where
  | atEnd {gap : List Char} (atEnd : EndBlanks gap) : Spaced [] gap
  | token {gap text : List Char} {token : Token} {tokens : List Token} (blanks : Blanks gap)
      (more : Spaced tokens text)
      : Spaced (token :: tokens) (gap ++ (token.text ++ text))

/-- A text has the given tokens and starts with the first of them. -/
def Ready : List Token → List Char → Prop
  | [], text => text = []
  | token :: tokens, text => ∃ rest, text = token.text ++ rest ∧ Spaced tokens rest

theorem Ready.spaced {tokens : List Token} {text : List Char} (ready : Ready tokens text)
    : Spaced tokens text := by
  cases tokens with
  | nil =>
      obtain rfl := ready
      exact .atEnd (.blanks .nil)
  | cons token tokens =>
      obtain ⟨rest, rfl, more⟩ := ready
      exact .token .nil more

namespace Spaced

variable {tokens : List Token} {text : List Char}

/-- Once blanks are skipped, the next token is at hand. -/
theorem skipBlanks (spaced : Spaced tokens text)
    : ∃ rest, skipBlanks text = some rest ∧ Ready tokens rest := by
  cases spaced with
  | atEnd atEnd => exact ⟨[], atEnd.skipBlanks, rfl⟩
  | @token gap rest token tokens blanks more =>
      obtain ⟨c, others, letters, solid⟩ := token.exists_cons
      refine ⟨token.text ++ rest, ?_, rest, rfl, more⟩
      rw [skipBlanks_append blanks, letters, List.cons_append, skipBlanks_of_solid solid]

/-- A mark ends what stands in front of it, as do blanks in between. -/
theorem ends {mark : Mark} (spaced : Spaced (.mark mark :: tokens) text) : Ends text := by
  intro c head
  cases spaced with
  | @token gap rest _ _ blanks more =>
      cases gap with
      | nil =>
          obtain rfl := Option.some.inj head
          cases mark <;> rfl
      | cons d gap =>
          obtain rfl := Option.some.inj head
          rcases blanks.head with blank | rfl
          · simp only [isBlank, Bool.or_eq_true, decide_eq_true_eq] at blank
            obtain ((rfl | rfl) | rfl) | rfl := blank <;> rfl
          · rfl

/-- Every token takes characters. -/
theorem length_le (spaced : Spaced tokens text) : tokens.length ≤ text.length := by
  induction spaced with
  | atEnd => exact Nat.zero_le _
  | @token gap rest token tokens blanks more ih =>
      obtain ⟨c, others, letters, _⟩ := token.exists_cons
      simp only [letters, List.length_append, List.length_cons]
      omega

/-- Blanks may be put in front. -/
theorem append_left {gap : List Char} (blanks : Blanks gap) (spaced : Spaced tokens text)
    : Spaced tokens (gap ++ text) := by
  cases spaced with
  | atEnd atEnd => exact .atEnd (.append_left blanks atEnd)
  | @token inner rest token tokens innerBlanks more =>
      rw [← List.append_assoc]
      exact .token (blanks.append innerBlanks) more

/-- Tokens may stand side by side. -/
theorem render_append (tokens : List Token) {others : List Token} (spaced : Spaced others text)
    : Spaced (tokens ++ others) (tokens.flatMap Token.text ++ text) := by
  induction tokens with
  | nil => exact spaced
  | cons token tokens ih =>
      rw [List.flatMap_cons, List.append_assoc]
      exact .token .nil ih

/-- A text may have no blanks at all. -/
theorem render (tokens : List Token) : Spaced tokens (tokens.flatMap Token.text) := by
  have spaced := render_append tokens (.atEnd (.blanks .nil))
  rwa [List.append_nil, List.append_nil] at spaced

end Spaced

end Firmware.Notation
