import Firmware.Build.LinkerScript
import Firmware.Build.Source
import Firmware.Notation.Lexical
import Mathlib.Data.List.Basic

/-! Reading the generated files back.
A reader takes a value from the front of a text and skips the blanks behind it. It reads a value off
the tokens of that value if it does so whatever tokens follow (`Reads`), and this is closed under
all that readers are made of. So the text that declares constants reads back as these constants
(`read?_text`), whatever they are.
-/

namespace Firmware.Source

--------------------------------------------------------------------------------
-- Fixed tokens
--------------------------------------------------------------------------------

def skipBlanks (text : List Char) : List Char := text.dropWhile (· = ' ')

/-- The text after a token and the blanks behind it. -/
def readToken? (token : Token) (text : List Char) : Option (List Char) :=
  (token.text.isPrefixOf? text).map skipBlanks

/-- The text after tokens and the blanks behind each. -/
def readTokens? : List Token → List Char → Option (List Char)
  | [], text => some text
  | token :: rest, text => (readToken? token text).bind (readTokens? rest)

/-- The token starts with a character that is not skipped. -/
def Token.Visible (token : Token) : Prop := token.text.head?.any (· ≠ ' ')

instance (token : Token) : Decidable token.Visible :=
  inferInstanceAs (Decidable (_ = true))

/-- All tokens start with a character that is not skipped. -/
def Visible (tokens : List Token) : Prop := ∀ token ∈ tokens, token.Visible

instance (tokens : List Token) : Decidable (Visible tokens) :=
  inferInstanceAs (Decidable (∀ token ∈ tokens, token.Visible))

theorem visible_append {tokens rest : List Token}
    : Visible (tokens ++ rest) ↔ Visible tokens ∧ Visible rest :=
  List.forall_mem_append

/-- The blank between a token and those that follow it, if there is one. -/
def gap (token : Token) : List Token → List Char
  | [] => []
  | next :: _ => if token.spacedAfter && next.spacedBefore then [' '] else []

theorem render_cons (token : Token) (rest : List Token)
    : render (token :: rest) = token.text ++ (gap token rest ++ render rest) := by
  cases rest with
  | nil => simp [render, gap]
  | cons next rest => rw [render, gap, List.append_assoc]

theorem skipBlanks_render {tokens : List Token} (visible : Visible tokens)
    : skipBlanks (render tokens) = render tokens := by
  cases tokens with
  | nil => rfl
  | cons token rest =>
      have starts := visible token List.mem_cons_self
      rw [render_cons]
      unfold Token.Visible at starts
      cases text : token.text with
      | nil => simp [text] at starts
      | cons c more =>
          rw [text] at starts
          have notBlank : c ≠ ' ' := by simpa using starts
          simp [skipBlanks, notBlank]

theorem skipBlanks_gap (token : Token) {rest : List Token} (visible : Visible rest)
    : skipBlanks (gap token rest ++ render rest) = render rest := by
  cases rest with
  | nil => rfl
  | cons next rest =>
      rw [gap]
      split
      · exact skipBlanks_render visible
      · exact skipBlanks_render visible

theorem readToken?_append (token : Token) {rest : List Token} (visible : Visible rest)
    (before : Token)
    : readToken? token (token.text ++ (gap before rest ++ render rest)) = some (render rest) := by
  have found : token.text.isPrefixOf? (token.text ++ (gap before rest ++ render rest))
      = some (gap before rest ++ render rest) :=
    List.isPrefixOf?_eq_some_iff_append_eq.mpr rfl
  rw [readToken?, found, Option.map_some, skipBlanks_gap before visible]

theorem readToken?_render (token : Token) {rest : List Token} (visible : Visible rest)
    : readToken? token (render (token :: rest)) = some (render rest) := by
  rw [render_cons, readToken?_append token visible]

theorem readTokens?_render (tokens : List Token) {rest : List Token}
    (visible : Visible (tokens ++ rest))
    : readTokens? tokens (render (tokens ++ rest)) = some (render rest) := by
  induction tokens with
  | nil => rfl
  | cons token tokens ih =>
      have later : Visible (tokens ++ rest) := fun other member =>
        visible other (List.mem_cons_of_mem _ member)
      rw [List.cons_append, readTokens?, readToken?_render token later, Option.bind_some, ih later]

/-- A word is not taken for one that starts differently. -/
theorem readToken?_of_other (word : String) {other : String} (visible : (Token.word other).Visible)
    (nonempty : word ≠ "") (different : word.toList.head? ≠ other.toList.head?)
    (rest : List Token)
    : readToken? (.word word) (render (.word other :: rest)) = none := by
  rw [render_cons, readToken?, Option.map_eq_none_iff, Token.text, Token.text]
  cases text : word.toList with
  | nil => exact absurd (String.toList_eq_nil_iff.mp text) nonempty
  | cons c more =>
      cases otherText : other.toList with
      | nil => simp [Token.Visible, Token.text, otherText] at visible
      | cons d others =>
          rw [text, otherText] at different
          have apart : c ≠ d := by simpa using different
          simp [List.isPrefixOf?, apart]

--------------------------------------------------------------------------------
-- Readers
--------------------------------------------------------------------------------

/-- Reads a value from the front of a text, and the blanks behind it. -/
def Reader (α : Type) : Type := List Char → Option (α × List Char)

namespace Reader

variable {α β : Type}

def map (f : α → β) (reader : Reader α) : Reader β := fun text =>
  (reader text).map fun (value, rest) => (f value, rest)

/-- Reads a value between fixed tokens. -/
def between (before after : List Token) (reader : Reader α) : Reader α := fun text => do
  let (value, rest) ← reader (← readTokens? before text)
  return (value, ← readTokens? after rest)

/-- Reads two values, one behind the other. -/
def both (first : Reader α) (second : Reader β) : Reader (α × β) := fun text => do
  let (left, rest) ← first text
  let (right, rest) ← second rest
  return ((left, right), rest)

/-- Reads one of several values by its name. -/
def oneOf (name : α → String) (all : List α) : Reader α := fun text =>
  all.findSome? fun value => (readToken? (.word (name value)) text).map fun rest => (value, rest)

/-- Reads a value that may be missing. -/
def optional (reader : Reader α) : Reader (Option α) := fun text =>
  match readToken? (.word "None") text with
  | some rest => some (none, rest)
  | none =>
    map some (between [.word "Some", .opens .parenthesis] [.closes .parenthesis] reader) text

/-- Reads a number with the name of its type. -/
def number (type : String) : Reader Nat := fun text =>
  (readToken? (.word type) (text.dropWhile Char.isDigit)).map fun rest =>
    (Decimal.value (text.takeWhile Char.isDigit), rest)

def character : Reader Char
  | '\'' :: c :: rest => (readToken? (.word "'") rest).map fun rest => (c, rest)
  | _ => none

/-- Reads a string, up to the next quote. -/
def quoted : Reader String
  | '"' :: text =>
    (readToken? (.word "\"") (text.dropWhile (· ≠ '"'))).map fun rest =>
      (String.ofList (text.takeWhile (· ≠ '"')), rest)
  | _ => none

/-- Reads a string in which a backslash has no meaning. -/
def rawString : Reader String
  | 'r' :: text => quoted text
  | _ => none

end Reader

/-- A value is read off visible tokens, whatever visible tokens follow them. -/
structure Reads {α : Type} (reader : Reader α) (tokens : List Token) (value : α) : Prop where
  visible : Visible tokens
  read
    : ∀ rest, Visible rest → reader (render (tokens ++ rest)) = some (value, render rest)

/-- The content of a string ends at the first quote. -/
theorem Reader.quoted_append {content : String} (plain : '"' ∉ content.toList)
    {behind rest : List Char} (closing : readToken? (.word "\"") ('"' :: behind) = some rest)
    : quoted ('"' :: content.toList ++ ['"'] ++ behind) = some (content, rest) := by
  have inside : ∀ c ∈ content.toList, decide (c ≠ '"') = true := by
    intro c member
    exact decide_eq_true fun quote => plain (quote ▸ member)
  have shape : '"' :: content.toList ++ ['"'] ++ behind
      = '"' :: (content.toList ++ '"' :: behind) := by
    simp
  have name : (content.toList ++ '"' :: behind).takeWhile (· ≠ '"') = content.toList := by
    rw [List.takeWhile_append_of_pos inside]
    exact List.append_nil _
  have later : (content.toList ++ '"' :: behind).dropWhile (· ≠ '"') = '"' :: behind := by
    rw [List.dropWhile_append_of_pos inside]
    rfl
  rw [shape, quoted]
  simp only [name, later, closing, Option.map_some, String.ofList_toList]

namespace Reads

variable {α β : Type} {reader : Reader α} {tokens : List Token} {value : α}

theorem map {f : α → β} {image : β} (reads : Reads reader tokens value)
    (same : f value = image)
    : Reads (Reader.map f reader) tokens image where
  visible := reads.visible
  read rest visible := by
    subst same
    rw [Reader.map, reads.read rest visible]
    rfl

theorem between (reads : Reads reader tokens value) (before after : List Token)
    (beforeVisible : Visible before) (afterVisible : Visible after)
    : Reads (Reader.between before after reader) (before ++ tokens ++ after) value where
  visible :=
    visible_append.mpr ⟨visible_append.mpr ⟨beforeVisible, reads.visible⟩, afterVisible⟩
  read rest visible := by
    have behind := visible_append.mpr ⟨afterVisible, visible⟩
    have all := visible_append.mpr ⟨beforeVisible, visible_append.mpr ⟨reads.visible, behind⟩⟩
    simp only [Reader.between, List.append_assoc, readTokens?_render before all,
      reads.read _ behind, readTokens?_render after behind, Option.bind_eq_bind, Option.bind_some]
    rfl

theorem both {second : Reader β} {others : List Token} {other : β}
    (reads : Reads reader tokens value) (secondReads : Reads second others other)
    : Reads (Reader.both reader second) (tokens ++ others) (value, other) where
  visible := visible_append.mpr ⟨reads.visible, secondReads.visible⟩
  read rest visible := by
    have behind := visible_append.mpr ⟨secondReads.visible, visible⟩
    simp only [Reader.both, List.append_assoc, reads.read _ behind, secondReads.read rest visible,
      Option.bind_eq_bind, Option.bind_some]
    rfl

/-- A value is read by its name if the names of all values start differently. -/
theorem oneOf (name : α → String) (all : List α) (member : value ∈ all)
    (named : ∀ other ∈ all, (Token.word (name other)).Visible)
    (apart : ∀ other ∈ all, other ≠ value → (name other).toList.head? ≠ (name value).toList.head?)
    : Reads (Reader.oneOf name all) [.word (name value)] value where
  visible := by simpa [Visible] using named value member
  read rest visible := by
    unfold Reader.oneOf
    induction all with
    | nil => cases member
    | cons first all ih =>
        by_cases same : first = value
        · subst same
          rw [List.findSome?_cons, List.singleton_append, readToken?_render _ visible]
          rfl
        · have later : value ∈ all := (List.mem_cons.mp member).resolve_left (Ne.symm same)
          have nonempty : name first ≠ "" := by
            intro empty
            have firstNamed := named first List.mem_cons_self
            simp [Token.Visible, Token.text, empty] at firstNamed
          have skipped := readToken?_of_other _ (named value member) nonempty
            (apart first List.mem_cons_self same) rest
          rw [List.findSome?_cons, List.singleton_append, skipped, Option.map_none]
          exact ih later (fun other inside => named other (List.mem_cons_of_mem _ inside))
            (fun other inside => apart other (List.mem_cons_of_mem _ inside))

/-- A number is read if the name of its type does not go on with digits. -/
theorem number (n : Nat) (type : String) {c : Char} {more : List Char}
    (starts : type.toList = c :: more) (notDigit : c.isDigit = false)
    : Reads (Reader.number type) [.number n type] n where
  visible := by
    obtain ⟨first, others, digits⟩ := List.exists_cons_of_ne_nil (Nat.toDigits_ne_nil (n := n))
    have isDigit : first.isDigit = true :=
      Decimal.isDigit_of_mem_digits (digits ▸ List.mem_cons_self)
    have notBlank : first ≠ ' ' := by
      rintro rfl
      cases isDigit
    simp [Visible, Token.Visible, Token.text, Decimal.digits, digits, notBlank]
  read rest visible := by
    have digits : ∀ c ∈ Decimal.digits n, c.isDigit = true := fun _ => Decimal.isDigit_of_mem_digits
    have typed := readToken?_append (.word type) visible (.number n type)
    simp only [Token.text, starts, List.cons_append] at typed
    rw [List.singleton_append, render_cons, Reader.number]
    simp only [Token.text, starts, List.append_assoc, List.cons_append,
      List.takeWhile_append_of_pos digits, List.dropWhile_append_of_pos digits,
      List.takeWhile_cons, List.dropWhile_cons, notDigit, Bool.false_eq_true, if_false,
      List.append_nil, typed, Option.map_some, Decimal.value_digits]

theorem character (c : Char) : Reads Reader.character [.character c] c where
  visible := by simp [Visible, Token.Visible, Token.text]
  read rest visible := by
    have closing := readToken?_append (.word "'") visible (.character c)
    rw [List.singleton_append, render_cons]
    exact congrArg (Option.map fun rest => (c, rest)) closing

theorem quoted {content : String} (plain : '"' ∉ content.toList)
    : Reads Reader.quoted [.string content] content where
  visible := by simp [Visible, Token.Visible, Token.text]
  read rest visible := by
    have closing := readToken?_append (.word "\"") visible (.string content)
    rw [List.singleton_append, render_cons]
    exact Reader.quoted_append plain closing

theorem rawString {content : String} (plain : '"' ∉ content.toList)
    : Reads Reader.rawString [.rawString content] content where
  visible := by simp [Visible, Token.Visible, Token.text]
  read rest visible := by
    have closing := readToken?_append (.word "\"") visible (.rawString content)
    rw [List.singleton_append, render_cons]
    exact Reader.quoted_append plain closing

theorem missing (reader : Reader α) : Reads (Reader.optional reader) [.word "None"] none where
  visible := by decide
  read rest visible := by
    rw [Reader.optional, List.singleton_append, readToken?_render _ visible]

theorem present (reads : Reads reader tokens value)
    : Reads (Reader.optional reader) (.word "Some" :: enclosed .parenthesis tokens)
        (some value) := by
  have inside := (reads.between [.word "Some", .opens .parenthesis] [.closes .parenthesis]
    (by decide) (by decide)).map (f := some) rfl
  refine ⟨inside.visible, fun rest visible => ?_⟩
  have notMissing : readToken? (.word "None") (render (.word "Some" :: _)) = none :=
    readToken?_of_other "None" (by decide) (by decide) (by decide)
      (enclosed .parenthesis tokens ++ rest)
  rw [Reader.optional, List.cons_append, notMissing]
  exact inside.read rest visible

end Reads

--------------------------------------------------------------------------------
-- The constants of an image
--------------------------------------------------------------------------------

namespace Reader

def truth : Reader Bool := oneOf (fun value => if value then "true" else "false") [true, false]

def severities : List Severity := [.trace, .debug, .info, .warn, .error, .fatal]

def severity : Reader Severity :=
  between (path severityType ++ [.word "::"]) [] (oneOf Severity.name severities)

def pin : Reader Pin :=
  map (fun (bank, index) => { bank, index := UInt8.ofNat index }) <|
    both (between (ports "Pin" ++ [.opens .brace, .word "bank", .word ":"]) [.word ","] character)
      (between [.word "index", .word ":"] [.closes .brace] (number "u8"))

def uart : Reader DebugUart :=
  map (fun (peripheral, tx, rx, baudRate) => { peripheral, tx, rx, baudRate }) <|
    both
      (between (ports "DebugUart" ++ [.opens .brace, .word "peripheral", .word ":"]) [.word ","]
        quoted) <|
      both (between [.word "tx", .word ":"] [.word ","] pin) <|
        both (between [.word "rx", .word ":"] [.word ","] pin) <|
          between [.word "baud_rate", .word ":"] [.word ",", .closes .brace] (number "u32")

/-- Reads the declaration of a constant, whatever its documentation. -/
def constant {α : Type} (name : String) (type : List Token) (value : Reader α) : Reader α :=
  map Prod.snd <|
    both
      (between [.word "#", .opens .bracket, .word "doc", .word "="]
        [.closes .bracket, .word "pub", .word "const"] rawString)
      (between ([.word name, .word ":"] ++ type ++ [.word "="]) [.word ";"] value)

/-- Reads the declarations of all constants. -/
def constants : Reader Constants :=
  map
      (fun (heapSize, maxLogLevel, logColor, errnoChannel, staticTable, debugUart) =>
        { heapSize, maxLogLevel, logColor, errnoChannel, staticTable, debugUart }) <|
    both (constant "HEAP_SIZE_BYTES" [.word "usize"] (number "usize")) <|
      both (constant "MAX_LOG_LEVEL" (path severityType) severity) <|
        both (constant "LOG_COLOR" [.word "bool"] truth) <|
          both (constant "ERRNO_CHANNEL" [.word "bool"] truth) <|
            both (constant "STATIC_CHECKSUM_TABLE" [.word "bool"] truth) <|
              constant "DEBUG_UART"
                ([.word "Option", .word "<"] ++ ports "DebugUart" ++ [.word ">"]) (optional uart)

end Reader

/-- The constants that a text declares, if it declares nothing else. -/
def read? (contents : String) : Option Constants :=
  (Reader.constants contents.toList).bind fun (constants, rest) =>
    if rest.isEmpty then some constants else none

namespace Reads

theorem truth (value : Bool) : Reads Reader.truth (truth value) value :=
  oneOf _ _ (by cases value <;> decide) (by decide) (by cases value <;> decide)

theorem severity (value : Severity)
    : Reads Reader.severity (path (severityType ++ [value.name])) value := by
  have named : Reads _ [.word value.name] value := oneOf Severity.name Reader.severities
    (by cases value <;> decide) (by decide) (by cases value <;> decide)
  have qualified := named.between (path severityType ++ [.word "::"]) [] (by decide) (by decide)
  exact qualified

theorem pin (value : Pin) : Reads Reader.pin (pin value) value := by
  have bank := (character value.bank).between
    (ports "Pin" ++ [.opens .brace, .word "bank", .word ":"]) [.word ","] (by decide) (by decide)
  have index := (number value.index.toNat "u8" rfl rfl).between [.word "index", .word ":"]
    [.closes .brace] (by decide) (by decide)
  exact (bank.both index).map (congrArg (Pin.mk value.bank) UInt8.ofNat_toNat)

theorem uart {value : DebugUart} (plain : '"' ∉ value.peripheral.toList)
    : Reads Reader.uart
        (ports "DebugUart"
          ++ enclosed .brace
            (field "peripheral" [.string value.peripheral] ++ [.word ","]
              ++ field "tx" (Source.pin value.tx) ++ [.word ","]
              ++ field "rx" (Source.pin value.rx) ++ [.word ","]
              ++ field "baud_rate" [.number value.baudRate "u32"] ++ [.word ","]))
        value := by
  have peripheral := (quoted plain).between
    (ports "DebugUart" ++ [.opens .brace, .word "peripheral", .word ":"]) [.word ","]
    (by decide) (by decide)
  have tx := (pin value.tx).between [.word "tx", .word ":"] [.word ","] (by decide) (by decide)
  have rx := (pin value.rx).between [.word "rx", .word ":"] [.word ","] (by decide) (by decide)
  have baudRate := (number value.baudRate "u32" rfl rfl).between [.word "baud_rate", .word ":"]
    [.word ",", .closes .brace] (by decide) (by decide)
  exact (peripheral.both (tx.both (rx.both baudRate))).map rfl

theorem debugUart {value : Option DebugUart}
    (plain : ∀ uart ∈ value, '"' ∉ uart.peripheral.toList)
    : Reads (Reader.optional Reader.uart) (debugUart value) value := by
  cases value with
  | none => exact missing _
  | some value => exact (uart (plain value rfl)).present

/-- A constant is read off its declaration if its value is read off the declared value. -/
theorem constant {documentation name : String} {type declared : List Token}
    (plain : '"' ∉ documentation.toList) (named : (Token.word name).Visible)
    (typed : Visible type) (reads : Reads reader declared value)
    : Reads (Reader.constant name type reader)
        (Declaration.tokens { documentation, name, type, value := declared }) value := by
  have content : '"' ∉ (" " ++ documentation).toList := by simpa using plain
  have nameVisible : Visible [.word name, .word ":"] := by
    simp only [Visible, List.mem_cons, List.not_mem_nil, or_false, forall_eq_or_imp, forall_eq]
    exact ⟨named, by decide⟩
  have typeVisible : Visible ([.word name, .word ":"] ++ type ++ [.word "="]) :=
    visible_append.mpr ⟨visible_append.mpr ⟨nameVisible, typed⟩, by decide⟩
  have head := (rawString content).between [.word "#", .opens .bracket, .word "doc", .word "="]
    [.closes .bracket, .word "pub", .word "const"] (by decide) (by decide)
  have body := reads.between _ [.word ";"] typeVisible (by decide)
  have all : Reads (Reader.constant name type reader) _ value := (head.both body).map rfl
  simpa [Declaration.tokens, enclosed] using all

theorem constants {value : Constants}
    (plain : ∀ uart ∈ value.debugUart, '"' ∉ uart.peripheral.toList)
    : Reads Reader.constants (tokens value) value := by
  have heapSize := number value.heapSize "usize" rfl rfl
  simp only [tokens, declarations, List.flatMap_cons, List.flatMap_nil, List.append_nil]
  refine map (both (constant ?_ ?_ ?_ heapSize) <|
    both (constant ?_ ?_ ?_ (severity _)) <|
      both (constant ?_ ?_ ?_ (truth _)) <|
        both (constant ?_ ?_ ?_ (truth _)) <|
          both (constant ?_ ?_ ?_ (truth _)) (constant ?_ ?_ ?_ (debugUart plain))) rfl
  all_goals decide

end Reads

/-- Declared constants read back. -/
theorem read?_text {constants : Constants}
    (plain : ∀ uart ∈ constants.debugUart, '"' ∉ uart.peripheral.toList)
    : read? (text constants) = some constants := by
  have read := (Reads.constants plain).read [] (by decide)
  rw [List.append_nil] at read
  rw [read?, text, String.toList_ofList, read]
  rfl

/-- The constants that a configuration asks for read back. -/
theorem read?_constants (configuration : Configuration)
    : read? (text configuration.constants) = some configuration.constants := by
  refine read?_text fun uart declared => ?_
  change uart ∈ configuration.target.debugUart at declared
  cases target : configuration.target <;> rw [target] at declared <;> cases declared <;> decide

end Firmware.Source

--------------------------------------------------------------------------------
-- Linker scripts
--------------------------------------------------------------------------------

namespace Firmware.LinkerScript

open Notation (readText? digitsValue?)

/-- Reads the line of a memory area. -/
def readLine? (name : String) (text : List Char) : Option (MemoryArea × List Char) := do
  let text ← readText? (name ++ " : ORIGIN = 0x") text
  let origin ← digitsValue? 16 0 (text.takeWhile (· ≠ ','))
  let text ← readText? ", LENGTH = " (text.dropWhile (· ≠ ','))
  let length ← digitsValue? 10 0 (text.takeWhile (· ≠ 'K'))
  let text ← readText? "K\n" (text.dropWhile (· ≠ 'K'))
  return (⟨origin, length * 1024⟩, text)

/-- The memory map that a linker script declares, if it declares nothing else. -/
def read? (contents : String) : Option MemoryMap := do
  let text ← readText? "MEMORY\n\x7b\n" contents.toList
  let (flash, text) ← readLine? "FLASH" text
  let (ram, text) ← readLine? "RAM" text
  if text = "\x7d\n".toList then some { flash, ram } else none

/-- The linker script of a board reads back. -/
theorem read?_text {target : Target} {map : MemoryMap} (known : target.memoryMap = some map)
    : read? (text map) = some map := by
  cases target <;> cases known <;> rfl

end Firmware.LinkerScript
