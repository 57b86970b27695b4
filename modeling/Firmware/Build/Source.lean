import Firmware.Build.Configuration

/-! Source text that declares the constants of an image.
Every constant is declared with a line of documentation, a type and a value. Tokens are separated
by single blanks, except on the inner sides of parentheses and brackets.
-/

namespace Firmware.Source

/-- The pairs of characters that enclose tokens. -/
inductive Enclosure where
  | parenthesis
  | bracket
  | brace
deriving DecidableEq, Repr

namespace Enclosure

def opening : Enclosure → Char
  | parenthesis => '('
  | bracket => '['
  | brace => '\x7b'

def closing : Enclosure → Char
  | parenthesis => ')'
  | bracket => ']'
  | brace => '\x7d'

/-- Whether blanks separate an enclosure from what it encloses. -/
def spaced : Enclosure → Bool
  | parenthesis | bracket => false
  | brace => true

end Enclosure

/-- A token of source text. -/
inductive Token where
  /-- A name, a keyword or a sign. -/
  | word (text : String)
  /-- A number with the name of its type. -/
  | number (value : Nat) (type : String)
  | character (c : Char)
  /-- A string without quotes or backslashes in it. -/
  | string (content : String)
  /-- A string in which a backslash has no meaning. -/
  | rawString (content : String)
  | opens (enclosure : Enclosure)
  | closes (enclosure : Enclosure)
deriving DecidableEq, Repr

namespace Token

/-- The characters of a token. -/
def text : Token → List Char
  | word text => text.toList
  | number value type => Decimal.digits value ++ type.toList
  | character c => ['\'', c, '\'']
  | string content => '"' :: content.toList ++ ['"']
  | rawString content => 'r' :: '"' :: content.toList ++ ['"']
  | opens enclosure => [enclosure.opening]
  | closes enclosure => [enclosure.closing]

/-- Whether a token admits a blank after it. -/
def spacedAfter : Token → Bool
  | opens enclosure => enclosure.spaced
  | _ => true

/-- Whether a token admits a blank before it. -/
def spacedBefore : Token → Bool
  | closes enclosure => enclosure.spaced
  | _ => true

end Token

/-- The text of tokens. A blank stands between two tokens that both admit it. -/
def render : List Token → List Char
  | [] => []
  | [token] => token.text
  | token :: next :: rest =>
    token.text ++ (if token.spacedAfter && next.spacedBefore then [' '] else [])
      ++ render (next :: rest)

--------------------------------------------------------------------------------
-- Expressions
--------------------------------------------------------------------------------

/-- A name with the names of the modules it is in. -/
def path (names : List String) : List Token :=
  (names.intersperse "::").map .word

/-- Tokens between an opening and a closing character. -/
def enclosed (enclosure : Enclosure) (tokens : List Token) : List Token :=
  .opens enclosure :: tokens ++ [.closes enclosure]

/-- A field with its value. -/
def field (name : String) (value : List Token) : List Token :=
  [.word name, .word ":"] ++ value

/-- A truth value. -/
def truth (value : Bool) : List Token := [.word (if value then "true" else "false")]

/-- The place of the type of pins and of the type of peripherals. -/
def ports (name : String) : List Token := path ["crate", "ports", name]

/-- A pin. -/
def pin (pin : Pin) : List Token :=
  ports "Pin"
    ++ enclosed .brace
      (field "bank" [.character pin.bank] ++ [.word ","]
        ++ field "index" [.number pin.index.toNat "u8"])

/-- A peripheral, if there is one. -/
def debugUart : Option DebugUart → List Token
  | none => [.word "None"]
  | some uart =>
    .word "Some"
      :: enclosed .parenthesis
        (ports "DebugUart"
          ++ enclosed .brace
            (field "peripheral" [.string uart.peripheral] ++ [.word ","]
              ++ field "tx" (pin uart.tx) ++ [.word ","]
              ++ field "rx" (pin uart.rx) ++ [.word ","]
              ++ field "baud_rate" [.number uart.baudRate "u32"] ++ [.word ","]))

--------------------------------------------------------------------------------
-- Declarations
--------------------------------------------------------------------------------

/-- The declaration of a public constant. -/
structure Declaration where
  documentation : String
  name : String
  type : List Token
  value : List Token
deriving DecidableEq, Repr

/-- The tokens of a declaration. -/
def Declaration.tokens (declaration : Declaration) : List Token :=
  .word "#"
    :: enclosed .bracket
      [.word "doc", .word "=", .rawString (" " ++ declaration.documentation)]
    ++ [.word "pub", .word "const", .word declaration.name, .word ":"] ++ declaration.type
    ++ [.word "="] ++ declaration.value
    ++ [.word ";"]

/-- The type of severities. -/
def severityType : List String := ["crate", "hal", "log", "Severity"]

/-- The declarations of the constants of an image. -/
def declarations (constants : Constants) : List Declaration :=
  [{ documentation := "Size of the heap region handed to the OS allocator."
     name := "HEAP_SIZE_BYTES"
     type := [.word "usize"]
     value := [.number constants.heapSize "usize"] },
    { documentation := "Lowest severity written to the debug UART."
      name := "MAX_LOG_LEVEL"
      type := path severityType
      value := path (severityType ++ [constants.maxLogLevel.name]) },
    { documentation := "Serial log lines carry ANSI colour codes."
      name := "LOG_COLOR"
      type := [.word "bool"]
      value := truth constants.logColor },
    { documentation := "The linked C library provides an errno channel."
      name := "ERRNO_CHANNEL"
      type := [.word "bool"]
      value := truth constants.errnoChannel },
    { documentation := "The CRC-32 table is precomputed rather than generated in RAM."
      name := "STATIC_CHECKSUM_TABLE"
      type := [.word "bool"]
      value := truth constants.staticTable },
    { documentation := "Board UART dedicated to diagnostics, if any."
      name := "DEBUG_UART"
      type := [.word "Option", .word "<"] ++ ports "DebugUart" ++ [.word ">"]
      value := debugUart constants.debugUart }]

/-- The tokens that declare the constants of an image. -/
def tokens (constants : Constants) : List Token :=
  (declarations constants).flatMap Declaration.tokens

/-- The text that declares the constants of an image. -/
def text (constants : Constants) : String := String.ofList (render (tokens constants))

end Firmware.Source
