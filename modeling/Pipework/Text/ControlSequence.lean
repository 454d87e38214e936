/-!
# Terminal control sequences

A text that is printed to a terminal must not steer it. `withoutControl` keeps what a terminal would
print and drops what it would obey: control characters, and the sequences that begin with an escape
character. It goes through the text as a terminal does, by a step for each character.

A sequence that the text leaves open swallows the text to its end. A cancel character and a new
escape character end any sequence. A tab or an end of line inside a short sequence is printed, and
so is the text after it up to the next control character, where the sequence goes on; a character
beyond ASCII in that text ends the sequence.
-/

namespace Pipework.Text

/-- What a terminal is in the middle of. -/
inductive TerminalMode where
  /-- Plain text. -/
  | plain
  /-- After an escape character. -/
  | escape
  /-- An escape sequence that waits for its last character. -/
  | escapeTail
  /-- A control sequence, with its numbers. -/
  | control
  /-- A command to the operating system, which a bell ends. -/
  | command
  /-- The start of a device control string. -/
  | deviceStart
  /-- The numbers of a device control string. -/
  | deviceNumbers
  /-- A device control string that waits for the last character of its head. -/
  | deviceTail
  /-- The data of a device control string or of a message, which a terminator byte ends. -/
  | data
deriving DecidableEq, Repr

/-- The byte that ends data. It counts wherever it stands in the encoding of a character. -/
def dataTerminator : UInt8 := 0x9C

namespace TerminalMode

/-- The character that begins all sequences. -/
def escapeChar : Char := '\x1b'

/-- Whether a character cancels whatever sequence it stands in. -/
def isCancel (c : Char) : Bool :=
  c == '\x18' || c == '\x1a'

/-- The mode after a character that is not printed and neither cancels nor begins a sequence. -/
def advance (m : TerminalMode) (c : Char) : TerminalMode :=
  match m with
  | plain => plain
  | escape =>
    if c = '[' then control
    else if c = ']' then command
    else if c = 'P' then deviceStart
    else if c = 'X' ∨ c = '^' ∨ c = '_' then data
    else if ' ' ≤ c ∧ c ≤ '/' then escapeTail
    else if '0' ≤ c ∧ c ≤ '~' then plain
    else escape
  | escapeTail => if '0' ≤ c ∧ c ≤ '~' then plain else escapeTail
  | control => if '@' ≤ c ∧ c ≤ '~' then plain else control
  | command => if c = '\x07' then plain else command
  | deviceStart =>
    if ' ' ≤ c ∧ c ≤ '/' then deviceTail
    else if '0' ≤ c ∧ c ≤ '?' then deviceNumbers
    else if '@' ≤ c ∧ c ≤ '~' then data
    else deviceStart
  | deviceNumbers =>
    if ' ' ≤ c ∧ c ≤ '/' then deviceTail
    else if '<' ≤ c ∧ c ≤ '~' then data
    else deviceNumbers
  | deviceTail => if '0' ≤ c ∧ c ≤ '~' then data else deviceTail
  | data => if (String.utf8EncodeChar c).contains dataTerminator then plain else data

/-- The mode after a character that is not printed. -/
def next (m : TerminalMode) (c : Char) : TerminalMode :=
  if c = escapeChar then escape
  else if isCancel c then plain
  else m.advance c

/-- The tab and the characters that end a line or a page. -/
def isLayout (c : Char) : Bool :=
  c == '\t' || c == '\n' || c == '\x0c' || c == '\r'

/-- Whether a character is printed. -/
def prints (m : TerminalMode) (c : Char) : Bool :=
  match m with
  | plain => (' ' ≤ c && c != '\x7f') || isLayout c
  | escape | escapeTail | control => isLayout c
  | _ => false

/-- What is printed of a text. `aside` says that the text stands inside a sequence and is printed
nevertheless. -/
def printed : TerminalMode → (aside : Bool) → List Char → List Char
  | _, _, [] => []
  | m, aside, c :: cs =>
    if (if aside then plain else m).prints c then
      c :: printed (if c ≤ '\x7f' then m else plain) true cs
    else printed (m.next c) false cs

end TerminalMode

/-- The text without control characters and sequences. -/
def withoutControl (s : String) : String :=
  String.ofList (TerminalMode.plain.printed false s.toList)

end Pipework.Text
