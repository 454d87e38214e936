import Pipework.Json.Writer
import Pipework.Text.CharClass
import Pipework.Text.Quoted

/-!
# Why a text could not be read

A text is read once from left to right, and the first problem met is the answer. It is either a
`Malformation`, the text is not JSON, with the place where that shows, or a `Mismatch`, a value that
does not have the form that is asked for.
-/

namespace Pipework.Json

/-! ### Text that is not JSON -/

/-- The ways in which a text fails to be JSON. -/
inductive Malformation where
  | endInList
  | endInObject
  | endInString
  | endInValue
  | expectedColon
  | expectedItemEnd
  | expectedMemberEnd
  | expectedWord
  | expectedValue
  | invalidEscape
  | invalidNumber
  | numberOutOfRange
  | controlCharacter
  | keyNotString
  | loneSurrogate
  | trailingComma
  | trailingCharacters
  | endOfSurrogatePair
  | tooDeep
deriving DecidableEq, Repr

/-- The explanation of a malformation, without its place. -/
def Malformation.message : Malformation → String
  | .endInList => "EOF while parsing a list"
  | .endInObject => "EOF while parsing an object"
  | .endInString => "EOF while parsing a string"
  | .endInValue => "EOF while parsing a value"
  | .expectedColon => "expected `:`"
  | .expectedItemEnd => "expected `,` or `]`"
  | .expectedMemberEnd => "expected `,` or `\x7d`"
  | .expectedWord => "expected ident"
  | .expectedValue => "expected value"
  | .invalidEscape => "invalid escape"
  | .invalidNumber => "invalid number"
  | .numberOutOfRange => "number out of range"
  | .controlCharacter => "control character (\\u0000-\\u001F) found while parsing a string"
  | .keyNotString => "key must be a string"
  | .loneSurrogate => "lone leading surrogate in hex escape"
  | .trailingComma => "trailing comma"
  | .trailingCharacters => "trailing characters"
  | .endOfSurrogatePair => "unexpected end of hex escape"
  | .tooDeep => "recursion limit exceeded"

/-- Whether the text ended too early. -/
def Malformation.isEnd : Malformation → Bool
  | .endInList | .endInObject | .endInString | .endInValue => true
  | _ => false

/-! ### Values of another form -/

/-- What was found in place of what was asked for. -/
inductive Found where
  | null
  | bool (value : Bool)
  | int (value : Int)
  | double (value : Double)
  | string (value : String)
  | array
  | object
  | bareName
deriving DecidableEq, Repr

/-- The description of what was found. -/
def Found.describe : Found → String
  | .null => "null"
  | .bool true => "boolean `true`"
  | .bool false => "boolean `false`"
  | .int n => "integer `" ++ String.ofList (intText n) ++ "`"
  | .double x => "floating point `" ++ String.ofList (doubleText x) ++ "`"
  | .string s => "string " ++ Text.quoted s
  | .array => "sequence"
  | .object => "map"
  | .bareName => "unit variant"

/-- What a value counts as when it is not what was asked for. -/
def found : Json → Found
  | .null => .null
  | .bool b => .bool b
  | .int n => .int n
  | .double x => .double x
  | .string s => .string s
  | .array _ => .array
  | .object _ => .object

/-- The ways in which a value fails to have the form that is asked for. -/
inductive Mismatch where
  | wrongType (got : Found) (wanted : String)
  | wrongValue (got : Found) (wanted : String)
  | wrongLength (length : Nat) (wanted : String)
  | unknownField (name : String) (known : List String)
  | duplicateField (name : String)
  | missingField (name : String)
  | unknownName (name : String) (known : List String)
  | duplicateKey
  | noForm (type : String)
  | integerTooWide (value : Int)
deriving DecidableEq, Repr

/-- The choices that are open, in words. -/
def choices : List String → String
  | [] => "there are no fields"
  | [a] => "`" ++ a ++ "`"
  | [a, b] => "`" ++ a ++ "` or `" ++ b ++ "`"
  | names => "one of " ++ ", ".intercalate (names.map fun n ↦ "`" ++ n ++ "`")

/-- A number of elements, in words. -/
def elementCount (n : Nat) : String :=
  if n = 1 then "1 element" else toString n ++ " elements"

/-- The explanation of a mismatch. -/
def Mismatch.message : Mismatch → String
  | .wrongType got wanted => "invalid type: " ++ got.describe ++ ", expected " ++ wanted
  | .wrongValue got wanted => "invalid value: " ++ got.describe ++ ", expected " ++ wanted
  | .wrongLength n wanted => "invalid length " ++ toString n ++ ", expected " ++ wanted
  | .unknownField name known => "unknown field `" ++ name ++ "`, expected " ++ choices known
  | .duplicateField name => "duplicate field `" ++ name ++ "`"
  | .missingField name => "missing field `" ++ name ++ "`"
  | .unknownName name known => "unknown variant `" ++ name ++ "`, expected " ++ choices known
  | .duplicateKey => "invalid entry: found duplicate key"
  | .noForm type => "data did not match any variant of untagged enum " ++ type
  | .integerTooWide n =>
    "integer `" ++ String.ofList (intText n) ++ "` does not fit in 64 signed bits"

/-! ### Faults -/

/-- The first problem met in a text. The place of a malformation is given by the number of bytes
after it. -/
inductive Fault where
  | malformed (problem : Malformation) (unread : Nat)
  | mismatch (problem : Mismatch)
deriving DecidableEq, Repr

namespace Fault

/-- A problem with what has been consumed, where `rest` is still to be read. -/
def stop (problem : Malformation) (rest : List Char) : Fault :=
  .malformed problem (Text.byteLength rest)

/-- A problem with the first byte of `rest`, which is counted as read if there is one. -/
def peek (problem : Malformation) (rest : List Char) : Fault :=
  .malformed problem (Text.byteLength rest - 1)

end Fault

/-- A place in a text: the line, and the number of bytes since its beginning. -/
structure Position where
  line : Nat
  column : Nat
deriving DecidableEq, Repr

/-- The place that lies `offset` bytes after the place `p`. -/
def Position.advance : Position → Nat → List Char → Position
  | p, 0, _ => p
  | p, _, [] => p
  | p, offset, c :: cs =>
    if c = '\n' then Position.advance ⟨p.line + 1, 0⟩ (offset - 1) cs
    else
      let width := min offset c.utf8Size
      Position.advance ⟨p.line, p.column + width⟩ (offset - width) cs

/-- The place in a text that has `unread` bytes after it. -/
def Position.of (text : List Char) (unread : Nat) : Position :=
  Position.advance ⟨1, 0⟩ (Text.byteLength text - unread) text

/-- The kinds of faults. -/
inductive Fault.Category where
  | ended
  | malformed
  | mismatched
deriving DecidableEq, Repr

namespace Fault

/-- The kind of a fault. -/
def category : Fault → Category
  | .malformed p _ => if p.isEnd then .ended else .malformed
  | .mismatch _ => .mismatched

/-- The explanation of a fault in a text. Malformations are shown with their place. -/
def message (text : List Char) : Fault → String
  | .malformed p unread =>
    let place := Position.of text unread
    p.message ++ " at line " ++ toString place.line ++ " column " ++ toString place.column
  | .mismatch m => m.message

end Fault
end Pipework.Json
