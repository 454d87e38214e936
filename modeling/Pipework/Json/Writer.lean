import Pipework.Double.Decimal
import Pipework.Json.Basic

/-!
# Writing JSON

`Json.compact` writes a value without any blanks, `Json.pretty` with one item or member a line and
two blanks of indentation a level. They differ in the `Layout` and in nothing else.
-/

namespace Pipework.Json

/-! ### Numbers -/

/-- Zeros, `n` of them. -/
def zeros (n : Nat) : List Char := List.replicate n '0'

/-- The parts of a number in writing. A fraction begins with its point and an exponent with its
mark; both may be missing. -/
structure Numeral where
  whole : List Char
  fraction : List Char
  exponent : List Char

/-- The characters of a number. -/
def Numeral.chars (n : Numeral) : List Char :=
  n.whole ++ n.fraction ++ n.exponent

/-- A decimal in positional notation, with at least one digit on each side of the point. -/
def positional (d : Decimal) : Numeral :=
  let digits := d.digitChars
  let e := d.scientificExponent
  if e < 0 then ⟨['0'], '.' :: (zeros (-e - 1).toNat ++ digits), []⟩
  else
    let whole := (e + 1).toNat
    if digits.length ≤ whole then ⟨digits ++ zeros (whole - digits.length), ['.', '0'], []⟩
    else ⟨digits.take whole, '.' :: digits.drop whole, []⟩

/-- A decimal in scientific notation; the exponent always has a sign. -/
def scientific (d : Decimal) : Numeral :=
  let digits := d.digitChars
  let e := d.scientificExponent
  { whole := digits.take 1
    fraction := if digits.length ≤ 1 then [] else '.' :: digits.drop 1
    exponent := 'e' :: (if e < 0 then '-' else '+') :: Nat.toDigits 10 e.natAbs }

/-- The absolute value of a finite double in the fewest digits that determine it, in positional
notation for exponents from -5 to 15. -/
def numeral (x : Double) : Numeral :=
  let d := x.shortest
  let e := d.scientificExponent
  if -5 ≤ e && e ≤ 15 then positional d else scientific d

/-- The text of a finite double. JSON has no text for other doubles, and `null` stands for them. -/
def doubleText (x : Double) : List Char :=
  if !x.isFinite then "null".toList
  else if x.isNegative then '-' :: (numeral x).chars
  else (numeral x).chars

/-- The text of an integer. -/
def intText (n : Int) : List Char :=
  if n < 0 then '-' :: Nat.toDigits 10 n.natAbs else Nat.toDigits 10 n.natAbs

/-! ### Strings -/

/-- A hexadecimal digit in lower case. -/
def hexChar (n : Nat) : Char :=
  Nat.digitChar n

/-- The character as it stands inside a string. Only the quotation mark, the backslash and the
characters below the blank are escaped. -/
def escapeChar (c : Char) : List Char :=
  if c = '"' then ['\\', '"']
  else if c = '\\' then ['\\', '\\']
  else if c = '\x08' then ['\\', 'b']
  else if c = '\x0c' then ['\\', 'f']
  else if c = '\n' then ['\\', 'n']
  else if c = '\r' then ['\\', 'r']
  else if c = '\t' then ['\\', 't']
  else if c.toNat < 0x20 then
    ['\\', 'u', '0', '0', hexChar (c.toNat / 16), hexChar (c.toNat % 16)]
  else [c]

/-- A string in quotation marks. -/
def stringText (s : String) : List Char :=
  '"' :: s.toList.flatMap escapeChar ++ ['"']

/-! ### Values -/

/-- What sets the parts of a text apart: what comes before an item, a member or a closing bracket at
a level, and what comes after a colon. -/
structure Layout where
  line : Nat → List Char
  gap : List Char

/-- A line break and the indentation of a level. -/
def newline (level : Nat) : List Char :=
  '\n' :: List.replicate (2 * level) ' '

namespace Layout

/-- No blanks anywhere. -/
def compact : Layout := ⟨fun _ ↦ [], []⟩

/-- Items and members on lines of their own. -/
def indented : Layout := ⟨newline, [' ']⟩

end Layout

/-- The comma in front of an item or member that is not the first. -/
def separator : Bool → List Char
  | true => []
  | false => [',']

mutual

/-- The characters of a value at the given level. -/
def chars (l : Layout) (level : Nat) : Json → List Char
  | .null => "null".toList
  | .bool true => "true".toList
  | .bool false => "false".toList
  | .int n => intText n
  | .double x => doubleText x
  | .string s => stringText s
  | .array [] => ['[', ']']
  | .array items => '[' :: (itemChars l (level + 1) true items ++ l.line level ++ [']'])
  | .object [] => ['\x7b', '\x7d']
  | .object members =>
    '\x7b' :: (memberChars l (level + 1) true members ++ l.line level ++ ['\x7d'])

/-- Items with commas between them. -/
def itemChars (l : Layout) (level : Nat) (first : Bool) : List Json → List Char
  | [] => []
  | j :: js =>
    separator first ++ (l.line level ++ (chars l level j ++ itemChars l level false js))

/-- Members with commas between them. -/
def memberChars (l : Layout) (level : Nat) (first : Bool) : List (String × Json) → List Char
  | [] => []
  | (k, j) :: ms =>
    separator first ++ (l.line level ++ (stringText k ++ ':' :: (l.gap ++
      (chars l level j ++ memberChars l level false ms))))

end

/-- The text without blanks. -/
def compact (j : Json) : String :=
  String.ofList (j.chars .compact 0)

/-- The indented text. -/
def pretty (j : Json) : String :=
  String.ofList (j.chars .indented 0)

end Pipework.Json
