import Pipework.Json.Scan

/-!
# The words of TOML

Reading blanks, comments, strings and keys from the front of a list of characters. A document is
either read as a whole or refused as a whole, so that readers return nothing about a fault.
-/

namespace Pipework.Toml

open Json (Read)

/-! ### Blanks and comments -/

/-- The characters that may stand between the words of a line. -/
def isBlank (c : Char) : Bool :=
  c == ' ' || c == '\t'

/-- Drops the blanks in front. -/
def skipBlanks (s : List Char) : List Char :=
  s.dropWhile isBlank

/-- The characters of comments and strings: all but the control characters other than tabs. -/
def isTextChar (c : Char) : Bool :=
  c == '\t' || (0x20 ≤ c.toNat && c.toNat != 0x7F)

/-- Reads the end of a line. -/
def lineBreak? : List Char → Option (List Char)
  | '\n' :: s => some s
  | '\r' :: '\n' :: s => some s
  | _ => none

/-- Reads the rest of a line: blanks, a comment, and the end of the line or of the text. -/
def restOfLine? (s : List Char) : Option (List Char) :=
  let s := match skipBlanks s with
    | '#' :: s => s.dropWhile isTextChar
    | s => s
  if s.isEmpty then some [] else lineBreak? s

/-- Drops blanks, ends of lines and comments, which end where a line does. -/
def skipLines : (inComment : Bool) → List Char → List Char
  | _, [] => []
  | _, '\n' :: s => skipLines false s
  | _, '\r' :: '\n' :: s => skipLines false s
  | false, '#' :: s => skipLines true s
  | inComment, c :: s =>
    if (if inComment then isTextChar c else isBlank c) then skipLines inComment s else c :: s

/-! ### Strings -/

/-- Puts a character in front of a string that was read. -/
def push (c : Char) : Option (Read (List Char)) → Option (Read (List Char))
  | some (cs, s) => some (c :: cs, s)
  | none => none

/-- The character that a one-letter escape stands for. -/
def escaped? (c : Char) : Option Char :=
  if c = '/' then none else Json.escaped? c

/-- The character with the code in hexadecimal digits. -/
def codePoint? (digits : List Char) : Option Char := do
  let n ← digits.foldlM (fun n d ↦ (Json.hexDigit? d).map (16 * n + ·)) 0
  if n < 0xD800 ∨ (0xE000 ≤ n ∧ n < 0x110000) then some (Char.ofNat n) else none

/-- Reads a string after its quotation mark. -/
def basicString : List Char → Option (Read (List Char))
  | '"' :: s => some ([], s)
  | '\\' :: 'u' :: a :: b :: c :: d :: s =>
    match codePoint? [a, b, c, d] with
    | some x => push x (basicString s)
    | none => none
  | '\\' :: 'U' :: a :: b :: c :: d :: e :: f :: g :: h :: s =>
    match codePoint? [a, b, c, d, e, f, g, h] with
    | some x => push x (basicString s)
    | none => none
  | '\\' :: c :: s =>
    match escaped? c with
    | some x => push x (basicString s)
    | none => none
  | c :: s => if isTextChar c && c != '\\' then push c (basicString s) else none
  | [] => none

/-- Reads a string without escapes after its apostrophe. -/
def literalString : List Char → Option (Read (List Char))
  | '\'' :: s => some ([], s)
  | c :: s => if isTextChar c then push c (literalString s) else none
  | [] => none

/-- Whether only blanks are left of a line. -/
def endsLine (s : List Char) : Bool :=
  (lineBreak? (skipBlanks s)).isSome

/-- Reads a string of several lines after its quotation marks. A backslash at the end of a line
removes all blanks and ends of lines up to the next character. One or two quotation marks may stand
before the closing ones. -/
def basicLines : (joining : Bool) → List Char → Option (Read (List Char))
  | _, '"' :: '"' :: '"' :: '"' :: '"' :: s => some (['"', '"'], s)
  | _, '"' :: '"' :: '"' :: '"' :: s => some (['"'], s)
  | _, '"' :: '"' :: '"' :: s => some ([], s)
  | joining, '\r' :: '\n' :: s =>
    if joining then basicLines true s else push '\n' (basicLines false s)
  | joining, '\n' :: s => if joining then basicLines true s else push '\n' (basicLines false s)
  | _, '\\' :: 'u' :: a :: b :: c :: d :: s =>
    match codePoint? [a, b, c, d] with
    | some x => push x (basicLines false s)
    | none => none
  | _, '\\' :: 'U' :: a :: b :: c :: d :: e :: f :: g :: h :: s =>
    match codePoint? [a, b, c, d, e, f, g, h] with
    | some x => push x (basicLines false s)
    | none => none
  | _, '\\' :: c :: s =>
    if endsLine (c :: s) then basicLines true (c :: s)
    else
      match escaped? c with
      | some x => push x (basicLines false s)
      | none => none
  | joining, c :: s =>
    if joining && isBlank c then basicLines true s
    else if isTextChar c && c != '\\' then push c (basicLines false s)
    else none
  | _, [] => none

/-- Reads a string of several lines without escapes after its apostrophes. -/
def literalLines : List Char → Option (Read (List Char))
  | '\'' :: '\'' :: '\'' :: '\'' :: '\'' :: s => some (['\'', '\''], s)
  | '\'' :: '\'' :: '\'' :: '\'' :: s => some (['\''], s)
  | '\'' :: '\'' :: '\'' :: s => some ([], s)
  | '\r' :: '\n' :: s => push '\n' (literalLines s)
  | '\n' :: s => push '\n' (literalLines s)
  | c :: s => if isTextChar c then push c (literalLines s) else none
  | [] => none

/-- Drops the end of the line in front, if there is one. -/
def dropLineBreak (s : List Char) : List Char :=
  (lineBreak? s).getD s

/-- Reads a string of any kind. -/
def string? : List Char → Option (Read (List Char))
  | '"' :: '"' :: '"' :: s => basicLines false (dropLineBreak s)
  | '"' :: s => basicString s
  | '\'' :: '\'' :: '\'' :: s => literalLines (dropLineBreak s)
  | '\'' :: s => literalString s
  | _ => none

/-! ### Keys -/

/-- The longest path of keys is shorter than this, and so is the deepest nesting of brackets. -/
def depthLimit : Nat := 80

/-- The characters of a key that is not quoted. -/
def isKeyChar (c : Char) : Bool :=
  c.isAlphanum || c == '-' || c == '_'

/-- Reads a single key. -/
def simpleKey : List Char → Option (Read String)
  | '"' :: s => (basicString s).map fun (k, s) ↦ (String.ofList k, s)
  | '\'' :: s => (literalString s).map fun (k, s) ↦ (String.ofList k, s)
  | s =>
    let k := s.takeWhile isKeyChar
    if k.isEmpty then none else some (String.ofList k, s.dropWhile isKeyChar)

/-- Reads keys with points between them, at most `fuel` of them. -/
def keys : (fuel : Nat) → List Char → Option (Read (List String))
  | 0, _ => none
  | fuel + 1, s =>
    match simpleKey (skipBlanks s) with
    | none => none
    | some (k, s) =>
      match skipBlanks s with
      | '.' :: s => (keys fuel s).map fun (ks, s) ↦ (k :: ks, s)
      | s => some ([k], s)

/-- Reads a path of keys. -/
def keyPath (s : List Char) : Option (Read (List String)) :=
  keys (depthLimit - 1) s

end Pipework.Toml
