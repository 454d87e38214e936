/-!
# Trees of files

A tree holds files under paths of names; the directories are those that hold a file, and those on
the way to the working directory. The text of a path leads from the top of the tree if it begins
with a slash, and from the working directory if not. The directory above the top is the top itself.
Names and texts of paths are limited in length: the length of a text is checked first, that of a
name when the way has led to it.
-/

namespace Pipework

/-- The reasons why a file cannot be read or written. -/
inductive FileError where
  | noSuchFile
  | notDirectory
  | isDirectory
  | nameTooLong
  | notText
  | other (reason : String)
deriving DecidableEq, Repr

/-- The explanation of an error. -/
def FileError.message : FileError → String
  | .noSuchFile => "No such file or directory (os error 2)"
  | .notDirectory => "Not a directory (os error 20)"
  | .isDirectory => "Is a directory (os error 21)"
  | .nameTooLong => "File name too long (os error 36)"
  | .notText => "stream did not contain valid UTF-8"
  | .other reason => reason

/-- The names from the top of a tree down to a file or directory. -/
abbrev Path := List String

/-- Files, with the path of the working directory. -/
structure FileTree where
  files : List (Path × ByteArray)
  current : Path

/-- A path in writing, from the top. -/
def pathText (p : Path) : String :=
  "/" ++ "/".intercalate p

/-- The names in the text of a path. -/
def pathNames (text : String) : List String :=
  (text.toList.splitOnP (· == '/')).map String.ofList

/-- The greatest number of bytes in a name. -/
def maxNameBytes : Nat := 255

/-- The greatest number of bytes in the text of a path. -/
def maxPathBytes : Nat := 4095

/-- Refuses a text that is too long for a name or a path. -/
def checkLength (limit : Nat) (text : String) : Except FileError Unit :=
  if limit < text.utf8ByteSize then .error .nameTooLong else .ok ()

/-- The end of a path's last name after its last point, unless that is all there is of the name. -/
def fileExtension? (text : String) : Option String :=
  match ((pathNames text).filter fun n ↦ n != "" && n != ".").getLast? with
  | none => none
  | some name =>
    let back := name.toList.reverse
    let extension := (back.takeWhile (· != '.')).reverse
    let stem := (back.dropWhile (· != '.')).drop 1
    if name = ".." ∨ stem = [] then none else some (String.ofList extension)

namespace FileTree

/-- The content of a file. -/
def content? (t : FileTree) (p : Path) : Option ByteArray :=
  t.files.lookup p

/-- Whether a path leads to a directory. -/
def isDirectory (t : FileTree) (p : Path) : Bool :=
  p.isPrefixOf t.current || t.files.any fun f ↦ p.isPrefixOf f.1 && p != f.1

/-- Goes from a directory to another one by a name. -/
def enter (t : FileTree) (p : Path) (name : String) : Except FileError Path := do
  if name = "" ∨ name = "." then return p
  else
    checkLength maxNameBytes name
    if name = ".." then return p.dropLast
    else if t.isDirectory (p ++ [name]) then return p ++ [name]
    else if (t.content? (p ++ [name])).isSome then .error .notDirectory
    else .error .noSuchFile

/-- The directory from which the text of a path leads. -/
def start (t : FileTree) (text : String) : Path :=
  if text.toList.head? = some '/' then [] else t.current

/-- Goes by names from the directory from which the text of a path leads. -/
def walk (t : FileTree) (text : String) (names : List String) : Except FileError Path := do
  checkLength maxPathBytes text
  names.foldlM t.enter (t.start text)

/-- Names that do not lead to a file. -/
def isDirectoryName (name : String) : Bool :=
  name == "" || name == "." || name == ".."

/-- Reads a file. -/
def read (t : FileTree) (text : String) : Except FileError ByteArray := do
  let names := pathNames text
  let p ← t.walk text names.dropLast
  let name := names.getLast?.getD ""
  if isDirectoryName name then .error .isDirectory
  else
    checkLength maxNameBytes name
    match t.content? (p ++ [name]) with
    | some bytes => .ok bytes
    | none => .error (if t.isDirectory (p ++ [name]) then .isDirectory else .noSuchFile)

/-- Replaces the content of a file, or adds one. -/
def setFile (p : Path) (bytes : ByteArray) : List (Path × ByteArray) → List (Path × ByteArray)
  | [] => [(p, bytes)]
  | f :: fs => if f.1 = p then (p, bytes) :: fs else f :: setFile p bytes fs

/-- Writes a file into a directory that exists. -/
def write (t : FileTree) (text : String) (bytes : ByteArray) : Except FileError FileTree := do
  let all := pathNames text
  let names := (all.reverse.dropWhile (· == "")).reverse
  let p ← t.walk text names.dropLast
  let name := names.getLast?.getD ""
  if isDirectoryName name || all.getLast? == some "" then .error .isDirectory
  else
    checkLength maxNameBytes name
    if t.isDirectory (p ++ [name]) then .error .isDirectory
    else .ok { t with files := setFile (p ++ [name]) bytes t.files }

/-- The first file with a name in one of the given directories. -/
def findIn (t : FileTree) (name : String) : List Path → Option (Path × ByteArray)
  | [] => none
  | p :: ps =>
    match t.content? (p ++ [name]) with
    | some bytes => some (p ++ [name], bytes)
    | none => findIn t name ps

/-- The file with a name in the working directory or the nearest directory above it. -/
def findUp (t : FileTree) (name : String) : Option (Path × ByteArray) :=
  t.findIn name ((List.range (t.current.length + 1)).map fun n ↦
    t.current.take (t.current.length - n))

end FileTree
end Pipework
