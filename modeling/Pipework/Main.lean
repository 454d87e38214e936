import Pipework.CommandLine.Run

/-!
# The program

Everything that touches the outside is here: the input files, the file of variables and the
environment are read, the plan of the run is made from them, and the plan is carried out.
-/

namespace Pipework.CommandLine

/-- The error of a file operation. -/
def fileErrorOf : IO.Error → FileError
  | .noFileOrDirectory _ _ _ => .noSuchFile
  | .inappropriateType _ code _ => if code = 20 then .notDirectory else .isDirectory
  | .invalidArgument _ 36 _ => .nameTooLong
  | e => .other (toString e)

/-- Reads a file. -/
def readFile (path : String) : IO (Except FileError ByteArray) := do
  try
    return .ok (← IO.FS.readBinFile path)
  catch e => return .error (fileErrorOf e)

/-- Writes a file. -/
def writeFile (path text : String) : IO (Except FileError Unit) := do
  try
    IO.FS.writeFile path text
    return .ok ()
  catch e => return .error (fileErrorOf e)

/-- Writes texts to the standard output, up to the first that is refused, after what has been
written. -/
def writeOutput (written : String) : List String → IO (String × Option FileError)
  | [] => return (written, none)
  | text :: texts => do
    let out ← IO.getStdout
    try
      out.putStr text
      out.flush
    catch e => return (written, some (fileErrorOf e))
    writeOutput (written ++ text) texts

/-- The directories from the given one upwards, in writing. -/
def directoriesUp (directory : String) : List String :=
  let names := (pathNames directory).filter (· != "")
  (List.range (names.length + 1)).map fun n ↦
    String.join ((names.take (names.length - n)).map ("/" ++ ·))

/-- The first file of variables in one of the given directories. -/
def findVariables : List String → IO (Option (String × ByteArray))
  | [] => return none
  | directory :: directories => do
    let path := directory ++ "/" ++ variablesFile
    match ← readFile path with
    | .ok bytes => return some (path, bytes)
    | .error _ => findVariables directories

/-- The variables of the process, as the system lists them. -/
def processEnvironment : IO Environment := do
  match ← readFile "/proc/self/environ" with
  | .error _ => return ⟨[]⟩
  | .ok bytes =>
    return ⟨(bytes.toList.splitOnP (· == 0)).filterMap fun entry ↦
      String.fromUTF8? entry.toByteArray⟩

/-- The files that the arguments name. -/
def inputPaths (arguments : List String) : List String :=
  match parseArguments arguments with
  | .ok (.compile a) => a.declaration :: a.deployment.toList
  | _ => []

/-- Prints the log and the errors of a run that ends, and returns its exit code. -/
def close (ending : Ending) : IO UInt32 := do
  for line in ending.log do
    IO.eprintln line
  unless ending.errors.isEmpty do
    IO.eprintln ending.errors
  return UInt32.ofNat ending.exitCode

end Pipework.CommandLine

open Pipework CommandLine in
/-- Runs the command line. -/
def main (arguments : List String) : IO UInt32 := do
  let contents ← (inputPaths arguments).mapM fun path ↦ return (path, ← readFile path)
  let source : Source := fun path ↦ (contents.lookup path).getD (.error .noSuchFile)
  let directory ← IO.currentDir
  let envFile ← findVariables (directoriesUp directory.toString)
  let env ← processEnvironment
  match plan source envFile env arguments with
  | .finish ending =>
    let _ ← writeOutput "" [ending.output]
    close ending
  | .save path text saved failed =>
    match ← writeFile path text with
    | .ok () => close saved
    | .error error => close (failed error)
  | .print texts ending =>
    let (output, error?) ← writeOutput "" texts
    close (ending output error?)
