import Pipework.Text.CharClass

/-!
# Names

Pipelines and nodes are identified by names. A name is usable when it is not empty, does not begin
or end with a blank character and holds no control character.
-/

namespace Pipework

/-- The reasons why a text is not a usable name. -/
inductive NameError where
  | empty
  | allBlank
  | outerBlank
  | controlCharacter
deriving DecidableEq, Repr

/-- The explanation given for a refused name. -/
def NameError.message : NameError → String
  | .empty => "name cannot be empty"
  | .allBlank => "name cannot be entirely whitespace"
  | .outerBlank => "name cannot have leading or trailing whitespace"
  | .controlCharacter => "name cannot contain control characters"

/-- Checks a name; of several problems the first in the order of `NameError` is reported. -/
def checkName (name : String) : Except NameError Unit :=
  let cs := name.toList
  let trimmed := Text.trim cs
  if cs.isEmpty then .error .empty
  else if trimmed.isEmpty then .error .allBlank
  else if Text.byteLength trimmed ≠ Text.byteLength cs then .error .outerBlank
  else if cs.any Text.isControl then .error .controlCharacter
  else .ok ()

end Pipework
