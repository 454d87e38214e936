import Pipework.Dict

/-!
# Environments

The system keeps a variable as one text, its entry: a name, an equals sign and a value. It does not
keep the place of the sign. Hence the same entry can be taken apart again in another way than it was
put together, which shows when a name has an equals sign in it: `bindings` cuts every entry at its
first sign, and `after?` finds whatever text stands in front of a sign.
-/

namespace Pipework

/-- The entries of the variables, in the order in which they are read. -/
structure Environment where
  entries : List String
deriving DecidableEq, Repr

namespace Environment

/-- The entry of a variable. -/
def entry (name value : String) : String :=
  name ++ "=" ++ value

/-- The variables of a dictionary in the order of their names. -/
def ofDict (d : Dict String) : Environment :=
  ⟨d.entries.map fun (name, value) ↦ entry name value⟩

/-- The name and the value in an entry. A sign at the very beginning belongs to the name. An entry
without any other sign gives no variable. -/
def splitEntry (text : String) : Option (String × String) :=
  match text.toList with
  | [] => none
  | c :: cs =>
    match cs.dropWhile (· != '=') with
    | [] => none
    | _ :: value => some (String.ofList (c :: cs.takeWhile (· != '=')), String.ofList value)

/-- All variables with their values. A name may occur twice. -/
def bindings (env : Environment) : List (String × String) :=
  env.entries.filterMap splitEntry

/-- What follows a text and an equals sign in the first entry that begins with them. For the name of
a variable that is its value. -/
def after? (env : Environment) (text : List Char) : Option (List Char) :=
  if text = [] then none
  else env.entries.findSome? fun e ↦ (text ++ ['=']).isPrefixOf? e.toList

/-- Sets a variable that has no value yet, after all others. The system keeps no null character, so
a value with one cannot be set. -/
def setNew (env : Environment) (name value : String) : Option Environment :=
  if (env.after? name.toList).isSome then some env
  else if value.toList.contains '\x00' then none
  else some ⟨env.entries ++ [entry name value]⟩

end Environment
end Pipework
