import Pipework.Dict
import Pipework.Double.Basic

/-!
# JSON values

The tree behind a JSON text. The members of an object are kept as they stand, in order and with
repetitions; `Json.normalize` gives every object its members in key order, the last of several with
one name counting, and leaves no double that JSON cannot write and no integer that sixty-four bits
cannot hold. A value in that form is a `Payload`, and an object in that form a `Config`.
-/

namespace Pipework

/-- A JSON value. Integers and doubles are kept apart. -/
inductive Json where
  | null
  | bool (value : Bool)
  | int (value : Int)
  | double (value : Double)
  | string (value : String)
  | array (items : List Json)
  | object (members : List (String × Json))
deriving Inhabited

namespace Json

/-! ### Equality

Doubles are compared as numbers, everything else as written. -/

mutual

/-- Equality of values. -/
def beq : Json → Json → Bool
  | .null, .null => true
  | .bool a, .bool b => a == b
  | .int a, .int b => a == b
  | .double a, .double b => a == b
  | .string a, .string b => a == b
  | .array as, .array bs => beqItems as bs
  | .object as, .object bs => beqMembers as bs
  | _, _ => false

/-- Equality of lists of items. -/
def beqItems : List Json → List Json → Bool
  | [], [] => true
  | a :: as, b :: bs => beq a b && beqItems as bs
  | _, _ => false

/-- Equality of lists of members. -/
def beqMembers : List (String × Json) → List (String × Json) → Bool
  | [], [] => true
  | (k, a) :: as, (l, b) :: bs => k == l && beq a b && beqMembers as bs
  | _, _ => false

end

instance : BEq Json := ⟨beq⟩

/-! ### Normal form -/

/-- Whether sixty-four bits hold the integer, with a sign or without one. -/
def fitsWord (n : Int) : Bool :=
  decide (Int64.minValue.toInt ≤ n) && decide (n < UInt64.size)

mutual

/-- Whether the members of every object stand in strictly increasing key order, every double is
finite and every integer fits a word. -/
def isNormal : Json → Bool
  | .int n => fitsWord n
  | .double x => x.isFinite
  | .array items => areNormal items
  | .object members => haveNormal members && decide (members.Pairwise (fun a b ↦ a.1 < b.1))
  | _ => true

/-- `isNormal` for every item. -/
def areNormal : List Json → Bool
  | [] => true
  | j :: js => isNormal j && areNormal js

/-- `isNormal` for every member's value. -/
def haveNormal : List (String × Json) → Bool
  | [] => true
  | (_, j) :: ms => isNormal j && haveNormal ms

end

mutual

/-- Puts the members of every object in key order, of several with one name the last stays, and
replaces doubles that are not finite and integers that fit no word by `null`. -/
def normalize : Json → Json
  | .int n => if fitsWord n then .int n else .null
  | .double x => if x.isFinite then .double x else .null
  | .array items => .array (normalizeItems items)
  | .object members => .object (normalizeMembers [] members)
  | j => j

/-- Normalizes every item. -/
def normalizeItems : List Json → List Json
  | [] => []
  | j :: js => normalize j :: normalizeItems js

/-- Adds normalized members, in turn, to members that already are in key order. -/
def normalizeMembers (done : List (String × Json)) : List (String × Json) → List (String × Json)
  | [] => done
  | (k, j) :: ms => normalizeMembers (Dict.insertEntry k (normalize j) done) ms

end

theorem haveNormal_iff {ms : List (String × Json)} :
    haveNormal ms = true ↔ ∀ m ∈ ms, isNormal m.2 = true := by
  induction ms with
  | nil => simp [haveNormal]
  | cons m ms ih =>
    obtain ⟨k, j⟩ := m
    simp [haveNormal, ih]

mutual

/-- **Normalizing gives a value in normal form.** Members come to stand in key order, with the last
value of a repeated key. -/
theorem isNormal_normalize : (j : Json) → isNormal (normalize j) = true
  | .null | .bool _ | .string _ => rfl
  | .int n => by
    rw [normalize]
    split
    next h => exact h
    next => rfl
  | .double x => by
    rw [normalize]
    split
    next h => exact h
    next => rfl
  | .array items => by
    rw [normalize, isNormal]
    exact areNormal_normalizeItems items
  | .object members => by
    rw [normalize]
    exact isNormal_normalizeMembers members [] rfl .nil

theorem areNormal_normalizeItems : (js : List Json) → areNormal (normalizeItems js) = true
  | [] => rfl
  | j :: js => by
    rw [normalizeItems, areNormal, isNormal_normalize j, areNormal_normalizeItems js]
    rfl

/-- The members done so far are normal and sorted, and each further one is inserted among them. -/
theorem isNormal_normalizeMembers : (ms done : List (String × Json)) →
    haveNormal done = true → done.Pairwise (fun a b ↦ a.1 < b.1) →
    isNormal (.object (normalizeMembers done ms)) = true
  | [], done, hd, hs => by
    rw [normalizeMembers, isNormal, hd]
    simpa using hs
  | (k, j) :: ms, done, hd, hs => by
    rw [normalizeMembers]
    refine isNormal_normalizeMembers ms _ (haveNormal_iff.2 fun m hm ↦ ?_)
      (Dict.pairwise_insertEntry hs)
    rcases Dict.eq_or_mem_of_mem_insertEntry hm with rfl | h
    · exact isNormal_normalize j
    · exact haveNormal_iff.1 hd m h

end

/-! ### Payloads -/

/-- A JSON value in normal form. -/
structure Payload where
  json : Json
  normal : json.isNormal = true

/-- The members of an object in normal form. -/
structure Config where
  members : List (String × Json)
  normal : (Json.object members).isNormal = true

instance : BEq Payload := ⟨fun a b ↦ a.json == b.json⟩

instance : BEq Config := ⟨fun a b ↦ beqMembers a.members b.members⟩

/-- The normal form of a value. -/
def toPayload (j : Json) : Payload :=
  ⟨j.normalize, isNormal_normalize j⟩

namespace Config

/-- The object without members. -/
def empty : Config := ⟨[], rfl⟩

instance : Inhabited Config := ⟨empty⟩

/-- The normal form of an object. -/
def ofMembers (ms : List (String × Json)) : Config :=
  ⟨normalizeMembers [] ms, isNormal_normalizeMembers ms [] rfl .nil⟩

end Config
end Json
end Pipework
