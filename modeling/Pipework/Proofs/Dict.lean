import Mathlib.Data.List.Forall2
import Pipework.Dict

/-!
# Looking up entries of a dictionary

A dictionary is read through `Dict.get?`. Since the keys of its entries strictly increase, a look-up
finds an entry exactly if the entry is in the list (`get?_eq_some_iff`), whatever its place, and
every other law follows from that. A traversal that succeeds takes the entries to entries with the
same keys, one by one (`traverse_eq_ok_iff`).
-/

namespace Pipework

namespace Dict

variable {β γ ε : Type}

/-- Looking up a key compares it with the first one. -/
theorem lookup_cons_eq_ite {κ : Type} [BEq κ] [LawfulBEq κ] [DecidableEq κ] {es : List (κ × β)}
    {key k : κ} {value : β} :
    ((key, value) :: es).lookup k = if k = key then some value else es.lookup k := by
  rw [List.lookup_cons]
  split
  next h => rw [if_pos (eq_of_beq h)]
  next h => rw [if_neg (beq_eq_false_iff_ne.1 h)]

/-- In a list with strictly increasing keys the entry of a key is the only one with that key. -/
theorem lookup_eq_some_iff {es : List (String × β)} (h : es.Pairwise fun a b ↦ a.1 < b.1)
    {key : String} {value : β} : es.lookup key = some value ↔ (key, value) ∈ es := by
  induction es with
  | nil => simp
  | cons e es ih =>
    obtain ⟨k, v⟩ := e
    obtain ⟨hk, hes⟩ := List.pairwise_cons.1 h
    rw [lookup_cons_eq_ite, List.mem_cons]
    by_cases hkey : key = k
    · subst hkey
      have hnot : (key, value) ∉ es := fun hmem ↦ String.lt_irrefl key (hk _ hmem)
      simp [hnot, eq_comm]
    · simp [hkey, ih hes]

/-- The value of a key is that of its entry, since no other entry has the key. -/
theorem get?_eq_some_iff {d : Dict β} {key : String} {value : β} :
    d.get? key = some value ↔ (key, value) ∈ d.entries :=
  lookup_eq_some_iff d.sorted

theorem contains_iff_mem_keys {d : Dict β} {key : String} :
    d.contains key = true ↔ key ∈ d.keys := by
  rw [contains, Option.isSome_iff_exists]
  simp only [get?_eq_some_iff, keys, List.mem_map, Prod.exists, exists_and_right, exists_eq_right]

instance [BEq β] [LawfulBEq β] : LawfulBEq (Dict β) where
  eq_of_beq h := ext_entries (eq_of_beq (show (_ == _) = true from h))
  rfl {d} := BEq.refl d.entries

@[simp] theorem get?_empty {key : String} : (empty : Dict β).get? key = none := rfl

/-- An inserted entry is found under its key and hides no other one. -/
theorem lookup_insertEntry {es : List (String × β)} {key k : String} {value : β} :
    (insertEntry key value es).lookup k = if k = key then some value else es.lookup k := by
  induction es with
  | nil => rw [insertEntry, lookup_cons_eq_ite]
  | cons e es ih =>
    obtain ⟨k', v'⟩ := e
    rw [insertEntry]
    split
    next => rw [lookup_cons_eq_ite]
    next =>
      split
      next heq =>
        subst heq
        rw [lookup_cons_eq_ite, lookup_cons_eq_ite]
        split <;> rfl
      next hne =>
        rw [lookup_cons_eq_ite, ih, lookup_cons_eq_ite]
        by_cases hk : k = k'
        · rw [if_pos hk, if_neg (fun h ↦ hne (h.symm.trans hk)), if_pos hk]
        · rw [if_neg hk, if_neg hk]

/-- Looking up a key after an insertion. -/
theorem get?_insert {d : Dict β} {key k : String} {value : β} :
    (d.insert key value).get? k = if k = key then some value else d.get? k :=
  lookup_insertEntry

/-- An entry with a key after all others comes last. -/
theorem insertEntry_of_forall_lt {es : List (String × β)} {key : String} {value : β}
    (h : ∀ e ∈ es, e.1 < key) : insertEntry key value es = es ++ [(key, value)] := by
  induction es with
  | nil => rfl
  | cons e es ih =>
    obtain ⟨k, v⟩ := e
    obtain ⟨hk, hes⟩ := List.forall_mem_cons.1 h
    rw [insertEntry, if_neg (String.lt_asymm hk), if_neg (String.ne_of_lt hk).symm, ih hes]
    rfl

/-! ### Applying a function to all entries -/

/-- A traversal succeeds if the function does for every entry. -/
theorem traverseEntries_eq_ok_iff {f : String → β → Except ε γ} {es : List (String × β)}
    {cs : List (String × γ)} :
    traverseEntries f es = .ok cs ↔
      List.Forall₂ (fun e c ↦ c.1 = e.1 ∧ f e.1 e.2 = .ok c.2) es cs := by
  induction es generalizing cs with
  | nil =>
    rw [traverseEntries]
    constructor
    · intro h
      cases h
      exact .nil
    · rintro ⟨⟩
      rfl
  | cons e es ih =>
    obtain ⟨k, b⟩ := e
    rw [traverseEntries]
    constructor
    · intro h
      split at h
      next => cases h
      next c hc =>
        split at h
        next => cases h
        next cs' hcs =>
          cases h
          exact .cons ⟨rfl, hc⟩ (ih.1 hcs)
    · rintro (_ | @⟨_, ⟨k', c⟩, _, _, ⟨hk, hc⟩, hcs⟩)
      obtain rfl : k' = k := hk
      simp only [hc, ih.2 hcs]

theorem traverse_eq_ok_iff_entries {f : String → β → Except ε γ} {d : Dict β} {d' : Dict γ} :
    d.traverse f = .ok d' ↔ traverseEntries f d.entries = .ok d'.entries := by
  rw [traverse]
  split
  next e h => simp [h]
  next cs h =>
    constructor
    · intro heq
      cases heq
      exact h
    · intro heq
      exact congrArg Except.ok (ext_entries (Except.ok.inj (h.symm.trans heq)))

/-- **A traversal gives the dictionary of the results**, each under its old key. -/
theorem traverse_eq_ok_iff {f : String → β → Except ε γ} {d : Dict β} {d' : Dict γ} :
    d.traverse f = .ok d' ↔
      List.Forall₂ (fun e c ↦ c.1 = e.1 ∧ f e.1 e.2 = .ok c.2) d.entries d'.entries :=
  traverse_eq_ok_iff_entries.trans traverseEntries_eq_ok_iff

end Dict
end Pipework
