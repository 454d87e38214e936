/-!
# Dictionaries in key order

A `Dict` maps texts to values and lists its entries in the order of their keys, compared code point
by code point. Two dictionaries with the same entries are equal, since a list in strictly increasing
key order is determined by its members.
-/

namespace Pipework

/-- A finite map with text keys, held in strictly increasing key order. -/
structure Dict (β : Type) where
  entries : List (String × β)
  sorted : entries.Pairwise (fun a b ↦ a.1 < b.1)

namespace Dict

variable {β γ : Type}

/-! ### Entries in key order -/

/-- Puts an entry at its place in a list in key order, replacing an entry with the same key. -/
def insertEntry (key : String) (value : β) : List (String × β) → List (String × β)
  | [] => [(key, value)]
  | (k, v) :: rest =>
    if key < k then (key, value) :: (k, v) :: rest
    else if key = k then (key, value) :: rest
    else (k, v) :: insertEntry key value rest

/-- An entry is inserted beside the old ones or in place of one of them. -/
theorem eq_or_mem_of_mem_insertEntry {key : String} {value : β} {es : List (String × β)}
    {e : String × β} (h : e ∈ insertEntry key value es) : e = (key, value) ∨ e ∈ es := by
  induction es with
  | nil => exact .inl (by simpa [insertEntry] using h)
  | cons head rest ih =>
    simp only [insertEntry] at h
    split at h
    · exact List.mem_cons.1 h
    · split at h
      · exact (List.mem_cons.1 h).imp_right (List.mem_cons_of_mem _)
      · rcases List.mem_cons.1 h with rfl | h
        · exact .inr List.mem_cons_self
        · exact (ih h).imp_right (List.mem_cons_of_mem _)

/-- Inserting keeps entries sorted, so that a dictionary has every key once. -/
theorem pairwise_insertEntry {key : String} {value : β} {es : List (String × β)}
    (h : es.Pairwise (fun a b ↦ a.1 < b.1)) :
    (insertEntry key value es).Pairwise (fun a b ↦ a.1 < b.1) := by
  induction es with
  | nil => simp [insertEntry]
  | cons head rest ih =>
    obtain ⟨k, v⟩ := head
    obtain ⟨hk, hrest⟩ := List.pairwise_cons.1 h
    simp only [insertEntry]
    split
    next hlt =>
      refine List.pairwise_cons.2 ⟨fun e he ↦ ?_, h⟩
      rcases List.mem_cons.1 he with rfl | he
      · exact hlt
      · exact String.lt_trans hlt (hk e he)
    next hnlt =>
      split
      next heq =>
        subst heq
        exact List.pairwise_cons.2 ⟨hk, hrest⟩
      next hne =>
        refine List.pairwise_cons.2 ⟨fun e he ↦ ?_, ih hrest⟩
        rcases eq_or_mem_of_mem_insertEntry he with rfl | he
        · exact Std.lt_of_le_of_ne hnlt (Ne.symm hne)
        · exact hk e he

/-! ### Operations -/

/-- The dictionary without entries. -/
def empty : Dict β := ⟨[], .nil⟩

instance : Inhabited (Dict β) := ⟨empty⟩

/-- Sets the value of a key. -/
def insert (d : Dict β) (key : String) (value : β) : Dict β :=
  ⟨insertEntry key value d.entries, pairwise_insertEntry d.sorted⟩

/-- The dictionary of a list of entries; of several entries with one key the last counts. -/
def ofList (es : List (String × β)) : Dict β :=
  es.foldl (fun d e ↦ d.insert e.1 e.2) empty

/-- The value of a key. -/
def get? (d : Dict β) (key : String) : Option β :=
  d.entries.lookup key

/-- Whether a key has a value. -/
def contains (d : Dict β) (key : String) : Bool :=
  (d.get? key).isSome

/-- The keys in increasing order. -/
def keys (d : Dict β) : List String :=
  d.entries.map Prod.fst

/-- The values in the order of their keys. -/
def values (d : Dict β) : List β :=
  d.entries.map Prod.snd

/-- The number of entries. -/
def size (d : Dict β) : Nat :=
  d.entries.length

/-- Whether there are no entries. -/
def isEmpty (d : Dict β) : Bool :=
  d.entries.isEmpty

/-- Applies a function to every value. -/
def map (f : β → γ) (d : Dict β) : Dict γ :=
  ⟨d.entries.map fun e ↦ (e.1, f e.2), by
    rw [List.pairwise_map]
    exact d.sorted⟩

/-- Applies a function that may fail to every entry, in key order, until the first failure. -/
def traverseEntries {ε : Type} (f : String → β → Except ε γ) :
    List (String × β) → Except ε (List (String × γ))
  | [] => .ok []
  | (k, b) :: rest =>
    match f k b with
    | .error e => .error e
    | .ok c =>
      match traverseEntries f rest with
      | .error e => .error e
      | .ok cs => .ok ((k, c) :: cs)

/-- A traversal keeps the keys. -/
theorem map_fst_of_traverseEntries {ε : Type} {f : String → β → Except ε γ}
    {es : List (String × β)} {cs : List (String × γ)} (h : traverseEntries f es = .ok cs) :
    cs.map Prod.fst = es.map Prod.fst := by
  induction es generalizing cs with
  | nil =>
    cases h
    rfl
  | cons e rest ih =>
    obtain ⟨k, b⟩ := e
    simp only [traverseEntries] at h
    split at h
    · cases h
    · split at h
      · cases h
      next hrest =>
        cases h
        simp [ih hrest]

/-- Applies a function that may fail to every value, in key order, until the first failure. -/
def traverse {ε : Type} (f : String → β → Except ε γ) (d : Dict β) : Except ε (Dict γ) :=
  match h : traverseEntries f d.entries with
  | .error e => .error e
  | .ok cs =>
    .ok ⟨cs, by
      have hs := d.sorted
      rw [← List.pairwise_map (f := Prod.fst)] at hs ⊢
      rw [map_fst_of_traverseEntries h]
      exact hs⟩

theorem ext_entries {d d' : Dict β} (h : d.entries = d'.entries) : d = d' := by
  cases d
  cases d'
  cases h
  rfl

instance [DecidableEq β] : DecidableEq (Dict β) := fun d d' ↦
  decidable_of_iff (d.entries = d'.entries) ⟨ext_entries, fun h ↦ by rw [h]⟩

instance [BEq β] : BEq (Dict β) := ⟨fun d d' ↦ d.entries == d'.entries⟩

end Dict
end Pipework
