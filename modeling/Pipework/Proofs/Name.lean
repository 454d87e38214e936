import Mathlib.Data.List.DropRight
import Pipework.Name

/-!
# Usable names

A name is checked by trimming it and comparing lengths in bytes. Here it is said what the check
finds in terms of the characters of the name (`checkName_classifies`):

* `NameError.Applies` says to which texts each problem applies. The four conditions exclude one
  another, so that the order in which the check makes its tests does not show.
* A text is what is left of it by trimming and the blank characters cut off at either end. Every
  character takes at least one byte, so that the lengths agree only if nothing was cut off
  (`byteLength_trim_eq_iff`), however many bytes a blank character takes.
-/

namespace Pipework

namespace Text

/-! ### Character classes -/

/-- The code points with the Unicode property `White_Space`. -/
def whiteSpace : List Nat :=
  [0x9, 0xA, 0xB, 0xC, 0xD, 0x20, 0x85, 0xA0, 0x1680, 0x2000, 0x2001, 0x2002, 0x2003, 0x2004,
    0x2005, 0x2006, 0x2007, 0x2008, 0x2009, 0x200A, 0x2028, 0x2029, 0x202F, 0x205F, 0x3000]

/-- The code points of the Unicode category `Cc`: two blocks of 32, and the one before the
second. -/
def controls : List Nat :=
  List.range' 0 32 ++ 0x7F :: List.range' 0x80 32

/-- A white-space character. -/
def WhiteSpace (c : Char) : Prop :=
  c.toNat ∈ whiteSpace

/-- A control character. -/
def Control (c : Char) : Prop :=
  c.toNat ∈ controls

theorem isBlank_iff {c : Char} : isBlank c = true ↔ WhiteSpace c := by
  simp only [isBlank, WhiteSpace, whiteSpace, Bool.or_eq_true, Bool.and_eq_true, decide_eq_true_eq,
    beq_iff_eq, List.mem_cons, List.not_mem_nil, or_false]
  omega

theorem isControl_iff {c : Char} : isControl c = true ↔ Control c := by
  simp only [isControl, Control, controls, Bool.or_eq_true, Bool.and_eq_true, decide_eq_true_eq,
    List.mem_append, List.mem_cons, List.mem_range'_1]
  omega

/-- A text has a control character if one of its characters is one. -/
theorem any_isControl_iff {cs : List Char} : cs.any isControl = true ↔ ∃ c ∈ cs, Control c := by
  simp only [List.any_eq_true, isControl_iff]

/-! ### Lengths in bytes -/

/-- Lengths in bytes add up. -/
theorem byteLength_append (cs ds : List Char) :
    byteLength (cs ++ ds) = byteLength cs + byteLength ds := by
  rw [byteLength, List.flatMap_append, List.length_append, byteLength, byteLength]

/-- Every character takes at least one byte. -/
theorem byteLength_eq_zero_iff {cs : List Char} : byteLength cs = 0 ↔ cs = [] := by
  rcases cs with - | ⟨c, cs⟩
  · simp [byteLength]
  · have hpos := c.utf8Size_pos
    simp only [byteLength, List.flatMap_cons, List.length_append, String.length_utf8EncodeChar,
      reduceCtorEq, iff_false]
    omega

/-- The length in bytes is that of the encoded text. -/
theorem byteLength_toList (s : String) : byteLength s.toList = s.utf8ByteSize :=
  calc byteLength s.toList
    _ = s.toList.utf8Encode.size := List.size_toByteArray.symm
    _ = (String.ofList s.toList).toByteArray.size := by rw [String.toByteArray_ofList]
    _ = s.utf8ByteSize := by rw [String.ofList_toList, String.size_toByteArray]

/-! ### Cutting -/

/-- **A text is cut at a sign** in one way only if the sign is not in the part before it. -/
theorem cut_iff {sign : Char} {cs front back : List Char} :
    cs.takeWhile (· != sign) = front ∧ (∃ c, cs.dropWhile (· != sign) = c :: back) ↔
      cs = front ++ sign :: back ∧ sign ∉ front := by
  constructor
  · rintro ⟨rfl, c, hdrop⟩
    have hc : c = sign := by
      have := List.head_dropWhile_not (· != sign) (l := cs) (by simp [hdrop])
      simpa [hdrop] using this
    have hcut := List.takeWhile_append_dropWhile (p := (· != sign)) (l := cs)
    rw [hdrop, hc] at hcut
    refine ⟨hcut.symm, fun hmem ↦ ?_⟩
    have hne := List.mem_takeWhile_imp (p := (· != sign)) hmem
    exact bne_iff_ne.1 hne rfl
  · rintro ⟨rfl, hfront⟩
    have hall : ∀ c ∈ front, (c != sign) = true := fun c hc ↦
      bne_iff_ne.2 fun heq ↦ hfront (heq ▸ hc)
    rw [List.takeWhile_append_of_pos hall, List.dropWhile_append_of_pos hall]
    simp

/-! ### Trimming -/

/-- The first or the last character is white space. -/
def OuterBlank (cs : List Char) : Prop :=
  ∃ c, (cs.head? = some c ∨ cs.getLast? = some c) ∧ WhiteSpace c

/-- **A text is its trimmed form between two blank texts.** -/
theorem exists_eq_append_trim (cs : List Char) :
    ∃ before after, cs = before ++ trim cs ++ after ∧ ∀ c ∈ before ++ after, WhiteSpace c := by
  refine ⟨cs.takeWhile isBlank, (cs.dropWhile isBlank).rtakeWhile isBlank, ?_, fun c hc ↦ ?_⟩
  · show cs = _ ++ (cs.dropWhile isBlank).rdropWhile isBlank ++ _
    rw [List.append_assoc, List.rdropWhile_append_rtakeWhile, List.takeWhile_append_dropWhile]
  · rcases List.mem_append.1 hc with hc | hc
    · exact isBlank_iff.1 (List.mem_takeWhile_imp hc)
    · exact isBlank_iff.1 (List.mem_rtakeWhile_imp hc)

/-- Nothing is left of a text exactly if it is blank. -/
theorem trim_eq_nil_iff {cs : List Char} : trim cs = [] ↔ ∀ c ∈ cs, WhiteSpace c := by
  constructor
  · intro hnil
    obtain ⟨before, after, hsplit, hblank⟩ := exists_eq_append_trim cs
    rw [hnil, List.append_nil] at hsplit
    rwa [hsplit]
  · intro hblank
    have hdrop : cs.dropWhile isBlank = [] :=
      List.dropWhile_eq_nil_iff.2 fun c hc ↦ isBlank_iff.2 (hblank c hc)
    rw [trim, hdrop]
    rfl

/-- Nothing is trimmed at the start of a text that does not start with white space. -/
theorem dropWhile_isBlank_eq_self_iff {cs : List Char} :
    cs.dropWhile isBlank = cs ↔ ∀ c, cs.head? = some c → ¬ WhiteSpace c := by
  rw [List.dropWhile_eq_self_iff]
  rcases cs with - | ⟨c, cs⟩
  · simp
  · simp [isBlank_iff]

/-- Nothing is trimmed at the end of a text that does not end in white space. -/
theorem rdropWhile_isBlank_eq_self_iff {cs : List Char} :
    cs.rdropWhile isBlank = cs ↔ ∀ c, cs.getLast? = some c → ¬ WhiteSpace c := by
  rw [List.rdropWhile_eq_self_iff]
  rcases List.eq_nil_or_concat cs with rfl | ⟨cs, c, rfl⟩
  · simp
  · simp [isBlank_iff]

/-- Nothing is cut off a text exactly if it is not blank at either end. -/
theorem trim_eq_self_iff {cs : List Char} : trim cs = cs ↔ ¬ OuterBlank cs := by
  have hends : ¬ OuterBlank cs ↔ cs.dropWhile isBlank = cs ∧ cs.rdropWhile isBlank = cs := by
    rw [dropWhile_isBlank_eq_self_iff, rdropWhile_isBlank_eq_self_iff, OuterBlank, not_exists,
      ← forall_and]
    refine forall_congr' fun c ↦ ?_
    tauto
  have htrim : trim cs = (cs.dropWhile isBlank).rdropWhile isBlank := rfl
  rw [hends, htrim]
  constructor
  · intro heq
    -- cutting at the end makes nothing longer, so the cut at the front took nothing away
    have hle := (List.rdropWhile_prefix isBlank (cs.dropWhile isBlank)).length_le
    rw [heq] at hle
    have hdrop : cs.dropWhile isBlank = cs := (List.dropWhile_suffix isBlank).eq_of_length_le hle
    rw [hdrop] at heq
    exact ⟨hdrop, heq⟩
  · rintro ⟨hdrop, hrdrop⟩
    rw [hdrop, hrdrop]

/-- **Lengths tell whether something was cut off.** -/
theorem byteLength_trim_eq_iff {cs : List Char} :
    byteLength (trim cs) = byteLength cs ↔ ¬ OuterBlank cs := by
  rw [← trim_eq_self_iff]
  refine ⟨fun hlen ↦ ?_, congrArg byteLength⟩
  obtain ⟨before, after, hsplit, -⟩ := exists_eq_append_trim cs
  have hsum := congrArg byteLength hsplit
  rw [byteLength_append, byteLength_append] at hsum
  have hbefore : before = [] := byteLength_eq_zero_iff.1 (by omega)
  have hafter : after = [] := byteLength_eq_zero_iff.1 (by omega)
  rw [hbefore, hafter, List.nil_append, List.append_nil] at hsplit
  exact hsplit.symm

end Text

/-! ### The check -/

open Text

/-- The texts to which a problem applies. -/
def NameError.Applies : NameError → List Char → Prop
  | .empty, cs => cs = []
  | .allBlank, cs => cs ≠ [] ∧ ∀ c ∈ cs, WhiteSpace c
  | .outerBlank, cs => (∃ c ∈ cs, ¬ WhiteSpace c) ∧ OuterBlank cs
  | .controlCharacter, cs => ¬ OuterBlank cs ∧ ∃ c ∈ cs, Control c

/-- A text that is blank throughout is blank at its ends. -/
theorem Text.outerBlank_of_forall {cs : List Char} (hne : cs ≠ [])
    (hblank : ∀ c ∈ cs, WhiteSpace c) : OuterBlank cs :=
  ⟨cs.head hne, .inl (List.head?_eq_some_head hne), hblank _ (List.head_mem hne)⟩

/-- At most one problem applies to a text. -/
theorem NameError.Applies.unique {e e' : NameError} {cs : List Char} (h : e.Applies cs)
    (h' : e'.Applies cs) : e = e' := by
  cases e <;> cases e' <;> grind [NameError.Applies, outerBlank_of_forall]

/-- What a check finds in a text is right: the problem that is reported applies, and if none is
reported none applies. -/
def IsFinding (cs : List Char) : Except NameError Unit → Prop
  | .error e => e.Applies cs
  | .ok () => ∀ e : NameError, ¬ e.Applies cs

/-- **The check finds what is wrong with a name**, and the first thing in the order of the rules. -/
theorem isFinding_checkName (name : String) : IsFinding name.toList (checkName name) := by
  simp only [checkName]
  split
  next hempty => exact List.isEmpty_iff.1 hempty
  next hempty =>
    rw [List.isEmpty_iff] at hempty
    split
    next hblank =>
      rw [List.isEmpty_iff, trim_eq_nil_iff] at hblank
      exact ⟨hempty, hblank⟩
    next hblank =>
      rw [List.isEmpty_iff, trim_eq_nil_iff] at hblank
      split
      next houter =>
        rw [Ne, byteLength_trim_eq_iff, not_not] at houter
        exact ⟨by simpa using hblank, houter⟩
      next houter =>
        rw [Ne, byteLength_trim_eq_iff, not_not] at houter
        split
        next hcontrol => exact ⟨houter, any_isControl_iff.1 hcontrol⟩
        next hcontrol =>
          rw [any_isControl_iff] at hcontrol
          intro e he
          -- Nothing is wrong with the name that any of the four tests would have found.
          cases e with
          | empty => exact hempty he
          | allBlank => exact hblank he.2
          | outerBlank => exact houter he.2
          | controlCharacter => exact hcontrol he.2

/-- **What the check of a name finds.** A problem is reported exactly if it applies, and the name is
accepted exactly if none does. The lengths that are compared on the way, those of the encoded
texts, differ exactly if the name begins or ends with white space. -/
theorem checkName_classifies (name : String) :
    (∀ e, checkName name = .error e ↔ e.Applies name.toList) ∧
      (checkName name = .ok () ↔ ∀ e : NameError, ¬ e.Applies name.toList) ∧
      ((String.ofList (trim name.toList)).utf8ByteSize ≠ name.utf8ByteSize ↔
        OuterBlank name.toList) := by
  have hfound := isFinding_checkName name
  refine ⟨fun e ↦ ?_, ?_, ?_⟩
  · rcases hcheck : checkName name with e' | ⟨⟩
    · rw [hcheck] at hfound
      rw [Except.error.injEq]
      exact ⟨fun heq ↦ heq ▸ hfound, fun he ↦ hfound.unique he⟩
    · rw [hcheck] at hfound
      simpa using hfound e
  · rcases hcheck : checkName name with e' | ⟨⟩
    · rw [hcheck] at hfound
      simpa using ⟨e', hfound⟩
    · rw [hcheck] at hfound
      exact iff_of_true rfl hfound
  · rw [← byteLength_toList, ← byteLength_toList, String.toList_ofList, Ne, byteLength_trim_eq_iff,
      not_not]

end Pipework
