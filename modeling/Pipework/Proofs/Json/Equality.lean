import Pipework.Proofs.Json.Printing

/-!
# Equal trees and their texts

Trees are compared with their doubles as numbers, and the two zeros are the same number. They are
the only doubles that are equal and yet differ (`Double.eq_or_isZero`), and they are written
differently. So equal trees have the same text exactly if their doubles have the same signs:
`eq_of_chars_eq` finds equal trees to be the same if their texts are, and `eq_of_signs_eq` if the
signs of their doubles are.
-/

namespace Pipework

/-! ### Doubles -/

namespace Double

/-- Doubles that are equal are the same, or zeros. -/
theorem eq_or_isZero {x y : Double} (h : (x == y) = true) :
    x = y ∨ (x.isZero = true ∧ y.isZero = true) := by
  have heq : numEq x y = true := h
  simp only [numEq, Bool.and_eq_true, Bool.or_eq_true, beq_iff_eq] at heq
  rcases heq.2 with hbits | hzero
  · cases x
    cases y
    exact .inl (congrArg _ hbits)
  · exact .inr hzero

/-- There are two zeros. -/
theorem isZero_iff {x : Double} :
    x.isZero = true ↔ x.bits.toNat = 0 ∨ x.bits.toNat = 1 <<< 63 := by
  have hlt := x.bits.toNat_lt
  rw [isZero, Bool.and_eq_true, beq_iff_eq, beq_iff_eq, exponentField, fractionField,
    Nat.shiftRight_eq_div_pow, Nat.one_shiftLeft]
  omega

/-- Zeros of one sign are one double. -/
theorem eq_of_isZero {x y : Double} (hx : x.isZero = true) (hy : y.isZero = true)
    (hsign : x.isNegative = y.isNegative) : x = y := by
  rw [isZero_iff] at hx hy
  rw [isNegative, isNegative, decide_eq_decide, Nat.one_shiftLeft] at hsign
  have hbits : x.bits = y.bits := UInt64.toNat_inj.1 (by omega)
  cases x
  cases y
  exact congrArg _ hbits

/-- A zero is equal to itself, as every double is that is no NaN. -/
theorem beq_self_of_not_isNaN {x : Double} (h : x.isNaN = false) : (x == x) = true := by
  show numEq x x = true
  simp [numEq, h]

end Double

namespace Json

/-- Zeros are written with their signs. -/
theorem doubleText_of_isZero {x : Double} (h : x.isZero = true) :
    doubleText x = if x.isNegative then "-0.0".toList else "0.0".toList := by
  have hfinite : x.isFinite = true := by
    simp only [Double.isZero, Bool.and_eq_true, beq_iff_eq] at h
    simp [Double.isFinite, h.1]
  have hnumeral : (numeral x).chars = "0.0".toList := by
    rw [numeral, Double.shortest, if_pos h]
    rfl
  rw [doubleText, hfinite, hnumeral]
  rfl

/-- Equal doubles are the same if their texts begin alike. -/
theorem eq_of_doubleText_eq {x y : Double} (h : (x == y) = true) {r r' : List Char}
    (htext : doubleText x ++ r = doubleText y ++ r') : x = y ∧ r = r' := by
  rcases Double.eq_or_isZero h with rfl | ⟨hx, hy⟩
  · exact ⟨rfl, List.append_cancel_left htext⟩
  · rw [doubleText_of_isZero hx, doubleText_of_isZero hy] at htext
    have hsign : x.isNegative = y.isNegative := by
      cases hnx : x.isNegative <;> cases hny : y.isNegative <;> simp [hnx, hny] at htext ⊢
    obtain rfl := Double.eq_of_isZero hx hy hsign
    exact ⟨rfl, List.append_cancel_left htext⟩

/-! ### Trees -/

/-- What a tree has to be to equal another one: of the same form and with equal parts. Of the
trees without parts only the doubles have others that equal them. -/
def Matches : Json → Json → Prop
  | .double x, j => ∃ y, j = .double y ∧ (x == y) = true
  | .array js, j => ∃ js', j = .array js' ∧ beqItems js js' = true
  | .object ms, j => ∃ ms', j = .object ms' ∧ beqMembers ms ms' = true
  | i, j => j = i

theorem matches_of_beq {i j : Json} (h : beq i j = true) : Matches i j := by
  cases i <;> cases j <;> simp_all [beq, Matches]

theorem exists_of_beqItems_cons {j : Json} {js js' : List Json}
    (h : beqItems (j :: js) js' = true) :
    ∃ k ks, js' = k :: ks ∧ beq j k = true ∧ beqItems js ks = true := by
  cases js' <;> simp_all [beqItems]

theorem exists_of_beqMembers_cons {name : String} {j : Json} {ms ms' : List (String × Json)}
    (h : beqMembers ((name, j) :: ms) ms' = true) :
    ∃ k ks, ms' = (name, k) :: ks ∧ beq j k = true ∧ beqMembers ms ks = true := by
  cases ms' with
  | nil => simp [beqMembers] at h
  | cons m ms' =>
    obtain ⟨name', k⟩ := m
    simp only [beqMembers, Bool.and_eq_true, beq_iff_eq] at h
    obtain ⟨⟨rfl, hj⟩, hms⟩ := h
    exact ⟨k, ms', rfl, hj, hms⟩

theorem beqItems_nil {js : List Json} (h : beqItems [] js = true) : js = [] := by
  cases js <;> simp_all [beqItems]

theorem beqMembers_nil {ms : List (String × Json)} (h : beqMembers [] ms = true) : ms = [] := by
  cases ms <;> simp_all [beqMembers]

theorem chars_array_cons (l : Layout) (level : Nat) (j : Json) (js : List Json) :
    chars l level (.array (j :: js)) =
      '[' :: itemChars l (level + 1) true (j :: js) ++ l.line level ++ [']'] := rfl

theorem chars_object_cons (l : Layout) (level : Nat) (m : String × Json)
    (ms : List (String × Json)) :
    chars l level (.object (m :: ms)) =
      '\x7b' :: memberChars l (level + 1) true (m :: ms) ++ l.line level ++ ['\x7d'] := rfl

mutual

/-- **Equal trees are the same if their texts begin alike**, and the texts go on alike. -/
theorem eq_of_chars_eq (l : Layout) (level : Nat) : (j : Json) → {j' : Json} →
    beq j j' = true → {r r' : List Char} → chars l level j ++ r = chars l level j' ++ r' →
    j = j' ∧ r = r'
  | .null, _, h, _, _, htext => by
    obtain rfl : _ = Json.null := matches_of_beq h
    exact ⟨rfl, List.append_cancel_left htext⟩
  | .bool _, _, h, _, _, htext => by
    obtain rfl : _ = Json.bool _ := matches_of_beq h
    exact ⟨rfl, List.append_cancel_left htext⟩
  | .int _, _, h, _, _, htext => by
    obtain rfl : _ = Json.int _ := matches_of_beq h
    exact ⟨rfl, List.append_cancel_left htext⟩
  -- Only here does equality leave a choice, which the sign in the text decides.
  | .double x, _, h, _, _, htext => by
    obtain ⟨y, rfl, hxy⟩ := matches_of_beq h
    obtain ⟨rfl, hr⟩ := eq_of_doubleText_eq hxy htext
    exact ⟨rfl, hr⟩
  | .string _, _, h, _, _, htext => by
    obtain rfl : _ = Json.string _ := matches_of_beq h
    exact ⟨rfl, List.append_cancel_left htext⟩
  | .array [], _, h, _, _, htext => by
    obtain ⟨js', rfl, hjs⟩ := matches_of_beq h
    obtain rfl := beqItems_nil hjs
    exact ⟨rfl, List.append_cancel_left htext⟩
  | .array (j :: js), _, h, _, _, htext => by
    obtain ⟨js', rfl, hjs⟩ := matches_of_beq h
    obtain ⟨k, ks, rfl, -⟩ := exists_of_beqItems_cons hjs
    simp only [chars_array_cons, List.cons_append, List.append_assoc, List.cons.injEq,
      true_and] at htext
    obtain ⟨heq, hrest⟩ := eq_of_itemChars_eq l (level + 1) true (j :: js) hjs htext
    exact ⟨congrArg _ heq, by simpa using hrest⟩
  | .object [], _, h, _, _, htext => by
    obtain ⟨ms', rfl, hms⟩ := matches_of_beq h
    obtain rfl := beqMembers_nil hms
    exact ⟨rfl, List.append_cancel_left htext⟩
  | .object ((name, j) :: ms), _, h, _, _, htext => by
    obtain ⟨ms', rfl, hms⟩ := matches_of_beq h
    obtain ⟨k, ks, rfl, -⟩ := exists_of_beqMembers_cons hms
    simp only [chars_object_cons, List.cons_append, List.append_assoc, List.cons.injEq,
      true_and] at htext
    obtain ⟨heq, hrest⟩ := eq_of_memberChars_eq l (level + 1) true ((name, j) :: ms) hms htext
    exact ⟨congrArg _ heq, by simpa using hrest⟩

/-- Equal items with the same text are the same, and end at the same place. -/
theorem eq_of_itemChars_eq (l : Layout) (level : Nat) (first : Bool) : (js : List Json) →
    {js' : List Json} → beqItems js js' = true → {r r' : List Char} →
    itemChars l level first js ++ r = itemChars l level first js' ++ r' → js = js' ∧ r = r'
  | [], _, h, _, _, htext => by
    obtain rfl := beqItems_nil h
    exact ⟨rfl, htext⟩
  | j :: js, _, h, _, _, htext => by
    obtain ⟨k, ks, rfl, hj, hjs⟩ := exists_of_beqItems_cons h
    simp only [itemChars, List.append_assoc, List.append_cancel_left_eq] at htext
    obtain ⟨rfl, hrest⟩ := eq_of_chars_eq l level j hj htext
    obtain ⟨rfl, hr⟩ := eq_of_itemChars_eq l level false js hjs hrest
    exact ⟨rfl, hr⟩

/-- Equal members with the same text are the same, and end at the same place. -/
theorem eq_of_memberChars_eq (l : Layout) (level : Nat) (first : Bool) :
    (ms : List (String × Json)) → {ms' : List (String × Json)} → beqMembers ms ms' = true →
    {r r' : List Char} → memberChars l level first ms ++ r = memberChars l level first ms' ++ r' →
    ms = ms' ∧ r = r'
  | [], _, h, _, _, htext => by
    obtain rfl := beqMembers_nil h
    exact ⟨rfl, htext⟩
  | (name, j) :: ms, _, h, _, _, htext => by
    obtain ⟨k, ks, rfl, hj, hms⟩ := exists_of_beqMembers_cons h
    simp only [memberChars, List.append_assoc, List.cons_append, List.append_cancel_left_eq,
      List.cons.injEq, true_and] at htext
    obtain ⟨rfl, hrest⟩ := eq_of_chars_eq l level j hj htext
    obtain ⟨rfl, hr⟩ := eq_of_memberChars_eq l level false ms hms hrest
    exact ⟨rfl, hr⟩

end

/-- The signs of the doubles in a tree. -/
def signs (j : Json) : List Bool :=
  j.doubles.map Double.isNegative

mutual

/-- **Equal trees are the same if the signs of their doubles are.** As for texts, what comes after
the signs of a tree is carried along. -/
theorem eq_of_signs_append_eq : (j : Json) → {j' : Json} → beq j j' = true → {r r' : List Bool} →
    j.doubles.map Double.isNegative ++ r = j'.doubles.map Double.isNegative ++ r' →
    j = j' ∧ r = r'
  | .null, _, h, _, _, hsigns => by
    obtain rfl : _ = Json.null := matches_of_beq h
    exact ⟨rfl, hsigns⟩
  | .bool _, _, h, _, _, hsigns => by
    obtain rfl : _ = Json.bool _ := matches_of_beq h
    exact ⟨rfl, hsigns⟩
  | .int _, _, h, _, _, hsigns => by
    obtain rfl : _ = Json.int _ := matches_of_beq h
    exact ⟨rfl, hsigns⟩
  | .double x, _, h, _, _, hsigns => by
    obtain ⟨y, rfl, hxy⟩ := matches_of_beq h
    simp only [doubles, List.map_cons, List.map_nil, List.cons_append, List.nil_append,
      List.cons.injEq] at hsigns
    rcases Double.eq_or_isZero hxy with rfl | ⟨hx, hy⟩
    · exact ⟨rfl, hsigns.2⟩
    · exact ⟨congrArg _ (Double.eq_of_isZero hx hy hsigns.1), hsigns.2⟩
  | .string _, _, h, _, _, hsigns => by
    obtain rfl : _ = Json.string _ := matches_of_beq h
    exact ⟨rfl, hsigns⟩
  | .array js, _, h, _, _, hsigns => by
    obtain ⟨js', rfl, hjs⟩ := matches_of_beq h
    obtain ⟨rfl, hr⟩ := eq_of_itemSigns_append_eq js hjs hsigns
    exact ⟨rfl, hr⟩
  | .object ms, _, h, _, _, hsigns => by
    obtain ⟨ms', rfl, hms⟩ := matches_of_beq h
    obtain ⟨rfl, hr⟩ := eq_of_memberSigns_append_eq ms hms hsigns
    exact ⟨rfl, hr⟩

/-- Equal items are the same if their doubles have the same signs, in the order of writing. -/
theorem eq_of_itemSigns_append_eq : (js : List Json) → {js' : List Json} →
    beqItems js js' = true → {r r' : List Bool} →
    (itemDoubles js).map Double.isNegative ++ r = (itemDoubles js').map Double.isNegative ++ r' →
    js = js' ∧ r = r'
  | [], _, h, _, _, hsigns => by
    obtain rfl := beqItems_nil h
    exact ⟨rfl, hsigns⟩
  | j :: js, _, h, _, _, hsigns => by
    obtain ⟨k, ks, rfl, hj, hjs⟩ := exists_of_beqItems_cons h
    simp only [itemDoubles, List.map_append, List.append_assoc] at hsigns
    obtain ⟨rfl, hrest⟩ := eq_of_signs_append_eq j hj hsigns
    obtain ⟨rfl, hr⟩ := eq_of_itemSigns_append_eq js hjs hrest
    exact ⟨rfl, hr⟩

/-- Equal members are the same if their doubles have the same signs. -/
theorem eq_of_memberSigns_append_eq : (ms : List (String × Json)) →
    {ms' : List (String × Json)} → beqMembers ms ms' = true → {r r' : List Bool} →
    (memberDoubles ms).map Double.isNegative ++ r =
      (memberDoubles ms').map Double.isNegative ++ r' → ms = ms' ∧ r = r'
  | [], _, h, _, _, hsigns => by
    obtain rfl := beqMembers_nil h
    exact ⟨rfl, hsigns⟩
  | (name, j) :: ms, _, h, _, _, hsigns => by
    obtain ⟨k, ks, rfl, hj, hms⟩ := exists_of_beqMembers_cons h
    simp only [memberDoubles, List.map_append, List.append_assoc] at hsigns
    obtain ⟨rfl, hrest⟩ := eq_of_signs_append_eq j hj hsigns
    obtain ⟨rfl, hr⟩ := eq_of_memberSigns_append_eq ms hms hrest
    exact ⟨rfl, hr⟩

end

/-- **When equal trees are the same**: if the signs of their doubles are. -/
theorem eq_iff_signs_eq {j j' : Json} (h : beq j j' = true) : j = j' ↔ j.signs = j'.signs := by
  refine ⟨congrArg signs, fun hsigns ↦ ?_⟩
  exact (eq_of_signs_append_eq j h (congrArg (· ++ []) hsigns)).1

/-- **When equal trees have the same text**, in any layout: if they are the same. -/
theorem chars_eq_iff {j j' : Json} (h : beq j j' = true) (l : Layout) (level : Nat) :
    j.chars l level = j'.chars l level ↔ j = j' := by
  refine ⟨fun htext ↦ ?_, fun heq ↦ heq ▸ rfl⟩
  exact (eq_of_chars_eq l level j h (congrArg (· ++ []) htext)).1

mutual

/-- A tree without NaN is equal to itself. -/
theorem beq_self : (j : Json) → (∀ x ∈ j.doubles, x.isNaN = false) → beq j j = true
  | .null, _ => rfl
  | .bool b, _ => beq_self_eq_true b
  | .int n, _ => beq_self_eq_true n
  | .double x, h => Double.beq_self_of_not_isNaN (h x (List.mem_singleton_self x))
  | .string s, _ => beq_self_eq_true s
  | .array js, h => beqItems_self js h
  | .object ms, h => beqMembers_self ms h

/-- Items equal themselves unless a double in them is undefined. -/
theorem beqItems_self : (js : List Json) → (∀ x ∈ itemDoubles js, x.isNaN = false) →
    beqItems js js = true
  | [], _ => rfl
  | j :: js, h => by
    rw [itemDoubles, List.forall_mem_append] at h
    rw [beqItems, beq_self j h.1, beqItems_self js h.2]
    rfl

theorem beqMembers_self : (ms : List (String × Json)) →
    (∀ x ∈ memberDoubles ms, x.isNaN = false) → beqMembers ms ms = true
  | [], _ => rfl
  | (_, j) :: ms, h => by
    rw [memberDoubles, List.forall_mem_append] at h
    simp [beqMembers, beq_self j h.1, beqMembers_self ms h.2]

end

end Json
end Pipework
