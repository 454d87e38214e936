import Pipework.Json.Reader
import Pipework.Proofs.Double.Finite
import Pipework.Proofs.Json.Numerals

/-!
# Numbers that are read

A number in a text is read as an integer that fits a word or as a finite double, however many digits
and whatever exponent it has (`isNormal_of_value`): the significand is cut to sixty-four bits,
dividing by powers of ten keeps it small, and a product that is infinite is refused. So what is read
of a text is `null` in normal form only if it is `null` (`normalize_ne_null`), and a number that is
found where a scalar value is wanted makes a finite double (`isNormal_of_readFound`,
`isFinite_ofInt_of_fitsWord`).
-/

namespace Pipework.Json

open Double

/-- Digits are gathered as long as they fit into a word. -/
theorem gather_lt {s : Nat} (h : s < UInt64.size) (ds : List Nat) :
    (gather s ds).1 < UInt64.size := by
  induction ds generalizing s with
  | nil => exact h
  | cons d ds ih =>
    rw [gather]
    split
    · exact h
    next hfits => exact ih (Nat.not_le.1 hfits)

/-- A power of ten is at least one. -/
theorem le_exponentField_powerOfTen (n : Nat) : 0 + 1023 ≤ (powerOfTen n).exponentField :=
  le_exponentField_ofNat (tenPow_pos n).ne' (Nat.zero_le _) (by decide)

/-- Dividing by powers of ten does not lead out of the finite doubles. The bound on the exponent
field is kept by every step but the last, since `10 ^ 308` is so large. -/
theorem isFinite_divideByTens {fuel : Nat} {x : Double} {n : Nat} (h : x.exponentField ≤ 1142) :
    (divideByTens fuel x n).isFinite = true := by
  induction fuel generalizing x n with
  | zero => exact isFinite_of_exponentField_le h (by decide)
  | succ fuel ih =>
    rw [divideByTens]
    split
    next =>
      have hdiv := exponentField_div_le 120 0 h (le_exponentField_powerOfTen n) (by decide)
        (by decide)
      exact isFinite_of_exponentField_le hdiv (by decide)
    next =>
      split
      · exact isFinite_of_exponentField_le h (by decide)
      · have hdiv : (x.div (powerOfTen 308)).exponentField ≤ 0 + 1078 :=
          exponentField_div_le 0 120 h (by decide +kernel) (by decide) (by decide)
        exact ih (hdiv.trans (by decide))

/-- What is scaled is finite, since a number that becomes infinite is refused. -/
theorem isFinite_of_scaled? {s : Nat} (hs : s < UInt64.size) {e : Int} {x : Double}
    (h : scaled? s e = some x) : x.isFinite = true := by
  have hstart : (Double.ofNat s).exponentField ≤ 1142 := exponentField_ofRatio_one_le _ hs.le
  rw [scaled?] at h
  split at h
  · cases h
    exact isFinite_divideByTens hstart
  split at h
  · split at h
    · cases h
      exact isFinite_of_exponentField_le hstart (by decide)
    · cases h
  · simp only at h
    split at h
    · cases h
    next hinfinite =>
      cases h
      exact isFinite_ofRatio (Bool.eq_false_iff.2 hinfinite)

theorem isNormal_of_scaled? {s : Nat} (hs : s < UInt64.size) {e : Int} {x : Double}
    (h : scaled? s e = some x) (negative : Bool) :
    (ofNumber (.double (signed negative x))).isNormal = true := by
  have hfinite := isFinite_of_scaled? hs h
  show (signed negative x).isFinite = true
  rw [signed]
  split
  · rwa [isFinite_neg]
  · exact hfinite

/-- **A number is read as an integer that fits a word or as a finite double.** -/
theorem isNormal_of_value {t : NumberText} {v : Number} (h : t.value = .ok v) :
    (ofNumber v).isNormal = true := by
  have hwhole := gather_lt (show 0 < UInt64.size by decide) t.whole
  have hfraction := gather_lt hwhole t.fraction
  rw [NumberText.value] at h
  simp only at h
  -- Without fraction and exponent the number is an integer unless it does not fit into a word.
  split at h
  · split at h
    · split at h
      next x hx =>
        cases h
        exact isNormal_of_scaled? hwhole hx _
      next => cases h
    split at h
    · cases h
      show fitsWord _ = true
      rw [fitsWord, Bool.and_eq_true, decide_eq_true_eq, decide_eq_true_eq,
        show Int64.minValue.toInt = -2 ^ 63 by decide]
      omega
    split at h
    · cases h
      show (Double.neg _).isFinite = true
      rw [isFinite_neg]
      exact isFinite_of_exponentField_le (exponentField_ofRatio_one_le _ hwhole.le) (by decide)
    next hrange =>
      cases h
      show fitsWord _ = true
      rw [fitsWord, Bool.and_eq_true, decide_eq_true_eq, decide_eq_true_eq]
      omega
  · split at h
    · split at h
      next x hx =>
        cases h
        exact isNormal_of_scaled? hfraction hx _
      next => cases h
    · split at h
      · split at h
        next x hx =>
          cases h
          exact isNormal_of_scaled? hfraction hx _
        next => cases h
      · split at h
        · cases h
        · cases h
          show (Double.zero _).isFinite = true
          cases t.negative <;> rfl

/-- **Numbers that are read are in normal form**: integers fit into a word and doubles are
finite. -/
theorem isNormal_of_number {negative : Bool} {s rest : List Char} {v : Number}
    (h : number negative s = .ok (v, rest)) : (ofNumber v).isNormal = true := by
  obtain ⟨⟨t, u⟩, -, hvalue⟩ := bind_eq_ok_iff.1 h
  simp only at hvalue
  split at hvalue
  next v' hv =>
    cases hvalue
    exact isNormal_of_value hv
  next => cases hvalue

/-- No number that is read is taken for `null`. -/
theorem normalize_ofNumber_ne_null {negative : Bool} {s rest : List Char} {v : Number}
    (h : number negative s = .ok (v, rest)) : (ofNumber v).normalize ≠ .null := by
  have hnormal := isNormal_of_number h
  cases v with
  | int n =>
    rw [ofNumber, normalize, if_pos (show fitsWord n = true from hnormal)]
    simp
  | double x =>
    rw [ofNumber, normalize, if_pos (show x.isFinite = true from hnormal)]
    simp

/-- **What does not begin as `null` does not become `null`** when it is read and put in normal
form. -/
theorem normalize_ne_null {room : Nat} {s t : List Char} {j : Json}
    (hs : ∀ u, skipSpace s ≠ 'n' :: u) (h : readValue room s = .ok (j, t)) :
    j.normalize ≠ .null := by
  rw [readValue.eq_def] at h
  split at h
  next => cases h
  next hn => exact absurd hn (hs _)
  next =>
    obtain ⟨u, -, heq⟩ := map_eq_ok_iff.1 h
    cases heq
    simp [normalize]
  next =>
    obtain ⟨u, -, heq⟩ := map_eq_ok_iff.1 h
    cases heq
    simp [normalize]
  next =>
    obtain ⟨u, -, heq⟩ := map_eq_ok_iff.1 h
    cases heq
    simp [normalize]
  next =>
    obtain ⟨⟨v, u⟩, hnumber, heq⟩ := map_eq_ok_iff.1 h
    cases heq
    exact normalize_ofNumber_ne_null hnumber
  next =>
    split at h
    · cases h
    · obtain ⟨u, -, heq⟩ := map_eq_ok_iff.1 h
      cases heq
      simp [normalize]
  next =>
    split at h
    · cases h
    · obtain ⟨u, -, heq⟩ := map_eq_ok_iff.1 h
      cases heq
      simp [normalize]
  next =>
    split at h
    · obtain ⟨⟨v, u⟩, hnumber, heq⟩ := map_eq_ok_iff.1 h
      cases heq
      exact normalize_ofNumber_ne_null hnumber
    · cases h

/-! ### Numbers that are found -/

/-- Integers of a tree become finite doubles. -/
theorem isFinite_ofInt_of_fitsWord {n : Int} (h : fitsWord n = true) :
    (ofInt n).isFinite = true := by
  refine isFinite_ofInt_of_natAbs_le ?_
  rw [fitsWord, Bool.and_eq_true, decide_eq_true_eq, decide_eq_true_eq,
    show Int64.minValue.toInt = -2 ^ 63 by decide] at h
  rw [show UInt64.size = 2 ^ 64 by decide] at h ⊢
  omega

/-- A number that is found is in normal form, whatever is expected in its place. -/
theorem isNormal_of_found_number {negative : Bool} {s t : List Char} {got : Found}
    (h : (number negative s).map (fun x ↦ (found (ofNumber x.1), x.2)) = .ok (got, t)) :
    got.toJson.isNormal = true := by
  obtain ⟨⟨v, u⟩, hnumber, heq⟩ := map_eq_ok_iff.1 h
  cases heq
  have hnormal := isNormal_of_number hnumber
  cases v with
  | int n => exact hnormal
  | double x => exact hnormal

/-- **A number that is found in front of a text fits a word or is finite.** -/
theorem isNormal_of_readFound {s t : List Char} {got : Found}
    (h : Codec.readFound s = .ok (got, t)) : got.toJson.isNormal = true := by
  rw [Codec.readFound.eq_def] at h
  split at h
  case h_5 => exact isNormal_of_found_number h
  case h_8 =>
    split at h
    · exact isNormal_of_found_number h
    · cases h
  -- What is found otherwise is a word, a string or a bracket.
  case h_6 | h_7 =>
    cases h
    rfl
  all_goals
    obtain ⟨u, -, heq⟩ := map_eq_ok_iff.1 h
    cases heq
    rfl

end Pipework.Json
