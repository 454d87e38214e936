import Pipework.Proofs.Double.Overflow
import Pipework.Proofs.Json.Finite

/-!
# Integers as numbers of a text

An integer in a text is an optional sign and digits. It is read as itself if it fits a word,
negative zero apart, which is a double (`value?_of_fitsWord`, `value?_of_minusZero`). All others are
read from their leading digits and the number of the digits after them: as a double, unless they are
out of range (`exists_double_of_not_fitsWord`, `value?_of_isOutOfRange`). Up to three hundred and
eight digits they never are, from three hundred and ten on they always are; with one digit in
between it depends on the first of them.
-/

namespace Pipework.Json

open Double

/-! ### Digits -/

/-- The digits that come last are divided away. -/
theorem foldl_digits_div {ds : List Nat} (h : ∀ d ∈ ds, d < 10) (s : Nat) :
    ds.foldl (fun n d ↦ 10 * n + d) s / 10 ^ ds.length = s := by
  induction ds generalizing s with
  | nil => exact Nat.div_one s
  | cons d ds ih =>
    obtain ⟨hd, hds⟩ := List.forall_mem_cons.1 h
    rw [List.foldl_cons, List.length_cons, Nat.pow_succ, ← Nat.div_div_eq_div_mul, ih hds]
    omega

/-- No more digits are gathered than there are. -/
theorem gather_length_le (s : Nat) (ds : List Nat) : (gather s ds).2 ≤ ds.length := by
  induction ds generalizing s with
  | nil => exact Nat.le_refl 0
  | cons d ds ih =>
    rw [gather]
    split
    · exact Nat.zero_le _
    · exact Nat.succ_le_succ (ih _)

/-- What is gathered is the number without its last digits. -/
theorem gather_eq_div {ds : List Nat} (h : ∀ d ∈ ds, d < 10) (s : Nat) :
    (gather s ds).1 = ds.foldl (fun n d ↦ 10 * n + d) s / 10 ^ (ds.length - (gather s ds).2) := by
  induction ds generalizing s with
  | nil => exact (Nat.div_one s).symm
  | cons d ds ih =>
    rw [gather]
    split
    · exact (foldl_digits_div h s).symm
    · rw [List.foldl_cons, List.length_cons, Nat.mul_comm s 10]
      simp only [Nat.add_sub_add_right]
      exact ih (List.forall_mem_cons.1 h).2 (10 * s + d)

/-- **All digits are gathered exactly if the number fits into a word.** -/
theorem gather_length_eq_iff {ds : List Nat} (h : ∀ d ∈ ds, d < 10) :
    (gather 0 ds).2 = ds.length ↔ ds.foldl (fun n d ↦ 10 * n + d) 0 < UInt64.size := by
  constructor
  · intro hlength
    have hvalue := gather_eq_div h 0
    rw [hlength, Nat.sub_self, Nat.pow_zero, Nat.div_one] at hvalue
    exact hvalue ▸ gather_lt (by decide) ds
  · intro hsize
    rw [gather_eq hsize]

theorem digitValue_lt {c : Char} (h : isDigit c = true) : digitValue c < 10 := by
  rw [isDigit, Bool.and_eq_true, decide_eq_true_eq, decide_eq_true_eq] at h
  have hupper : c.toNat ≤ 57 := h.2
  rw [digitValue, show '0'.toNat = 48 from rfl]
  omega

/-- The integers of a tree are those of a word with a sign or without one. -/
theorem fitsWord_iff {z : Int} : fitsWord z = true ↔ -2 ^ 63 ≤ z ∧ z < 2 ^ 64 := by
  simp [fitsWord]

theorem NumberSpelling.isFinite_of_value? {k : NumberSpelling} {x : Double}
    (h : k.value? = some (.double x)) : x.isFinite = true :=
  isNormal_of_value (toOption_eq_some_iff.1 h)

/-! ### Spellings of integers -/

/-- An integer as it stands in a text. -/
structure IntegerSpelling where
  negative : Bool
  digits : List Char
  isWhole : IsWhole digits

namespace IntegerSpelling

variable (n : IntegerSpelling)

/-- A number without fraction and exponent. -/
def toNumber : NumberSpelling where
  negative := n.negative
  whole := n.digits
  fraction := []
  exponent := []
  isWhole := n.isWhole
  isFraction := isFraction_nil
  isExponent := isExponent_nil

/-- The number that the digits denote. -/
def magnitude : Nat :=
  Nat.ofDigitChars 10 n.digits 0

/-- The integer. -/
def value : Int :=
  if n.negative then -n.magnitude else n.magnitude

theorem natAbs_value : n.value.natAbs = n.magnitude := by
  rw [value]
  split
  · exact Int.natAbs_neg _
  · rfl

/-- A zero with a sign. -/
def IsMinusZero : Prop :=
  n.negative = true ∧ n.magnitude = 0

instance : Decidable n.IsMinusZero :=
  inferInstanceAs (Decidable (_ ∧ _))

/-- The values of the digits. -/
def digitValues : List Nat :=
  n.digits.map digitValue

theorem length_digitValues : n.digitValues.length = n.digits.length :=
  List.length_map _

theorem digitValues_lt : ∀ d ∈ n.digitValues, d < 10 := by
  intro d hd
  obtain ⟨c, hc, rfl⟩ := List.mem_map.1 hd
  exact digitValue_lt (n.isWhole.1.2 c hc)

theorem foldl_digitValues : n.digitValues.foldl (fun n d ↦ 10 * n + d) 0 = n.magnitude :=
  List.foldl_map

/-- A number is smaller than the power of ten with as many zeros as it has digits. -/
theorem magnitude_lt : n.magnitude < 10 ^ n.digits.length := by
  have hzero := foldl_digits_div n.digitValues_lt 0
  rw [foldl_digitValues, length_digitValues] at hzero
  exact Nat.lt_of_div_eq_zero (Nat.pow_pos (by decide)) hzero

/-- No zero stands in front. -/
theorem le_magnitude (h : 1 < n.digits.length) : 10 ^ (n.digits.length - 1) ≤ n.magnitude := by
  obtain ⟨c, t, ht, hc⟩ := n.isWhole.exists_cons
  have hfirst : c ≠ '0' := by
    rintro rfl
    rw [n.isWhole.2 (by rw [ht]; rfl)] at h
    exact absurd h (by decide)
  have hpos : 0 < digitValue c := by
    have hdigit := hc
    rw [isDigit, Bool.and_eq_true, decide_eq_true_eq, decide_eq_true_eq] at hdigit
    have hlower : 48 ≤ c.toNat := hdigit.1
    have hne : c.toNat ≠ 48 := fun heq ↦ hfirst (Char.toNat_inj.1 heq)
    rw [digitValue, show '0'.toNat = 48 from rfl]
    omega
  have hrest : ∀ d ∈ t.map digitValue, d < 10 := fun d hd ↦
    n.digitValues_lt d (by rw [digitValues, ht]; exact List.mem_cons_of_mem _ hd)
  have hquotient := foldl_digits_div hrest (digitValue c)
  have hvalue := n.foldl_digitValues
  rw [digitValues, ht, List.map_cons, List.foldl_cons, Nat.mul_zero, Nat.zero_add] at hvalue
  rw [hvalue, List.length_map] at hquotient
  rw [ht, List.length_cons, Nat.add_sub_cancel]
  by_contra hlt
  rw [Nat.div_eq_of_lt (Nat.not_le.1 hlt)] at hquotient
  omega

/-- The digits that are kept. -/
def kept : Nat :=
  (gather 0 n.digitValues).1

/-- The number of digits that are not kept. -/
def dropped : Nat :=
  n.digits.length - (gather 0 n.digitValues).2

/-- The digits that are kept are the first ones. -/
theorem kept_eq : n.kept = n.magnitude / 10 ^ n.dropped := by
  have hkept := gather_eq_div n.digitValues_lt 0
  rwa [foldl_digitValues, length_digitValues] at hkept

theorem kept_of_dropped_eq_zero (h : n.dropped = 0) : n.kept = n.magnitude := by
  rw [kept_eq, h, Nat.pow_zero, Nat.div_one]

theorem kept_lt : n.kept < UInt64.size :=
  gather_lt (by decide) _

/-- Digits are dropped only if the number does not fit into a word. -/
theorem dropped_eq_zero_iff : n.dropped = 0 ↔ n.magnitude < UInt64.size := by
  have hiff := gather_length_eq_iff n.digitValues_lt
  have hle := gather_length_le 0 n.digitValues
  rw [foldl_digitValues, length_digitValues] at hiff
  rw [length_digitValues] at hle
  rw [← hiff, dropped]
  omega

/-- **How an integer is read.** -/
theorem value?_toNumber : n.toNumber.value? =
    if n.dropped ≠ 0 then
      (scaled? n.kept n.dropped).map fun x ↦ .double (signed n.negative x)
    else if n.negative = false then some (.int n.kept)
    else if n.kept = 0 ∨ -(n.kept : Int) < Int64.minValue.toInt then
      some (.double (Double.ofNat n.kept).neg)
    else some (.int (-n.kept)) := by
  have hkept : (gather 0 (n.digits.map digitValue)).1 = n.kept := rfl
  have hdropped : (n.digits.map digitValue).length - (gather 0 (n.digits.map digitValue)).2 =
      n.dropped := by
    rw [List.length_map]
    rfl
  rw [NumberSpelling.value?, NumberText.value]
  simp only [NumberSpelling.text, toNumber, List.drop_nil, List.map_nil, List.isEmpty_nil,
    exponentValue, Option.isNone_none, and_self, if_true, hkept, hdropped,
    apply_ite Except.toOption, Bool.not_eq_true']
  rcases scaled? n.kept n.dropped with - | x
  · rfl
  · rfl

variable {n}

/-- **An integer that fits a word is read as such**, unless it is negative zero. -/
theorem value?_of_fitsWord (hfits : fitsWord n.value = true) (hzero : ¬ n.IsMinusZero) :
    n.toNumber.value? = some (.int n.value) := by
  rw [fitsWord_iff] at hfits
  have hsize : n.dropped = 0 := by
    have habs := n.natAbs_value
    rw [dropped_eq_zero_iff, show UInt64.size = 2 ^ 64 by decide]
    omega
  rw [value?_toNumber, if_neg (not_not.2 hsize), n.kept_of_dropped_eq_zero hsize]
  rcases hnegative : n.negative with - | -
  · simp [value, hnegative]
  · have hne : n.magnitude ≠ 0 := fun h ↦ hzero ⟨hnegative, h⟩
    have hvalue : n.value = -n.magnitude := by
      simp [value, hnegative]
    have hrange : ¬ (n.magnitude = 0 ∨ -(n.magnitude : Int) < Int64.minValue.toInt) := by
      rw [show Int64.minValue.toInt = -2 ^ 63 by decide]
      omega
    rw [if_neg (by decide), if_neg hrange, hvalue]

/-- A zero with a minus sign is read as a double, since no integer has the sign. -/
theorem value?_of_minusZero (hzero : n.IsMinusZero) :
    n.toNumber.value? = some (.double (Double.zero true)) := by
  obtain ⟨hnegative, hmagnitude⟩ := hzero
  have hsize : n.dropped = 0 := by
    rw [dropped_eq_zero_iff, hmagnitude]
    decide
  rw [value?_toNumber, if_neg (not_not.2 hsize), hnegative, n.kept_of_dropped_eq_zero hsize,
    hmagnitude]
  rfl

/-- **Any other integer is read as a double or not at all.** -/
theorem value?_of_not_fitsWord (hfits : fitsWord n.value = false) :
    n.toNumber.value? = if n.dropped ≠ 0 then
        (scaled? n.kept n.dropped).map fun x ↦ .double (signed n.negative x)
      else some (.double (Double.ofNat n.kept).neg) := by
  rw [value?_toNumber]
  by_cases hdropped : n.dropped = 0
  · have hsize := n.dropped_eq_zero_iff.1 hdropped
    have habs := n.natAbs_value
    rw [Bool.eq_false_iff, ne_eq, fitsWord_iff] at hfits
    rw [show UInt64.size = 2 ^ 64 by decide] at hsize
    have hnegative : n.negative = true := by
      rcases hsign : n.negative with - | -
      · have hvalue : n.value = n.magnitude := by simp [value, hsign]
        omega
      · rfl
    have hvalue : n.value = -n.magnitude := by simp [value, hnegative]
    have hlow : -(n.kept : Int) < Int64.minValue.toInt := by
      rw [n.kept_of_dropped_eq_zero hdropped, show Int64.minValue.toInt = -2 ^ 63 by decide]
      omega
    rw [if_neg (not_not.2 hdropped), if_neg (not_not.2 hdropped), hnegative, if_neg (by decide),
      if_pos (.inr hlow)]
  · rw [if_pos hdropped, if_pos hdropped]

/-! ### Out of range -/

/-- A significand is scaled by one multiplication. -/
theorem scaled?_natCast {s k : Nat} (hk : k ≤ 308) :
    scaled? s k = if ((Double.ofNat s).mul (Double.ofNat (10 ^ k))).isInfinite then none
      else some ((Double.ofNat s).mul (Double.ofNat (10 ^ k))) := by
  rw [scaled?, if_neg (by omega), if_neg (by omega)]
  rfl

/-- **Up to three hundred and eight digits the product is not too large.** -/
theorem exists_scaled?_of_length_le (hlength : n.digits.length ≤ 308) :
    ∃ x, scaled? n.kept n.dropped = some x := by
  have hdropped : n.dropped ≤ 308 := (Nat.sub_le _ _).trans hlength
  suffices hfinite : ((Double.ofNat n.kept).mul (Double.ofNat (10 ^ n.dropped))).isFinite = true by
    rw [scaled?_natCast hdropped, isInfinite_of_isFinite hfinite]
    exact ⟨_, rfl⟩
  have hproduct : n.kept * 10 ^ n.dropped < 10 ^ 308 := by
    rw [kept_eq]
    exact lt_of_le_of_lt (Nat.div_mul_le_self _ _)
      (lt_of_lt_of_le n.magnitude_lt (pow_le_pow_right₀ (by decide) hlength))
  by_cases hkept : n.kept = 0
  · rw [hkept]
    refine isFinite_mul_of_lt ?_
    rw [show (Double.ofNat 0).toRat = 0 by decide +kernel, zero_mul, abs_zero]
    exact mul_pos (by norm_num) (by positivity)
  have hten : n.dropped < 308 := by
    rw [← pow_lt_pow_iff_right₀ (show 1 < 10 by decide)]
    exact lt_of_le_of_lt (Nat.le_mul_of_pos_left _ (Nat.pos_of_ne_zero hkept)) hproduct
  -- Both factors may have been rounded up, and there is room for that below the bound.
  refine isFinite_ofNat_mul_ofNat_of_lt ?_ ?_ ?_
  · exact ((Nat.log2_lt (k := 64) hkept).2 n.kept_lt).trans (by decide)
  · rw [Nat.log2_lt (by positivity)]
    exact lt_of_le_of_lt (pow_le_pow_right₀ (by decide) (Nat.le_of_lt_succ hten))
      (by decide +kernel)
  · calc
      ((n.kept * 10 ^ n.dropped : Nat) : ℚ) * (1 + 1 / 2 ^ 53) ^ 2
      _ ≤ (10 ^ 308 : Nat) * (1 + 1 / 2 ^ 53) ^ 2 := by gcongr
      _ < (2 ^ 54 - 1) * 2 ^ 970 := by decide +kernel

/-- The first digit is kept. -/
theorem dropped_lt (n : IntegerSpelling) : n.dropped < n.digits.length := by
  obtain ⟨c, t, ht, hc⟩ := n.isWhole.exists_cons
  have hc' := digitValue_lt hc
  have hgather : 0 < (gather 0 n.digitValues).2 := by
    rw [digitValues, ht, List.map_cons, gather, if_neg (by
      rw [show UInt64.size = 2 ^ 64 by decide]
      omega)]
    exact Nat.succ_pos _
  have hlength : 0 < n.digits.length := by
    rw [ht]
    exact Nat.succ_pos _
  rw [dropped]
  omega

/-- What is kept is as large as the number, up to the digits that are dropped. -/
theorem le_kept_mul (h : 1 < n.digits.length) :
    10 ^ (n.digits.length - 1) ≤ n.kept * 10 ^ n.dropped := by
  have hdropped := n.dropped_lt
  have hsplit : 10 ^ (n.digits.length - 1) =
      10 ^ (n.digits.length - 1 - n.dropped) * 10 ^ n.dropped := by
    rw [← Nat.pow_add]
    congr 1
    omega
  rw [hsplit, kept_eq]
  refine Nat.mul_le_mul_right _ ?_
  rw [Nat.le_div_iff_mul_le (by positivity), ← hsplit]
  exact n.le_magnitude h

/-- **From three hundred and ten digits on the product is too large.** -/
theorem scaled?_of_le_length (hlength : 310 ≤ n.digits.length) :
    scaled? n.kept n.dropped = none := by
  have hproduct : 10 ^ 309 ≤ n.kept * 10 ^ n.dropped :=
    (pow_le_pow_right₀ (by decide) (by omega)).trans (le_kept_mul (by omega))
  have hkept : n.kept ≠ 0 := by
    intro hzero
    rw [hzero, Nat.zero_mul] at hproduct
    exact absurd hproduct (by decide +kernel)
  rcases Nat.lt_or_ge 308 n.dropped with hlarge | hsmall
  · have hfield := le_exponentField_ofNat hkept (Nat.zero_le _) (by decide)
    have hnonzero : (Double.ofNat n.kept).isZero = false := by
      rw [isZero, beq_eq_false_iff_ne.2 (by omega), Bool.false_and]
    rw [scaled?, if_neg (by omega), if_pos (by omega), hnonzero]
    rfl
  · have hinfinite : ((Double.ofNat n.kept).mul (Double.ofNat (10 ^ n.dropped))).isFinite =
        false := by
      refine isFinite_ofNat_mul_ofNat_of_le ?_ ?_ ?_
      · exact (((Nat.log2_lt (k := 64) hkept).2 n.kept_lt).trans (by decide)).le
      · have hten : 10 ^ n.dropped < 2 ^ 1024 :=
          lt_of_le_of_lt (pow_le_pow_right₀ (by decide) hsmall) (by decide +kernel)
        exact ((Nat.log2_lt (by positivity)).2 hten).le
      · exact le_trans (show 2 ^ 1025 ≤ 10 ^ 309 by decide +kernel) hproduct
    rw [scaled?_natCast hsmall, if_pos]
    by_contra hne
    exact Bool.false_ne_true (hinfinite.symm.trans (isFinite_ofRatio (Bool.eq_false_iff.2 hne)))

/-- The leading digits, scaled by the power of ten that the others make up for, are too large for a
double. -/
def IsOutOfRange (n : IntegerSpelling) : Prop :=
  n.dropped ≠ 0 ∧ scaled? n.kept n.dropped = none

/-- No integer with up to 308 digits is out of range. -/
theorem not_isOutOfRange_of_length_le (hlength : n.digits.length ≤ 308) : ¬ n.IsOutOfRange := by
  rintro ⟨-, hnone⟩
  obtain ⟨x, hx⟩ := exists_scaled?_of_length_le hlength
  exact Option.some_ne_none x (hx.symm.trans hnone)

/-- Every integer with 310 digits or more is out of range. -/
theorem isOutOfRange_of_le_length (hlength : 310 ≤ n.digits.length) : n.IsOutOfRange := by
  refine ⟨fun hzero ↦ ?_, scaled?_of_le_length hlength⟩
  have hsize := n.dropped_eq_zero_iff.1 hzero
  have hmagnitude := n.le_magnitude (by omega)
  have hlarge : UInt64.size ≤ 10 ^ (n.digits.length - 1) :=
    le_trans (show UInt64.size ≤ 10 ^ 20 by decide) (pow_le_pow_right₀ (by decide) (by omega))
  omega

/-- **An integer that fits no word is read as a double** unless it is out of range. -/
theorem exists_double_of_not_fitsWord (hfits : fitsWord n.value = false)
    (hrange : ¬ n.IsOutOfRange) : ∃ x, n.toNumber.value? = some (.double x) := by
  rw [value?_of_not_fitsWord hfits]
  by_cases hdropped : n.dropped = 0
  · rw [if_neg (not_not.2 hdropped)]
    exact ⟨_, rfl⟩
  · obtain ⟨x, hx⟩ := Option.ne_none_iff_exists'.1 fun hnone ↦ hrange ⟨hdropped, hnone⟩
    rw [if_pos hdropped, hx]
    exact ⟨_, rfl⟩

/-- **An integer out of range is not read.** -/
theorem value?_of_isOutOfRange (hrange : n.IsOutOfRange) : n.toNumber.value? = none := by
  rw [value?_toNumber, if_pos hrange.1, hrange.2]
  rfl

/-- What fits a word is in range. -/
theorem fitsWord_eq_false_of_isOutOfRange (hrange : n.IsOutOfRange) : fitsWord n.value = false := by
  rw [Bool.eq_false_iff, ne_eq, fitsWord_iff]
  intro hfits
  have habs := n.natAbs_value
  have hsize : UInt64.size ≤ n.magnitude :=
    Nat.not_lt.1 fun h ↦ hrange.1 (n.dropped_eq_zero_iff.2 h)
  rw [show UInt64.size = 2 ^ 64 by decide] at hsize
  omega

end IntegerSpelling

end Pipework.Json
