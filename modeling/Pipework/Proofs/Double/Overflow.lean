import Mathlib.Algebra.Order.Field.Power
import Mathlib.Tactic.Linarith
import Pipework.Proofs.Double.Exact

/-!
# Products that are too large

Rounding ends in an infinity from `2 ^ 1024` on, and not below `2 ^ 1024 - 2 ^ 970`, which is half a
last place above the largest double (`isFinite_ofRatio_of_lt`, `isFinite_ofRatio_of_le`). A product
of doubles is one rounding away from the product of the numbers that they are, so the same bounds
tell whether it is infinite. The double nearest to a natural number is off by a factor of at most
`1 + 2 ^ (-53)`.
-/

namespace Pipework.Double

/-! ### Rounding ratios -/

variable {num den : Nat}

/-- Shifting one side or the other compares a ratio with a power of two. -/
theorem shiftLeft_le_shiftLeft_iff (hden : den ≠ 0) (e : Int) :
    den <<< e.toNat ≤ num <<< (-e).toNat ↔ (2 : ℚ) ^ e ≤ num / den := by
  have hden' : (0 : ℚ) < den := Nat.cast_pos.2 (Nat.pos_of_ne_zero hden)
  rw [two_zpow_eq_div, div_le_div_iff₀ (by positivity) hden', Nat.shiftLeft_eq, Nat.shiftLeft_eq,
    mul_comm den]
  exact_mod_cast Iff.rfl

/-- Shifting numerator or denominator scales a ratio by a power of two. -/
theorem shiftLeft_div_shiftLeft (num den : Nat) (q : Int) :
    ((num <<< (-q).toNat : Nat) : ℚ) / (den <<< q.toNat : Nat) = num / den / 2 ^ q := by
  rw [two_zpow_eq_div, Nat.shiftLeft_eq, Nat.shiftLeft_eq, Nat.cast_mul, Nat.cast_mul,
    Nat.cast_pow, Nat.cast_pow, Nat.cast_ofNat, div_div_div_eq]

/-- The binary logarithm of a ratio. -/
theorem floorLog2_spec (hnum : num ≠ 0) (hden : den ≠ 0) :
    (2 : ℚ) ^ floorLog2 num den ≤ num / den ∧ (num : ℚ) / den < 2 ^ (floorLog2 num den + 1) := by
  have hden' : (0 : ℚ) < den := Nat.cast_pos.2 (Nat.pos_of_ne_zero hden)
  have hnumLe : (2 : ℚ) ^ num.log2 ≤ num := by exact_mod_cast Nat.log2_self_le hnum
  have hnumLt : (num : ℚ) < 2 ^ (num.log2 + 1) := by exact_mod_cast Nat.lt_log2_self
  have hdenLe : (2 : ℚ) ^ den.log2 ≤ den := by exact_mod_cast Nat.log2_self_le hden
  have hdenLt : (den : ℚ) < 2 ^ (den.log2 + 1) := by exact_mod_cast Nat.lt_log2_self
  have hupper : (num : ℚ) / den < 2 ^ ((num.log2 : Int) - den.log2 + 1) := by
    rw [div_lt_iff₀ hden']
    calc
      (num : ℚ) < 2 ^ (num.log2 + 1) := hnumLt
      _ = 2 ^ ((num.log2 : Int) - den.log2 + 1) * 2 ^ den.log2 := by
        rw [← zpow_natCast, ← zpow_natCast, ← zpow_add₀ two_ne_zero]
        congr 1
        omega
      _ ≤ 2 ^ ((num.log2 : Int) - den.log2 + 1) * den := by gcongr
  have hlower : (2 : ℚ) ^ ((num.log2 : Int) - den.log2 - 1) ≤ num / den := by
    rw [le_div_iff₀ hden']
    calc
      (2 : ℚ) ^ ((num.log2 : Int) - den.log2 - 1) * den
      _ ≤ 2 ^ ((num.log2 : Int) - den.log2 - 1) * 2 ^ (den.log2 + 1) := by gcongr
      _ = 2 ^ num.log2 := by
        rw [← zpow_natCast, ← zpow_natCast, ← zpow_add₀ two_ne_zero]
        congr 1
        omega
      _ ≤ num := hnumLe
  -- The difference of the logarithms is right or one too large, which the comparison decides.
  simp only [floorLog2, shiftLeft_le_shiftLeft_iff hden]
  split
  next h => exact ⟨h, hupper⟩
  next h =>
    refine ⟨hlower, ?_⟩
    rw [sub_add_cancel]
    exact not_le.1 h

/-- What is rounded moves by a half at most. -/
theorem roundHalfEven_spec (num : Nat) (hden : den ≠ 0) :
    (roundHalfEven num den : ℚ) ≤ num / den + 1 / 2 ∧
      (num : ℚ) / den ≤ roundHalfEven num den + 1 / 2 := by
  have hden' : (0 : ℚ) < den := Nat.cast_pos.2 (Nat.pos_of_ne_zero hden)
  have hnat : 2 * (roundHalfEven num den * den) ≤ 2 * num + den ∧
      2 * num ≤ 2 * (roundHalfEven num den * den) + den := by
    have hdivision := Nat.div_add_mod num den
    have hremainder := Nat.mod_lt num (Nat.pos_of_ne_zero hden)
    rw [roundHalfEven]
    split
    · rw [Nat.add_one_mul (num / den), Nat.mul_comm (num / den)]
      omega
    · rw [Nat.mul_comm (num / den)]
      omega
  obtain ⟨hle, hge⟩ := hnat
  have hle' : (2 * (roundHalfEven num den * den) : ℚ) ≤ 2 * num + den := by exact_mod_cast hle
  have hge' : (2 * num : ℚ) ≤ 2 * (roundHalfEven num den * den) + den := by exact_mod_cast hge
  constructor
  · rw [← sub_le_iff_le_add, le_div_iff₀ hden']
    linarith
  · rw [div_le_iff₀ hden']
    linarith

/-- The significand of the rounded ratio, for the place of its last bit. -/
theorem significand_spec (num : Nat) (hden : den ≠ 0) (q : Int) :
    (roundHalfEven (num <<< (-q).toNat) (den <<< q.toNat) : ℚ) ≤ num / den / 2 ^ q + 1 / 2 ∧
      (num : ℚ) / den / 2 ^ q ≤
        roundHalfEven (num <<< (-q).toNat) (den <<< q.toNat) + 1 / 2 := by
  rw [← shiftLeft_div_shiftLeft]
  refine roundHalfEven_spec _ ?_
  rw [Nat.shiftLeft_eq]
  exact Nat.mul_ne_zero hden (Nat.two_pow_pos _).ne'

/-- **Ratios below the last rounding boundary are finite.** -/
theorem isFinite_ofRatio_of_lt (negative : Bool) (hden : den ≠ 0)
    (h : (num : ℚ) / den < (2 ^ 54 - 1) * 2 ^ 970) :
    (ofRatio negative num den).isFinite = true := by
  by_cases hnum : num = 0
  · rw [ofRatio, if_pos hnum]
    cases negative <;> rfl
  obtain ⟨hfloor, hceil⟩ := floorLog2_spec hnum hden
  have hexponent : floorLog2 num den < 1024 := by
    rw [← zpow_lt_zpow_iff_right₀ (one_lt_two (α := ℚ))]
    calc
      (2 : ℚ) ^ floorLog2 num den ≤ num / den := hfloor
      _ < (2 ^ 54 - 1) * 2 ^ 970 := h
      _ ≤ 2 ^ 54 * 2 ^ 970 := by gcongr; linarith
      _ = 2 ^ (1024 : Int) := by rw [← pow_add]; rfl
  rw [ofRatio, if_neg hnum]
  dsimp only
  generalize hq : max (floorLog2 num den - 52) (-1074) = q
  have hsignificand := (significand_spec num hden q).1
  generalize roundHalfEven (num <<< (-q).toNat) (den <<< q.toNat) = s at hsignificand ⊢
  have hplace : (0 : ℚ) < 2 ^ q := by positivity
  have hmagnitude : (q + 1074).toNat <<< 52 + s < 2047 <<< 52 := by
    -- Below the last place there is room for a carry. In the last one the bound rules it out.
    rcases Int.lt_or_le q 971 with hlt | hge
    · have hs : (s : ℚ) < 2 ^ 53 + 1 := by
        have hratio : (num : ℚ) / den / 2 ^ q < 2 ^ 53 := by
          rw [div_lt_iff₀ hplace]
          calc
            (num : ℚ) / den < 2 ^ (floorLog2 num den + 1) := hceil
            _ ≤ 2 ^ (53 + q) := zpow_le_zpow_right₀ one_le_two (by omega)
            _ = 2 ^ 53 * 2 ^ q := by rw [zpow_add₀ two_ne_zero]; rfl
        linarith
      have hs' : s < 2 ^ 53 + 1 := by exact_mod_cast hs
      omega
    · obtain rfl : q = 971 := by omega
      have hs : (s : ℚ) < 2 ^ 53 := by
        have hratio : (num : ℚ) / den / 2 ^ (971 : Int) < 2 ^ 53 - 1 / 2 := by
          rw [div_lt_iff₀ hplace]
          rw [show (2 : ℚ) ^ (971 : Int) = 2 * 2 ^ 970 by rw [← pow_succ']; rfl]
          generalize (2 : ℚ) ^ 970 = boundary at h
          linarith
        linarith
      have hs' : s < 2 ^ 53 := by exact_mod_cast hs
      omega
  exact isFinite_of_exponentField_le (exponentField_ofMagnitude_le negative hmagnitude (by decide))
    (by decide)

/-- **Ratios from `2 ^ 1024` on are infinite.** -/
theorem isFinite_ofRatio_of_le (negative : Bool) (hden : den ≠ 0)
    (h : 2 ^ 1024 ≤ (num : ℚ) / den) : (ofRatio negative num den).isFinite = false := by
  have hnum : num ≠ 0 := by
    rintro rfl
    rw [Nat.cast_zero, zero_div] at h
    exact absurd h (not_le.2 (by positivity))
  obtain ⟨hfloor, hceil⟩ := floorLog2_spec hnum hden
  have hexponent : 1024 < floorLog2 num den + 1 := by
    rw [← zpow_lt_zpow_iff_right₀ (one_lt_two (α := ℚ))]
    exact lt_of_le_of_lt h hceil
  rw [ofRatio, if_neg hnum,
    show max (floorLog2 num den - 52) (-1074) = floorLog2 num den - 52 by omega]
  dsimp only
  generalize hq : floorLog2 num den - 52 = q
  have hsignificand := (significand_spec num hden q).2
  generalize roundHalfEven (num <<< (-q).toNat) (den <<< q.toNat) = s at hsignificand ⊢
  have hs : (2 ^ 52 : ℚ) < s + 1 := by
    have hratio : (2 ^ 52 : ℚ) ≤ num / den / 2 ^ q := by
      rw [le_div_iff₀ (by positivity)]
      calc
        (2 : ℚ) ^ 52 * 2 ^ q = 2 ^ (52 + q) := by rw [zpow_add₀ two_ne_zero]; rfl
        _ = 2 ^ floorLog2 num den := by congr 1; omega
        _ ≤ num / den := hfloor
    linarith
  have hs' : 2 ^ 52 < s + 1 := by exact_mod_cast hs
  have hfield : 2047 ≤ (ofMagnitude negative ((q + 1074).toNat <<< 52 + s)).exponentField :=
    le_exponentField_ofMagnitude negative (by omega) (by decide)
  have hbound : (ofMagnitude negative ((q + 1074).toNat <<< 52 + s)).exponentField < 2048 :=
    Nat.mod_lt _ (by decide)
  rw [isFinite, bne_eq_false_iff_eq]
  omega

/-! ### Products -/

variable {x y : Double}

theorem isInfinite_of_isFinite (h : x.isFinite = true) : x.isInfinite = false := by
  rw [isFinite, bne_iff_ne] at h
  rw [isInfinite, beq_eq_false_iff_ne.2 h, Bool.false_and]

/-- The absolute value of a double is the ratio of its parts. -/
theorem abs_toRat (x : Double) : |x.toRat| = x.toRatio.1 / x.toRatio.2 := by
  have hsign : |((sign x.isNegative : Int) : ℚ)| = 1 := by
    cases x.isNegative <;> simp [sign]
  rw [toRat_eq_div, abs_mul, hsign, one_mul,
    abs_of_nonneg (div_nonneg (Nat.cast_nonneg _) (Nat.cast_nonneg _))]

theorem abs_toRat_mul_toRat (x y : Double) : |x.toRat * y.toRat| =
    (x.toRatio.1 * y.toRatio.1 : Nat) / (x.toRatio.2 * y.toRatio.2 : Nat) := by
  rw [abs_mul, abs_toRat, abs_toRat, div_mul_div_comm, Nat.cast_mul, Nat.cast_mul]

/-- **A product is finite if it is below the middle between the largest double and the next power of
two.** -/
theorem isFinite_mul_of_lt (h : |x.toRat * y.toRat| < (2 ^ 54 - 1) * 2 ^ 970) :
    (x.mul y).isFinite = true := by
  rw [abs_toRat_mul_toRat] at h
  exact isFinite_ofRatio_of_lt _ (Nat.mul_pos x.toRatio_snd_pos y.toRatio_snd_pos).ne' h

/-- A product from the next power of two on is infinite. -/
theorem isFinite_mul_of_le (h : 2 ^ 1024 ≤ |x.toRat * y.toRat|) : (x.mul y).isFinite = false := by
  rw [abs_toRat_mul_toRat] at h
  exact isFinite_ofRatio_of_le _ (Nat.mul_pos x.toRatio_snd_pos y.toRatio_snd_pos).ne' h

/-! ### Natural numbers -/

variable {n : Nat}

theorem ofNat_eq_ofInt (n : Nat) : ofNat n = ofInt n := by
  rw [ofNat, ofInt, Int.natAbs_natCast, decide_eq_false (by omega)]

/-- Rounding a natural number adds at most half a unit in the last place. -/
theorem toRat_ofNat_le (hsize : n.log2 < 1022) : |(ofNat n).toRat| ≤ n * (1 + 1 / 2 ^ 53) := by
  by_cases hn : n = 0
  · subst hn
    decide +kernel
  have hplace : (2 : ℚ) ^ ((n.log2 : Int) - 52) * 2 ^ 52 ≤ n := by
    calc
      (2 : ℚ) ^ ((n.log2 : Int) - 52) * 2 ^ 52
      _ = 2 ^ n.log2 := by
        rw [← zpow_natCast, ← zpow_natCast, ← zpow_add₀ two_ne_zero]
        congr 1
        omega
      _ ≤ n := by exact_mod_cast Nat.log2_self_le hn
  have hsignificand := (significand_spec n one_ne_zero ((n.log2 : Int) - 52)).1
  rw [Nat.cast_one, div_one] at hsignificand
  rw [ofNat_eq_ofInt, toRat_ofInt (n := n) (by omega) hsize, Int.natAbs_natCast,
    decide_eq_false (by omega), sign, if_neg Bool.false_ne_true, Int.cast_one, one_mul,
    abs_of_nonneg (by positivity)]
  generalize (roundHalfEven _ _ : ℚ) = s at hsignificand ⊢
  have hpos : (0 : ℚ) < 2 ^ ((n.log2 : Int) - 52) := by positivity
  generalize (2 : ℚ) ^ ((n.log2 : Int) - 52) = place at hsignificand hplace hpos ⊢
  calc
    s * place ≤ (n / place + 1 / 2) * place := by gcongr
    _ = n + place / 2 := by rw [add_mul, div_mul_cancel₀ _ hpos.ne']; ring
    _ ≤ n * (1 + 1 / 2 ^ 53) := by linarith

/-- Rounding does not take a number below a power of two. -/
theorem le_toRat_ofNat (hn : n ≠ 0) (hsize : n.log2 ≤ 1024) :
    2 ^ n.log2 ≤ |(ofNat n).toRat| := by
  have hratio := le_toRatio (le_exponentField_ofNat hn le_rfl hsize)
  have hden : (0 : ℚ) < (ofNat n).toRatio.2 := Nat.cast_pos.2 (toRatio_snd_pos _)
  rw [abs_toRat, le_div_iff₀ hden, mul_comm]
  exact_mod_cast hratio

/-- The product of the doubles nearest to two natural numbers is finite if their own product leaves
room for three roundings. -/
theorem isFinite_ofNat_mul_ofNat_of_lt {m n : Nat} (hm : m.log2 < 1022) (hn : n.log2 < 1022)
    (h : ((m * n : Nat) : ℚ) * (1 + 1 / 2 ^ 53) ^ 2 < (2 ^ 54 - 1) * 2 ^ 970) :
    ((ofNat m).mul (ofNat n)).isFinite = true := by
  refine isFinite_mul_of_lt (lt_of_le_of_lt ?_ h)
  calc
    |(ofNat m).toRat * (ofNat n).toRat|
    _ = |(ofNat m).toRat| * |(ofNat n).toRat| := abs_mul _ _
    _ ≤ m * (1 + 1 / 2 ^ 53) * (n * (1 + 1 / 2 ^ 53)) :=
      mul_le_mul (toRat_ofNat_le hm) (toRat_ofNat_le hn) (abs_nonneg _) (by positivity)
    _ = (m * n : Nat) * (1 + 1 / 2 ^ 53) ^ 2 := by
      rw [Nat.cast_mul]
      ring

/-- It is infinite if their own product is larger even without all bits but the first ones. -/
theorem isFinite_ofNat_mul_ofNat_of_le {m n : Nat} (hm : m.log2 ≤ 1024) (hn : n.log2 ≤ 1024)
    (h : 2 ^ 1025 ≤ m * n) : ((ofNat m).mul (ofNat n)).isFinite = false := by
  have hpos : 0 < m * n := lt_of_lt_of_le (Nat.two_pow_pos _) h
  have hm' : m ≠ 0 := (Nat.pos_of_mul_pos_right hpos).ne'
  have hn' : n ≠ 0 := (Nat.pos_of_mul_pos_left hpos).ne'
  have hlog : 1025 < m.log2 + 1 + (n.log2 + 1) := by
    rw [← Nat.pow_lt_pow_iff_right (a := 2) (by decide), Nat.pow_add]
    exact lt_of_le_of_lt h (Nat.mul_lt_mul'' Nat.lt_log2_self Nat.lt_log2_self)
  refine isFinite_mul_of_le ?_
  calc
    (2 : ℚ) ^ 1024
    _ ≤ 2 ^ (m.log2 + n.log2) := pow_le_pow_right₀ one_le_two (by omega)
    _ = 2 ^ m.log2 * 2 ^ n.log2 := pow_add _ _ _
    _ ≤ |(ofNat m).toRat| * |(ofNat n).toRat| :=
      mul_le_mul (le_toRat_ofNat hm' hm) (le_toRat_ofNat hn' hn) (by positivity) (abs_nonneg _)
    _ = |(ofNat m).toRat * (ofNat n).toRat| := (abs_mul _ _).symm

end Pipework.Double
