import Mathlib.Algebra.Order.Group.Int
import Mathlib.Algebra.Ring.Nat
import Pipework.Double.Basic

/-!
# Ratios that round to finite doubles

Rounding takes a ratio to a bit pattern in one step, and the pattern is that of an infinity when it
is too large. How large the exponent field becomes can be told from a bound on the ratio
(`exponentField_ofRatio_le`), and how large a ratio a double is from its exponent field
(`toRatio_le`, `le_toRatio`); together they bound a quotient (`exponentField_div_le`). The bounds
are off by a few bits, which does not matter: what is rounded in practice is either far from the
largest double, as the 64-bit integers are (`isFinite_ofInt`), or asked afterwards whether it is
infinite.
-/

namespace Pipework.Double

/-! ### Exponent fields -/

/-- Infinite and undefined doubles have the largest exponent field. -/
theorem isFinite_of_exponentField_le {x : Double} {k : Nat} (h : x.exponentField ≤ k)
    (hk : k < 2047) : x.isFinite = true := by
  rw [isFinite, bne_iff_ne]
  omega

/-- A magnitude that is too large becomes that of the infinity. -/
theorem toNat_bits_ofMagnitude (negative : Bool) (magnitude : Nat) :
    (ofMagnitude negative magnitude).bits.toNat =
      (if negative then 1 <<< 63 else 0) + min magnitude (2047 <<< 52) := by
  rw [ofMagnitude, UInt64.toNat_ofNat', Nat.mod_eq_of_lt]
  split <;> omega

/-- The exponent field is bounded by the magnitude. -/
theorem exponentField_ofMagnitude_le (negative : Bool) {magnitude k : Nat}
    (h : magnitude < (k + 1) <<< 52) (hk : k < 2047) :
    (ofMagnitude negative magnitude).exponentField ≤ k := by
  rw [exponentField, toNat_bits_ofMagnitude]
  split <;> omega

/-- The exponent field is as large as the magnitude makes it. -/
theorem le_exponentField_ofMagnitude (negative : Bool) {magnitude k : Nat}
    (h : k <<< 52 ≤ magnitude) (hk : k ≤ 2047) :
    k ≤ (ofMagnitude negative magnitude).exponentField := by
  rw [exponentField, toNat_bits_ofMagnitude]
  split <;> omega

/-- Rounding never ends in a NaN. -/
theorem isFinite_ofMagnitude {negative : Bool} {magnitude : Nat}
    (h : (ofMagnitude negative magnitude).isInfinite = false) :
    (ofMagnitude negative magnitude).isFinite = true := by
  rcases Nat.lt_or_ge magnitude (2047 <<< 52) with hlt | hge
  · exact isFinite_of_exponentField_le (exponentField_ofMagnitude_le negative hlt (by decide))
      (by decide)
  · rw [isInfinite, exponentField, fractionField, toNat_bits_ofMagnitude, Nat.min_eq_right hge] at h
    cases negative <;> cases h

/-- What is rounded from a ratio is never undefined. -/
theorem isFinite_ofRatio {negative : Bool} {num den : Nat}
    (h : (ofRatio negative num den).isInfinite = false) :
    (ofRatio negative num den).isFinite = true := by
  rw [ofRatio] at h ⊢
  split
  next hnum =>
    rw [if_pos hnum] at h
    exact isFinite_ofMagnitude h
  next hnum =>
    rw [if_neg hnum] at h
    exact isFinite_ofMagnitude h

/-- The sign does not matter. -/
theorem isFinite_neg (x : Double) : x.neg.isFinite = x.isFinite := by
  have hfield : x.neg.exponentField = x.exponentField := by
    rw [exponentField, exponentField, neg, UInt64.toNat_xor, Nat.shiftRight_xor_distrib,
      show 2048 = 2 ^ 11 by decide, Nat.xor_mod_two_pow]
    simp
  rw [isFinite, hfield, isFinite]

/-! ### Ratios -/

theorem roundHalfEven_le (num den : Nat) : roundHalfEven num den ≤ num / den + 1 := by
  rw [roundHalfEven]
  split
  · exact Nat.le_refl _
  · exact Nat.le_succ _

theorem le_roundHalfEven (num den : Nat) : num / den ≤ roundHalfEven num den := by
  rw [roundHalfEven]
  split
  · exact Nat.le_succ _
  · exact Nat.le_refl _

/-- A ratio, cut to its leading bits and rounded, has at most two bits more than a fraction. -/
theorem roundHalfEven_significand_le {num den : Nat} (hden : den ≠ 0) {q : Int}
    (hq : (num.log2 : Int) - den.log2 - 53 ≤ q) :
    roundHalfEven (num <<< (-q).toNat) (den <<< q.toNat) ≤ 1 <<< 54 := by
  refine (roundHalfEven_le _ _).trans (Nat.succ_le_of_lt ?_)
  rw [Nat.shiftLeft_eq, Nat.shiftLeft_eq, Nat.one_shiftLeft,
    Nat.div_lt_iff_lt_mul (Nat.mul_pos (Nat.pos_of_ne_zero hden) (Nat.two_pow_pos _))]
  calc
    num * 2 ^ (-q).toNat
    _ < 2 ^ (num.log2 + 1) * 2 ^ (-q).toNat :=
      Nat.mul_lt_mul_of_pos_right Nat.lt_log2_self (Nat.two_pow_pos _)
    _ ≤ 2 ^ 54 * (2 ^ den.log2 * 2 ^ q.toNat) := by
      rw [← Nat.pow_add, ← Nat.pow_add, ← Nat.pow_add]
      exact Nat.pow_le_pow_right (by decide) (by omega)
    _ ≤ 2 ^ 54 * (den * 2 ^ q.toNat) :=
      Nat.mul_le_mul_left _ (Nat.mul_le_mul_right _ (Nat.log2_self_le hden))

/-- **A ratio below a power of two rounds to a double with a bounded exponent field.** -/
theorem exponentField_ofRatio_le (negative : Bool) {num den k : Nat} (hden : den ≠ 0)
    (h : num ≤ den * 2 ^ k) (hk : k < 960) :
    (ofRatio negative num den).exponentField ≤ k + 1078 := by
  rw [ofRatio]
  split
  · exact exponentField_ofMagnitude_le negative (by omega) (by omega)
  next hnum =>
    have hlog : num.log2 < den.log2 + 1 + k := by
      rw [Nat.log2_lt hnum, Nat.pow_add]
      exact h.trans_lt (Nat.mul_lt_mul_of_pos_right Nat.lt_log2_self (Nat.two_pow_pos _))
    have hfloor : floorLog2 num den = num.log2 - den.log2 ∨
        floorLog2 num den = num.log2 - den.log2 - 1 := by
      simp only [floorLog2]
      split <;> simp
    generalize hq : max (floorLog2 num den - 52) (-1074) = q
    have hsignificand : roundHalfEven (num <<< (-q).toNat) (den <<< q.toNat) ≤ 1 <<< 54 :=
      roundHalfEven_significand_le hden (by omega)
    have hexponent : (q + 1074).toNat ≤ k + 1074 := by omega
    exact exponentField_ofMagnitude_le negative (by omega) (by omega)

/-- A double is at most as large as its exponent field allows. -/
theorem toRatio_le {x : Double} {k : Nat} (h : x.exponentField ≤ k + 1022) (hk : 53 ≤ k) :
    x.toRatio.1 ≤ x.toRatio.2 * 2 ^ k := by
  have hfraction : x.fractionField < 2 ^ 52 := Nat.mod_lt _ (by decide)
  have hsignificand : x.significand < 2 ^ 53 := by
    rw [significand]
    split <;> omega
  have hexponent : x.exponent.toNat ≤ k - 53 := by
    rw [exponent]
    omega
  rw [toRatio, Nat.shiftLeft_eq, Nat.shiftLeft_eq, Nat.one_mul]
  calc
    x.significand * 2 ^ x.exponent.toNat
    _ ≤ 2 ^ 53 * 2 ^ (k - 53) :=
      Nat.mul_le_mul hsignificand.le (Nat.pow_le_pow_right (by decide) hexponent)
    _ = 2 ^ k := by rw [← Nat.pow_add, Nat.add_sub_cancel' hk]
    _ ≤ 2 ^ (-x.exponent).toNat * 2 ^ k := Nat.le_mul_of_pos_left _ (Nat.two_pow_pos _)

/-- A double is at least as large as its exponent field requires. -/
theorem le_toRatio {x : Double} {k : Nat} (h : k + 1023 ≤ x.exponentField) :
    x.toRatio.2 * 2 ^ k ≤ x.toRatio.1 := by
  have hsignificand : 2 ^ 52 ≤ x.significand := by
    rw [significand, if_neg (by omega)]
    omega
  rw [toRatio, Nat.shiftLeft_eq, Nat.shiftLeft_eq, Nat.one_mul, ← Nat.pow_add]
  calc
    2 ^ ((-x.exponent).toNat + k)
    _ ≤ 2 ^ (52 + x.exponent.toNat) := by
      refine Nat.pow_le_pow_right (by decide) ?_
      rw [exponent]
      omega
    _ = 2 ^ 52 * 2 ^ x.exponent.toNat := Nat.pow_add _ _ _
    _ ≤ x.significand * 2 ^ x.exponent.toNat := Nat.mul_le_mul_right _ hsignificand

theorem toRatio_snd_pos (x : Double) : 0 < x.toRatio.2 := by
  rw [toRatio, Nat.one_shiftLeft]
  exact Nat.two_pow_pos _

/-- **A quotient has a bounded exponent field**, the smaller the larger the divisor is. -/
theorem exponentField_div_le {x y : Double} (i j : Nat) (hx : x.exponentField ≤ i + j + 1022)
    (hy : j + 1023 ≤ y.exponentField) (hlow : 53 ≤ i + j) (hhigh : i < 960) :
    (x.div y).exponentField ≤ i + 1078 := by
  have hlarge := le_toRatio hy
  have hnonzero : 0 < y.toRatio.1 :=
    (Nat.mul_pos y.toRatio_snd_pos (Nat.two_pow_pos j)).trans_le hlarge
  refine exponentField_ofRatio_le _ (Nat.mul_pos x.toRatio_snd_pos hnonzero).ne' ?_ hhigh
  calc
    x.toRatio.1 * y.toRatio.2
    _ ≤ x.toRatio.2 * 2 ^ (i + j) * y.toRatio.2 := Nat.mul_le_mul_right _ (toRatio_le hx hlow)
    _ = x.toRatio.2 * (y.toRatio.2 * 2 ^ j) * 2 ^ i := by rw [Nat.pow_add]; ac_rfl
    _ ≤ x.toRatio.2 * y.toRatio.1 * 2 ^ i := Nat.mul_le_mul_right _ (Nat.mul_le_mul_left _ hlarge)

/-! ### Integers -/

/-- The exponent field of a rounded 64-bit integer is far below the largest one. -/
theorem exponentField_ofRatio_one_le (negative : Bool) {n : Nat} (h : n ≤ UInt64.size) :
    (ofRatio negative n 1).exponentField ≤ 1142 :=
  exponentField_ofRatio_le (k := 64) negative (by decide) (by rwa [Nat.one_mul]) (by decide)

theorem floorLog2_one {n : Nat} (h : n ≠ 0) : floorLog2 n 1 = n.log2 := by
  rw [floorLog2, show Nat.log2 1 = 0 by decide, Int.natCast_zero, Int.sub_zero, if_pos]
  simpa [Nat.shiftLeft_eq] using Nat.log2_self_le h

/-- A natural number, cut to its leading bits and rounded, fills a significand. -/
theorem le_roundHalfEven_significand {n : Nat} (hn : n ≠ 0) :
    1 <<< 52 ≤ roundHalfEven (n <<< (-((n.log2 : Int) - 52)).toNat)
      (1 <<< ((n.log2 : Int) - 52).toNat) := by
  refine le_trans ?_ (le_roundHalfEven _ _)
  rw [Nat.one_shiftLeft, Nat.one_shiftLeft, Nat.shiftLeft_eq,
    Nat.le_div_iff_mul_le (Nat.two_pow_pos _), ← Nat.pow_add]
  calc
    2 ^ (52 + ((n.log2 : Int) - 52).toNat)
    _ = 2 ^ n.log2 * 2 ^ (-((n.log2 : Int) - 52)).toNat := by
      rw [← Nat.pow_add]
      congr 1
      omega
    _ ≤ n * 2 ^ (-((n.log2 : Int) - 52)).toNat :=
      Nat.mul_le_mul_right _ (Nat.log2_self_le hn)

/-- **A natural number above a power of two rounds to a double with a bounded exponent field.** -/
theorem le_exponentField_ofNat {n k : Nat} (hn : n ≠ 0) (hlog : k ≤ n.log2) (hk : k ≤ 1024) :
    k + 1023 ≤ (ofNat n).exponentField := by
  have hsignificand := le_roundHalfEven_significand hn
  rw [ofNat, ofRatio, if_neg hn, floorLog2_one hn,
    show max ((n.log2 : Int) - 52) (-1074) = n.log2 - 52 by omega]
  exact le_exponentField_ofMagnitude false (by omega) (by omega)

/-- **Integers of 64 bits are rounded to finite doubles.** -/
theorem isFinite_ofInt_of_natAbs_le {n : Int} (h : n.natAbs ≤ UInt64.size) :
    (ofInt n).isFinite = true :=
  isFinite_of_exponentField_le (exponentField_ofRatio_one_le _ h) (by decide)

/-- **The double nearest to a 64-bit integer is finite.** -/
theorem isFinite_ofInt (n : Int64) : (ofInt n.toInt).isFinite = true := by
  refine isFinite_ofInt_of_natAbs_le ?_
  have hlower := Int64.le_toInt n
  have hupper := Int64.toInt_lt n
  rw [show UInt64.size = 2 ^ 64 by decide]
  omega

end Pipework.Double
