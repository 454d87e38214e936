import Mathlib.Data.Rat.Cast.Order
import Mathlib.Tactic.NormNum
import Mathlib.Tactic.Ring
import Pipework.Proofs.Double.Finite

/-!
# Integers that are doubles

A finite double is a rational number, its significand times a power of two (`toRat`). Rounding an
integer keeps fifty-three of its bits: the nearest double is a multiple of the place of the last one
(`exists_toRat_ofInt`), and it is the integer itself exactly if that is one. Such integers are those
that are at most `2 ^ 53` times a power of two (`dvd_natAbs_iff`). A carry out of the significand
needs no case of its own, since `2 ^ 53` last places are as good a significand as any below
(`toRat_ofMagnitude`).

The integer part of the nearest double is the integer again under the same condition
(`truncate_ofInt_eq_iff`), because the double nearest to an integer is always an integer.
-/

namespace Pipework.Double

/-! ### Doubles as rational numbers -/

/-- One, with the given sign. -/
def sign (negative : Bool) : Int :=
  if negative then -1 else 1

/-- The number that a finite double is. -/
def toRat (x : Double) : ℚ :=
  sign x.isNegative * (x.significand * 2 ^ x.exponent)

/-- A power of two as a ratio of whole powers, whichever sign the exponent has. -/
theorem two_zpow_eq_div (e : Int) : (2 : ℚ) ^ e = 2 ^ e.toNat / 2 ^ (-e).toNat := by
  rw [← zpow_natCast, ← zpow_natCast, ← zpow_sub₀ two_ne_zero]
  congr 1
  omega

/-- The value of a double is the ratio of its parts, with the sign. -/
theorem toRat_eq_div (x : Double) :
    x.toRat = sign x.isNegative * ((x.toRatio.1 : ℚ) / x.toRatio.2) := by
  rw [toRat, two_zpow_eq_div, toRatio, Nat.shiftLeft_eq, Nat.shiftLeft_eq, Nat.one_mul,
    mul_div_assoc']
  push_cast
  rfl

theorem sign_mul_self (negative : Bool) : sign negative * sign negative = 1 := by
  cases negative <;> rfl

theorem natAbs_sign (negative : Bool) : (sign negative).natAbs = 1 := by
  cases negative <;> rfl

/-- Truncation divides the parts of the ratio. -/
theorem truncate_eq_sign_mul (x : Double) :
    x.truncate = sign x.isNegative * (x.toRatio.1 / x.toRatio.2 : Nat) := by
  rw [truncate, sign]
  simp only
  split
  · rw [neg_one_mul]
  · rw [one_mul]

/-- The integer part of an integer is the integer. -/
theorem truncate_eq_of_toRat {x : Double} {n : Int} (h : x.toRat = n) : x.truncate = n := by
  have hden := x.toRatio_snd_pos.ne'
  have hnum : (x.toRatio.1 : Int) = sign x.isNegative * n * x.toRatio.2 := by
    have hratio : (x.toRatio.1 : ℚ) / x.toRatio.2 = (sign x.isNegative * n : Int) := by
      rw [Int.cast_mul, ← h, toRat_eq_div, ← mul_assoc, ← Int.cast_mul, sign_mul_self, Int.cast_one,
        one_mul]
    rw [div_eq_iff (Nat.cast_ne_zero.2 hden)] at hratio
    exact_mod_cast hratio
  rw [truncate_eq_sign_mul, Int.natCast_div, hnum,
    Int.mul_ediv_cancel _ (Int.natCast_ne_zero.2 hden), ← mul_assoc, sign_mul_self, one_mul]

/-! ### Rounding to fifty-three bits -/

/-- The fields of a bit pattern can be read off, as long as it is no infinity. -/
theorem fields_ofMagnitude (negative : Bool) {e f : Nat} (he : e < 2047) (hf : f < 1 <<< 52) :
    (ofMagnitude negative (e <<< 52 + f)).isNegative = negative ∧
      (ofMagnitude negative (e <<< 52 + f)).exponentField = e ∧
      (ofMagnitude negative (e <<< 52 + f)).fractionField = f := by
  rw [isNegative, exponentField, fractionField, toNat_bits_ofMagnitude,
    show 1 <<< 52 = 4503599627370496 from rfl]
  cases negative with
  | false =>
    rw [if_neg Bool.false_ne_true]
    exact ⟨decide_eq_false (by omega), by omega, by omega⟩
  | true =>
    rw [if_pos rfl]
    exact ⟨decide_eq_true (by omega), by omega, by omega⟩

/-- **The number put together from a significand and the place of its last bit.** -/
theorem toRat_ofMagnitude (negative : Bool) {q : Int} {s : Nat} (hq : -1074 ≤ q) (hq' : q < 970)
    (hs : 1 <<< 52 ≤ s) (hs' : s ≤ 2 * 1 <<< 52) :
    (ofMagnitude negative ((q + 1074).toNat <<< 52 + s)).toRat = sign negative * (s * 2 ^ q) := by
  rcases Nat.lt_or_ge s (2 * 1 <<< 52) with hlt | hge
  · obtain ⟨hsign, hexponent, hfraction⟩ := fields_ofMagnitude negative
      (e := (q + 1075).toNat) (f := s - 1 <<< 52) (by omega) (by omega)
    rw [show (q + 1074).toNat <<< 52 + s = (q + 1075).toNat <<< 52 + (s - 1 <<< 52) by omega,
      toRat, hsign, significand, exponent, hexponent, hfraction, if_neg (by omega),
      Nat.add_sub_cancel' hs, show ((max (q + 1075).toNat 1 : Nat) : Int) - 1075 = q by omega]
  · -- The carry goes into the exponent field and leaves no fraction behind.
    obtain ⟨hsign, hexponent, hfraction⟩ := fields_ofMagnitude negative
      (e := (q + 1076).toNat) (f := 0) (by omega) (by decide)
    obtain rfl : s = 2 * 1 <<< 52 := Nat.le_antisymm hs' hge
    rw [show (q + 1074).toNat <<< 52 + 2 * 1 <<< 52 = (q + 1076).toNat <<< 52 + 0 by omega,
      toRat, hsign, significand, exponent, hexponent, hfraction, if_neg (by omega), Nat.add_zero,
      show ((max (q + 1076).toNat 1 : Nat) : Int) - 1075 = q + 1 by omega,
      zpow_add_one₀ two_ne_zero, Nat.cast_mul]
    ring

/-- A natural number, cut to its leading bits and rounded, overflows a significand by one at
most. -/
theorem roundHalfEven_significand_le_two {n : Nat} :
    roundHalfEven (n <<< (-((n.log2 : Int) - 52)).toNat) (1 <<< ((n.log2 : Int) - 52).toNat) ≤
      2 * 1 <<< 52 := by
  refine (roundHalfEven_le _ _).trans (Nat.succ_le_of_lt ?_)
  rw [Nat.one_shiftLeft, Nat.one_shiftLeft, Nat.shiftLeft_eq,
    Nat.div_lt_iff_lt_mul (Nat.two_pow_pos _)]
  calc
    n * 2 ^ (-((n.log2 : Int) - 52)).toNat
    _ < 2 ^ (n.log2 + 1) * 2 ^ (-((n.log2 : Int) - 52)).toNat :=
      Nat.mul_lt_mul_of_pos_right Nat.lt_log2_self (Nat.two_pow_pos _)
    _ = 2 * 2 ^ 52 * 2 ^ ((n.log2 : Int) - 52).toNat := by
      rw [← Nat.pow_add, ← Nat.pow_succ', ← Nat.pow_add]
      congr 1
      omega

/-! ### Integers -/

variable {n : Int}

/-- The double nearest to an integer other than zero. -/
theorem toRat_ofInt (hn : n ≠ 0) (hsize : n.natAbs.log2 < 1022) :
    (ofInt n).toRat = sign (n < 0) *
      (roundHalfEven (n.natAbs <<< (-((n.natAbs.log2 : Int) - 52)).toNat)
        (1 <<< ((n.natAbs.log2 : Int) - 52).toNat) * 2 ^ ((n.natAbs.log2 : Int) - 52)) := by
  have hn' : n.natAbs ≠ 0 := Int.natAbs_ne_zero.2 hn
  rw [ofInt, ofRatio, if_neg hn', floorLog2_one hn',
    show max ((n.natAbs.log2 : Int) - 52) (-1074) = n.natAbs.log2 - 52 by omega]
  exact toRat_ofMagnitude _ (by omega) (by omega) (le_roundHalfEven_significand hn')
    roundHalfEven_significand_le_two

theorem sign_mul_natAbs (n : Int) : sign (n < 0) * n.natAbs = n := by
  rw [sign]
  split
  next h =>
    rw [decide_eq_true_eq] at h
    omega
  next h =>
    rw [decide_eq_true_eq] at h
    omega

/-- An integer of at most fifty-three bits is a double. -/
theorem toRat_ofInt_of_log2_le (h : n.natAbs.log2 ≤ 52) : (ofInt n).toRat = n := by
  by_cases hn : n = 0
  · subst hn
    decide +kernel
  have hround (k : Nat) : roundHalfEven k 1 = k := by
    simp [roundHalfEven, Nat.mod_one]
  rw [toRat_ofInt hn (by omega),
    show (-((n.natAbs.log2 : Int) - 52)).toNat = 52 - n.natAbs.log2 by omega,
    show ((n.natAbs.log2 : Int) - 52).toNat = 0 by omega, Nat.shiftLeft_zero, hround,
    show (n.natAbs.log2 : Int) - 52 = -((52 - n.natAbs.log2 : Nat) : Int) by omega, zpow_neg,
    zpow_natCast, Nat.shiftLeft_eq, Nat.cast_mul, Nat.cast_pow, Nat.cast_ofNat,
    mul_inv_cancel_right₀ (pow_ne_zero _ two_ne_zero)]
  rw [← Int.cast_natCast, ← Int.cast_mul, sign_mul_natAbs]

/-- A larger integer is rounded to a multiple of the place of the last bit that is kept. -/
theorem toRat_ofInt_of_le_log2 (h : 52 ≤ n.natAbs.log2) (hsize : n.natAbs.log2 < 1022) :
    (ofInt n).toRat = (sign (n < 0) * (roundHalfEven n.natAbs (2 ^ (n.natAbs.log2 - 52)) *
      2 ^ (n.natAbs.log2 - 52) : Nat) : Int) := by
  have hn : n ≠ 0 := by
    rintro rfl
    exact absurd h (by decide)
  rw [toRat_ofInt hn hsize, show (-((n.natAbs.log2 : Int) - 52)).toNat = 0 by omega,
    show ((n.natAbs.log2 : Int) - 52).toNat = n.natAbs.log2 - 52 by omega, Nat.shiftLeft_zero,
    Nat.one_shiftLeft, show (n.natAbs.log2 : Int) - 52 = (n.natAbs.log2 - 52 : Nat) by omega,
    zpow_natCast]
  push_cast
  rfl

/-- Rounding a ratio is exact if it is an integer. -/
theorem roundHalfEven_mul_eq_iff (num : Nat) {den : Nat} (hden : den ≠ 0) :
    roundHalfEven num den * den = num ↔ den ∣ num := by
  refine ⟨fun h ↦ ⟨_, by rw [Nat.mul_comm, h]⟩, fun h ↦ ?_⟩
  have hremainder : num % den = 0 := Nat.mod_eq_zero_of_dvd h
  rw [roundHalfEven]
  simp only [hremainder, Nat.mul_zero]
  rw [if_neg (by omega), Nat.div_mul_cancel h]

/-- **The double nearest to an integer is an integer**, and the same one exactly if that is a
multiple of the place of the last bit that is kept. -/
theorem exists_toRat_ofInt (hsize : n.natAbs.log2 < 1022) :
    ∃ z : Int, (ofInt n).toRat = z ∧ (z = n ↔ 2 ^ (n.natAbs.log2 - 52) ∣ n.natAbs) := by
  rcases Nat.le_total n.natAbs.log2 52 with h | h
  · refine ⟨n, toRat_ofInt_of_log2_le h, iff_of_true rfl ?_⟩
    rw [Nat.sub_eq_zero_of_le h, pow_zero]
    exact one_dvd _
  · refine ⟨_, toRat_ofInt_of_le_log2 h hsize, ?_⟩
    rw [← roundHalfEven_mul_eq_iff _ (pow_ne_zero _ two_ne_zero)]
    generalize roundHalfEven n.natAbs _ * _ = m
    constructor
    · intro heq
      rw [← heq, Int.natAbs_mul, natAbs_sign, one_mul, Int.natAbs_natCast]
    · rintro rfl
      exact sign_mul_natAbs n

/-- The multiples of the place of an integer's fifty-third bit, without speaking of bits. -/
theorem dvd_natAbs_iff :
    2 ^ (n.natAbs.log2 - 52) ∣ n.natAbs ↔
      ∃ (m : Int) (k : Nat), n = m * 2 ^ k ∧ m.natAbs ≤ 2 ^ 53 := by
  generalize he : n.natAbs.log2 - 52 = e
  constructor
  · intro h
    obtain ⟨m, rfl⟩ := Int.natCast_dvd.2 h
    refine ⟨m, e, by rw [mul_comm, Int.natCast_pow, Int.cast_ofNat_Int], Nat.le_of_lt ?_⟩
    rw [Int.natAbs_mul, Int.natAbs_natCast] at he
    refine Nat.lt_of_mul_lt_mul_left (a := 2 ^ e) (Nat.lt_log2_self.trans_le ?_)
    rw [← Nat.pow_add]
    exact Nat.pow_le_pow_right two_pos (by omega)
  · rintro ⟨m, k, rfl, hm⟩
    rw [Int.natAbs_mul, Int.natAbs_pow, show Int.natAbs 2 = 2 from rfl] at he ⊢
    rcases Nat.lt_or_ge k e with hlt | hle
    · -- All fifty-three bits of `m` stand before the last one kept, so `m` is `2 ^ 53`.
      have hpos : m.natAbs * 2 ^ k ≠ 0 := by
        intro hzero
        rw [hzero, Nat.log2_zero] at he
        omega
      have hge : 2 ^ 53 ≤ m.natAbs := by
        refine Nat.le_of_mul_le_mul_right (c := 2 ^ k) ?_ (Nat.two_pow_pos k)
        rw [← Nat.pow_add]
        exact (Nat.pow_le_pow_right two_pos (by omega)).trans (Nat.log2_self_le hpos)
      rw [Nat.le_antisymm hm hge, ← Nat.pow_add] at he ⊢
      rw [Nat.log2_two_pow] at he
      exact Nat.pow_dvd_pow 2 (by omega)
    · exact Dvd.dvd.mul_left (Nat.pow_dvd_pow 2 hle) _

/-- **The integers that are doubles**: at most `2 ^ 53`, times a power of two. -/
theorem toRat_ofInt_eq_iff (hsize : n.natAbs.log2 < 1022) :
    (ofInt n).toRat = n ↔ ∃ (m : Int) (k : Nat), n = m * 2 ^ k ∧ m.natAbs ≤ 2 ^ 53 := by
  obtain ⟨z, hz, hiff⟩ := exists_toRat_ofInt hsize
  rw [hz, Int.cast_inj, hiff, dvd_natAbs_iff]

/-- No other integer is rounded to a double with that integer part. -/
theorem truncate_ofInt_eq_iff (hsize : n.natAbs.log2 < 1022) :
    (ofInt n).truncate = n ↔ (ofInt n).toRat = n := by
  obtain ⟨z, hz, -⟩ := exists_toRat_ofInt hsize
  rw [truncate_eq_of_toRat hz, hz, Int.cast_inj]

end Pipework.Double
