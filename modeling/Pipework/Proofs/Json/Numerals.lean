import Pipework.Proofs.Json.Reading

/-!
# The texts of numbers

What is written for an integer or a finite double is a number of the grammar. For integers the value
that is read back is the integer itself, as long as it fits a word (`value?_ofInt`). For doubles the
grammar asks that no zero stands in front of other digits, which holds because the digits that are
chosen for a double do not denote zero unless the double does (`shortest_eq_or_digits_ne_zero`). The
text of a double always has a fraction or an exponent, hence it is never read as an integer
(`value?_ofDouble_ne_int`); whether it is read back as the same double is another question, since
the reader rounds more than once.
-/

namespace Pipework

/-! ### Digits of doubles -/

namespace Decimal

/-- A decimal that can be written: zero is written in one way only. -/
def Writable (d : Decimal) : Prop :=
  d = ⟨0, 0⟩ ∨ d.digits ≠ 0

/-- Taking off zeros leaves digits that can be written. -/
theorem Writable.strip {d : Decimal} (h : d.Writable) (fuel : Nat) : (strip fuel d).Writable := by
  induction fuel generalizing d with
  | zero => exact h
  | succ fuel ih =>
    rw [Decimal.strip]
    split
    next hten => exact ih (.inr (by show d.digits / 10 ≠ 0; omega))
    next => exact h

end Decimal

namespace Double

theorem tenPow_pos (e : Int) : 0 < tenPow e :=
  Nat.pow_pos (by decide)

theorem significand_ne_zero {x : Double} (h : x.isZero = false) : x.significand ≠ 0 := by
  rw [significand]
  split
  next hexponent => simpa [isZero, hexponent] using h
  next => omega

/-- The numbers that round to a positive double are positive. -/
theorem low_neighbourhood_pos {x : Double} (h : x.isZero = false) : 0 < x.neighbourhood.low := by
  have hm := significand_ne_zero h
  rw [neighbourhood]
  simp only [Nat.shiftLeft_eq]
  refine Nat.mul_pos ?_ (Nat.two_pow_pos _)
  split <;> omega

namespace Neighbourhood

/-- Zero is not among them. -/
theorem contains_zero {v : Neighbourhood} (h : 0 < v.low) (e : Int) : v.contains 0 e = false := by
  have hlow : 0 < v.low * tenPow (-e) := Nat.mul_pos h (tenPow_pos _)
  rw [contains]
  simp only [Nat.zero_mul]
  split
  · simp [Nat.not_le.2 hlow]
  · simp

/-- The nearest number of some length is taken only if it rounds to the double. -/
theorem contains_of_nearest? {v : Neighbourhood} {e : Int} {k : Nat} (h : v.nearest? e = some k) :
    v.contains k e = true := by
  rw [nearest?] at h
  split at h
  next => cases h
  next hk _ =>
    cases h
    exact hk
  next hk =>
    cases h
    exact hk
  next hk hk' =>
    cases h
    split
    · exact hk
    · exact hk'

/-- What the search for the shortest digits finds can be written, since nothing that rounds to the
double is zero. -/
theorem writable_shortestFrom {v : Neighbourhood} (h : 0 < v.low) (top : Int) (fuel places : Nat) :
    (v.shortestFrom top fuel places).Writable := by
  induction fuel generalizing places with
  | zero => exact .inl rfl
  | succ fuel ih =>
    rw [shortestFrom]
    split
    next k hk =>
      -- Zero is outside the neighbourhood of a double that is not zero.
      refine .inr ?_
      rintro rfl
      exact absurd (contains_of_nearest? hk) (by rw [contains_zero h]; exact Bool.false_ne_true)
    next => exact ih _

end Neighbourhood

/-- **The shortest digits of a double can be written.** -/
theorem writable_shortest (x : Double) : x.shortest.Writable := by
  rw [shortest]
  split
  next => exact .inl rfl
  next h =>
    have hlow := low_neighbourhood_pos (Bool.not_eq_true _ ▸ h)
    exact (Neighbourhood.writable_shortestFrom hlow _ 17 1).strip 20

end Double

namespace Json

/-! ### Digits -/

theorem areDigits_toDigits (n : Nat) : AreDigits (Nat.toDigits 10 n) := by
  refine ⟨Nat.toDigits_ne_nil, fun c hc ↦ ?_⟩
  have hdigit := Nat.isDigit_of_mem_toDigits (by decide) (by decide) hc
  exact hdigit

/-- A number other than zero does not start with the digit zero. -/
theorem head?_toDigits_ne {n : Nat} (h : n ≠ 0) : (Nat.toDigits 10 n).head? ≠ some '0' := by
  induction n using Nat.strongRecOn with
  | ind n ih =>
    by_cases hn : n < 10
    · rw [Nat.toDigits_of_lt_base hn]
      simpa [Nat.digitChar_eq_zero] using h
    · rw [Nat.toDigits_of_base_le (by decide) (Nat.not_lt.1 hn), List.head?_append_of_ne_nil _
        Nat.toDigits_ne_nil]
      exact ih (n / 10) (by omega) (by omega)

theorem isWhole_of_head?_ne {s : List Char} (h : AreDigits s) (hhead : s.head? ≠ some '0') :
    IsWhole s :=
  ⟨h, fun h ↦ absurd h hhead⟩

/-- The digits of a number are a whole part. -/
theorem isWhole_toDigits (n : Nat) : IsWhole (Nat.toDigits 10 n) := by
  by_cases h : n = 0
  · subst h
    exact ⟨areDigits_toDigits 0, fun _ ↦ rfl⟩
  · exact isWhole_of_head?_ne (areDigits_toDigits n) (head?_toDigits_ne h)

/-! ### Integers -/

/-- The spelling of an integer. -/
def NumberSpelling.ofInt (n : Int) : NumberSpelling where
  negative := decide (n < 0)
  whole := Nat.toDigits 10 n.natAbs
  fraction := []
  exponent := []
  isWhole := isWhole_toDigits _
  isFraction := .inl rfl
  isExponent := .inl rfl

/-- An integer is written in its own spelling. -/
theorem chars_ofInt (n : Int) : (NumberSpelling.ofInt n).chars = intText n := by
  by_cases h : n < 0
  · simp [NumberSpelling.chars, NumberSpelling.ofInt, NumberSpelling.unsigned, intText, h]
  · simp [NumberSpelling.chars, NumberSpelling.ofInt, NumberSpelling.unsigned, intText, h]

/-- Digits are gathered to the end if the number that they denote fits a word. -/
theorem gather_eq {ds : List Nat} {s : Nat}
    (h : ds.foldl (fun n d ↦ 10 * n + d) s < UInt64.size) :
    gather s ds = (ds.foldl (fun n d ↦ 10 * n + d) s, ds.length) := by
  have hmono (ds : List Nat) (s : Nat) : s ≤ ds.foldl (fun n d ↦ 10 * n + d) s := by
    induction ds generalizing s with
    | nil => exact Nat.le_refl s
    | cons d ds ih => exact Nat.le_trans (by omega) (ih (10 * s + d))
  induction ds generalizing s with
  | nil => rfl
  | cons d ds ih =>
    rw [List.foldl_cons] at h ⊢
    have hfits : ¬ UInt64.size ≤ s * 10 + d := by
      have hle := hmono ds (10 * s + d)
      omega
    rw [gather, if_neg hfits, Nat.mul_comm s 10, ih h]
    rfl

/-- The digits of a number add up to it. -/
theorem foldl_digitValue_toDigits (n : Nat) :
    ((Nat.toDigits 10 n).map digitValue).foldl (fun n d ↦ 10 * n + d) 0 = n := by
  rw [List.foldl_map]
  exact Nat.ofDigitChars_toDigits (by decide) (by decide)

/-- **An integer that fits a word is read back.** -/
theorem value?_ofInt {n : Int} (h : fitsWord n = true) :
    (NumberSpelling.ofInt n).value? = some (.int n) := by
  obtain ⟨hlower, hupper⟩ : -2 ^ 63 ≤ n ∧ n < 2 ^ 64 := by
    simpa [fitsWord] using h
  have hvalue := foldl_digitValue_toDigits n.natAbs
  have hsize : ((Nat.toDigits 10 n.natAbs).map digitValue).foldl (fun n d ↦ 10 * n + d) 0 <
      UInt64.size := by
    rw [hvalue]
    show n.natAbs < 2 ^ 64
    omega
  have hgather := gather_eq hsize
  rw [hvalue] at hgather
  rw [NumberSpelling.value?, NumberText.value]
  simp only [NumberSpelling.text, NumberSpelling.ofInt, hgather, List.drop_nil, List.map_nil,
    List.isEmpty_nil, exponentValue, Option.isNone_none, and_self, if_true, Nat.sub_self]
  by_cases hneg : n < 0
  · have hrange : ¬ (n.natAbs = 0 ∨ -(n.natAbs : Int) < Int64.minValue.toInt) := by
      rw [show Int64.minValue.toInt = -2 ^ 63 by decide]
      omega
    simp only [hneg, decide_true, hrange, ne_eq, not_true_eq_false, if_false, Bool.not_true,
      Bool.false_eq_true, Except.toOption, Option.some.injEq, Number.int.injEq]
    omega
  · simp only [hneg, decide_false, ne_eq, not_true_eq_false, if_false, Bool.not_false, if_true,
      Except.toOption, Option.some.injEq, Number.int.injEq]
    omega

/-! ### Doubles -/

theorem areDigits_append {ds es : List Char} (hds : AreDigits ds)
    (hes : ∀ c ∈ es, isDigit c = true) :
    AreDigits (ds ++ es) :=
  ⟨by simp [hds.1], fun c hc ↦ (List.mem_append.1 hc).elim (hds.2 c) (hes c)⟩

theorem isDigit_of_mem_zeros {n : Nat} {c : Char} (h : c ∈ zeros n) : isDigit c = true := by
  rw [List.eq_of_mem_replicate h]
  decide

theorem areDigits_drop {ds : List Char} (h : AreDigits ds) {n : Nat} (hn : n < ds.length) :
    AreDigits (ds.drop n) :=
  ⟨by simpa using hn, fun c hc ↦ h.2 c (List.mem_of_mem_drop hc)⟩

/-- The digits before the point are a whole part, since there is no leading zero. -/
theorem isWhole_take {d : Decimal} (h : d.digits ≠ 0) {n : Nat} (hn : 0 < n) :
    IsWhole (d.digitChars.take n) := by
  have hdigits := areDigits_toDigits d.digits
  refine isWhole_of_head?_ne ⟨?_, fun c hc ↦ hdigits.2 c (List.mem_of_mem_take hc)⟩ ?_
  · simpa [Decimal.digitChars, hdigits.1] using Nat.ne_of_gt hn
  · rw [List.head?_take, if_neg (Nat.ne_of_gt hn)]
    exact head?_toDigits_ne h

/-- The parts of a number obey the grammar, and one of the last two is there. -/
structure Numeral.WellFormed (n : Numeral) : Prop where
  isWhole : IsWhole n.whole
  isFraction : IsFraction n.fraction
  isExponent : IsExponent n.exponent
  not_int : n.fraction ≠ [] ∨ n.exponent ≠ []

/-- **Digits with a point in or after them are well formed.** -/
theorem wellFormed_positional {d : Decimal} (h : d.Writable) : (positional d).WellFormed := by
  have hdigits : AreDigits d.digitChars := areDigits_toDigits d.digits
  have hpos : 0 < d.digitChars.length := List.length_pos_iff.2 hdigits.1
  rw [positional]
  simp only
  split
  next he =>
    have hfraction : AreDigits (zeros (-d.scientificExponent - 1).toNat ++ d.digitChars) :=
      ⟨by simp [hdigits.1], fun c hc ↦
        (List.mem_append.1 hc).elim isDigit_of_mem_zeros (hdigits.2 c)⟩
    exact ⟨isWhole_toDigits 0, .inr ⟨_, hfraction, rfl⟩, .inl rfl, .inl (by simp)⟩
  next he =>
    split
    next hlength =>
      refine ⟨?_, .inr ⟨['0'], areDigits_toDigits 0, rfl⟩, .inl rfl, .inl (by simp)⟩
      rcases h with rfl | h
      · exact isWhole_toDigits 0
      · refine isWhole_of_head?_ne (areDigits_append hdigits fun _ ↦ isDigit_of_mem_zeros) ?_
        rw [List.head?_append_of_ne_nil _ hdigits.1]
        exact head?_toDigits_ne h
    next hlength =>
      have hlt := Nat.not_le.1 hlength
      -- A zero has one digit only and no place for a point inside.
      have hne : d.digits ≠ 0 := by
        rintro hzero
        have hone : d.digitChars.length = 1 := by rw [Decimal.digitChars, hzero]; rfl
        omega
      exact ⟨isWhole_take hne (by omega), .inr ⟨_, areDigits_drop hdigits hlt, rfl⟩, .inl rfl,
        .inl (by simp)⟩

/-- **Digits with an exponent are well formed.** -/
theorem wellFormed_scientific {d : Decimal} (h : d.Writable) : (scientific d).WellFormed := by
  have hdigits : AreDigits d.digitChars := areDigits_toDigits d.digits
  refine ⟨?_, ?_, .inr ⟨'e', [_], _, .inl rfl, ?_, areDigits_toDigits _, rfl⟩, .inr (by
    simp [scientific])⟩
  · rcases h with rfl | h
    · exact isWhole_toDigits 0
    · exact isWhole_take h Nat.one_pos
  · show IsFraction (if d.digitChars.length ≤ 1 then [] else '.' :: d.digitChars.drop 1)
    split
    next => exact .inl rfl
    next hlength => exact .inr ⟨_, areDigits_drop hdigits (Nat.not_le.1 hlength), rfl⟩
  · split
    · exact .inr (.inr rfl)
    · exact .inr (.inl rfl)

/-- Every double has a well-formed numeral. -/
theorem wellFormed_numeral (x : Double) : (numeral x).WellFormed := by
  rw [numeral]
  split
  · exact wellFormed_positional x.writable_shortest
  · exact wellFormed_scientific x.writable_shortest

/-- The spelling of a double. -/
def NumberSpelling.ofDouble (x : Double) : NumberSpelling where
  negative := x.isNegative
  whole := (numeral x).whole
  fraction := (numeral x).fraction
  exponent := (numeral x).exponent
  isWhole := (wellFormed_numeral x).isWhole
  isFraction := (wellFormed_numeral x).isFraction
  isExponent := (wellFormed_numeral x).isExponent

/-- **A finite double is written in the spelling of its numeral.** -/
theorem chars_ofDouble {x : Double} (h : x.isFinite = true) :
    (NumberSpelling.ofDouble x).chars = doubleText x := by
  simp [doubleText, h, NumberSpelling.chars, NumberSpelling.unsigned, NumberSpelling.ofDouble,
    Numeral.chars]

/-- A number with a fraction or an exponent is not read as an integer. -/
theorem NumberText.value_ne_int {t : NumberText}
    (h : ¬ (t.fraction.isEmpty = true ∧ t.exponent.isNone = true)) (n : Int) :
    t.value ≠ .ok (.int n) := by
  intro hvalue
  rw [NumberText.value] at hvalue
  simp only [if_neg h] at hvalue
  -- Every way to read such a number ends in a double, or it is out of range.
  split at hvalue
  next => split at hvalue <;> cases hvalue
  next =>
    split at hvalue
    next => split at hvalue <;> cases hvalue
    next => split at hvalue <;> cases hvalue

/-- **The text of a double is never read as an integer.** -/
theorem value?_ofDouble_ne_int (x : Double) (n : Int) :
    (NumberSpelling.ofDouble x).value? ≠ some (.int n) := by
  have hform := wellFormed_numeral x
  rw [NumberSpelling.value?, Ne, toOption_eq_some_iff]
  refine NumberText.value_ne_int ?_ n
  rintro ⟨hfraction, hexponent⟩
  rcases hform.not_int with h | h
  · rcases hform.isFraction with hnil | ⟨ds, hds, hcons⟩
    · exact h hnil
    · rw [show (NumberSpelling.ofDouble x).text.fraction =
        ((numeral x).fraction.drop 1).map digitValue from rfl, hcons] at hfraction
      exact hds.1 (by simpa using hfraction)
  · rcases hform.isExponent with hnil | ⟨mark, sign, ds, -, hsign, -, hcons⟩
    · exact h hnil
    · rw [show (NumberSpelling.ofDouble x).text.exponent =
        exponentValue (numeral x).exponent from rfl, hcons, exponentValue.eq_def] at hexponent
      split at hexponent
      next heq => cases heq
      next => cases hexponent
      next => cases hexponent
      next => cases hexponent

end Json
end Pipework
