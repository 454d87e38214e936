import Pipework.Json.Skip
import Pipework.Proofs.Json.Reading

/-!
# Passing over a value

`Json.skip` keeps the open brackets on a stack of its own, so a value is passed over in the middle
of a run. Every value costs a number of steps that its length bounds, and after these the run goes
on behind the value with the stack as it was (`skipFrom_bare`). Hence `skip_spelled`: whatever value
stands in front of a boundary, however deep and however large its numbers, it is passed over.
-/

namespace Pipework.Json

/-! ### Words -/

/-- A string is skipped up to its closing quotation mark, whatever its escapes are. -/
theorem IsStringBody.skipString {b : List Char} (h : IsStringBody b) (rest : List Char) :
    Json.skipString (b ++ '"' :: rest) = .ok rest := by
  induction h with
  | nil =>
    rw [List.nil_append, Json.skipString.eq_def]
    simp
  | plain quote backslash control _ ih =>
    rw [List.cons_append, Json.skipString.eq_def]
    simp [quote, backslash, control, ih]
  | @escape e s known _ ih =>
    obtain ⟨x, hx⟩ := Option.isSome_iff_exists.1 known
    have hu : e ≠ 'u' := by
      rintro rfl
      cases hx
    rw [List.cons_append, List.cons_append, Json.skipString.eq_def]
    simp [hu, hx, ih]
  | unicode digits _ ih =>
    obtain ⟨n, hn⟩ := Option.isSome_iff_exists.1 digits
    simp only [List.cons_append]
    rw [Json.skipString.eq_def]
    simp [hn, ih]

theorem dropWhile_isDigit_append {ds rest : List Char} (hds : ∀ c ∈ ds, isDigit c = true)
    (hrest : startsWithDigit rest = false) : (ds ++ rest).dropWhile isDigit = rest :=
  congrArg Prod.snd (digits_append hds hrest)

/-- An exponent is skipped up to its end. -/
theorem skipExponent_append {s rest : List Char} (h : IsExponent s) (hrest : Boundary rest) :
    skipExponent (s ++ rest) = .ok rest := by
  rcases h with rfl | ⟨mark, sign, ds, hmark, hsign, hds, rfl⟩
  · cases rest with
    | nil => rfl
    | cons c rest =>
      obtain ⟨-, -, he, hE⟩ := hrest.not_mem
      simp [skipExponent, he, hE]
  · have hdigit := hds.startsWithDigit_append rest
    have hdrop := dropWhile_isDigit_append hds.2 hrest.startsWithDigit
    rcases hsign with rfl | rfl | rfl
    · -- Without a sign the digits follow at once, so the first of them is no sign.
      obtain ⟨hne, hall⟩ := hds
      cases ds with
      | nil => exact absurd rfl hne
      | cons d ds =>
        have hplus : d ≠ '+' := fun h ↦ absurd (hall d List.mem_cons_self) (by rw [h]; decide)
        have hminus : d ≠ '-' := fun h ↦ absurd (hall d List.mem_cons_self) (by rw [h]; decide)
        simp only [List.nil_append, List.cons_append] at hdigit hdrop ⊢
        simp [skipExponent, hmark, hplus, hminus, hdigit, hdrop]
    · simp [skipExponent, hmark, hdigit, hdrop]
    · simp [skipExponent, hmark, hdigit, hdrop]

/-- A fraction is skipped up to its end. -/
theorem skipFraction_append {s rest : List Char} (h : IsFraction s)
    (hdigit : startsWithDigit rest = false) (hpoint : rest.head? ≠ some '.') :
    skipFraction (s ++ rest) = .ok rest := by
  rcases h with rfl | ⟨ds, hds, rfl⟩
  · rw [List.nil_append, skipFraction.eq_def]
    split
    · exact absurd rfl hpoint
    · rfl
  · rw [List.cons_append, skipFraction, if_pos (hds.startsWithDigit_append rest),
      dropWhile_isDigit_append hds.2 hdigit]

/-- A whole part is skipped up to its end, and a zero ends it. -/
theorem skipWhole_append {s rest : List Char} (h : IsWhole s)
    (hrest : startsWithDigit rest = false) : skipWhole (s ++ rest) = .ok rest := by
  obtain ⟨c, t, rfl, hc⟩ := h.exists_cons
  obtain ⟨⟨-, hds⟩, hzero⟩ := h
  rw [List.cons_append, skipWhole]
  by_cases hc0 : c = '0'
  · obtain rfl : t = [] := (List.cons.inj (hzero (by rw [hc0]; rfl))).2
    simp [hc0, hrest]
  · rw [if_neg hc0, if_pos hc,
      dropWhile_isDigit_append (fun d hd ↦ hds d (List.mem_cons_of_mem _ hd)) hrest]

/-- **A number is skipped as a whole.** -/
theorem NumberSpelling.skipNumber (n : NumberSpelling) {rest : List Char} (hrest : Boundary rest) :
    Json.skipNumber (n.unsigned ++ rest) = .ok rest := by
  obtain ⟨hdigit, hpoint⟩ := n.isExponent.continues hrest
  rw [Json.skipNumber, unsigned, List.append_assoc, List.append_assoc,
    skipWhole_append n.isWhole (n.isFraction.startsWithDigit_append hdigit)]
  show (skipFraction _ >>= skipExponent) = _
  rw [skipFraction_append n.isFraction hdigit hpoint]
  exact skipExponent_append n.isExponent hrest

/-! ### Values -/

/-- One step passes over a scalar value. -/
theorem skipFrom_scalar {r : Raw} (hr : r.isBracket = false) {w s rest : List Char} (hw : Blank w)
    (hs : r.Bare s) (hrest : Boundary rest) (fuel : Nat) (stack : List Bracket) :
    skipFrom (fuel + 1) .value stack (w ++ (s ++ rest)) = skipFrom fuel .next stack rest := by
  rw [skipFrom, hs.skipSpace hw]
  cases r with
  | null =>
    obtain rfl := hs
    rw [show "null".toList = 'n' :: "ull".toList from rfl, List.cons_append]
    simp only
    rw [word_append]
    rfl
  | bool b =>
    cases b
    · obtain rfl := hs
      rw [show "false".toList = 'f' :: "alse".toList from rfl, List.cons_append]
      simp only
      rw [word_append]
      rfl
    · obtain rfl := hs
      rw [show "true".toList = 't' :: "rue".toList from rfl, List.cons_append]
      simp only
      rw [word_append]
      rfl
  | number n =>
    obtain rfl := hs
    have hskip := n.skipNumber hrest
    rcases hn : n.negative with _ | _
    · obtain ⟨c, u, hu, hc⟩ := n.exists_unsigned_cons
      rw [NumberSpelling.chars, hn, if_neg Bool.false_ne_true]
      rw [hu, List.cons_append] at hskip ⊢
      simp [ne_of_isDigit hc, hc, hskip, Except.bind]
    · rw [NumberSpelling.chars, hn, if_pos rfl, List.cons_append]
      simp only
      rw [hskip]
      rfl
  | string k =>
    obtain rfl := hs
    rw [StringSpelling.quoted, List.cons_append, List.cons_append, List.append_assoc]
    simp only
    rw [List.singleton_append, k.isBody.skipString]
    rfl
  | array rs => cases hr
  | object ms => cases hr

/-- What comes next in front of items or members. -/
def SkipStep.before : Bool → SkipStep
  | true => .first
  | false => .next

mutual

/-- **A value is passed over in so many steps**, for which two for each of its characters are
enough. -/
theorem skipFrom_bare : (r : Raw) → ∀ {s : List Char}, r.Bare s →
    ∃ cost, cost ≤ 2 * s.length ∧ ∀ {w rest : List Char}, Blank w → Boundary rest →
      ∀ fuel stack,
        skipFrom (fuel + cost) .value stack (w ++ (s ++ rest)) = skipFrom fuel .next stack rest
  | .array rs, _, hs => by
    have hskip {w : List Char} (hw : Blank w) := hs.skipSpace hw
    obtain ⟨u, hu, rfl⟩ := hs
    obtain ⟨cost, hcost, hrun⟩ := skipFrom_items rs true hu
    refine ⟨cost + 1, ?_, fun {w rest} hw _ fuel stack ↦ ?_⟩
    · simp only [List.length_cons, List.length_append, Bool.toNat_true] at hcost ⊢
      omega
    · rw [← Nat.add_assoc, skipFrom, hskip hw]
      simpa [SkipStep.before] using hrun fuel stack
  | .object ms, _, hs => by
    have hskip {w : List Char} (hw : Blank w) := hs.skipSpace hw
    obtain ⟨u, hu, rfl⟩ := hs
    obtain ⟨cost, hcost, hrun⟩ := skipFrom_members ms true hu
    refine ⟨cost + 1, ?_, fun {w rest} hw _ fuel stack ↦ ?_⟩
    · simp only [List.length_cons, List.length_append, Bool.toNat_true] at hcost ⊢
      omega
    · rw [← Nat.add_assoc, skipFrom, hskip hw]
      simpa [SkipStep.before] using hrun fuel stack
  | .null, _, hs => ⟨1, by have := hs.length_pos; omega, fun hw hrest fuel stack ↦
      skipFrom_scalar rfl hw hs hrest fuel stack⟩
  | .bool _, _, hs => ⟨1, by have := hs.length_pos; omega, fun hw hrest fuel stack ↦
      skipFrom_scalar rfl hw hs hrest fuel stack⟩
  | .number _, _, hs => ⟨1, by have := hs.length_pos; omega, fun hw hrest fuel stack ↦
      skipFrom_scalar rfl hw hs hrest fuel stack⟩
  | .string _, _, hs => ⟨1, by have := hs.length_pos; omega, fun hw hrest fuel stack ↦
      skipFrom_scalar rfl hw hs hrest fuel stack⟩

/-- Items are skipped without recursion: the closing bracket is found with the list on top of the
stack. The cost is bounded by the length of the text. -/
theorem skipFrom_items : (rs : List Raw) → (first : Bool) → ∀ {s : List Char},
    Raw.Items first rs s → ∃ cost, cost ≤ 2 * s.length + 1 + first.toNat ∧
      ∀ {rest : List Char} fuel stack,
        skipFrom (fuel + cost) (.before first) (.list :: stack) (s ++ ']' :: rest) =
          skipFrom fuel .next stack rest
  | [], first, s, hs => by
    refine ⟨1, by omega, fun {rest} fuel stack ↦ ?_⟩
    have hskip : skipSpace (s ++ ']' :: rest) = ']' :: rest := by
      rw [Blank.skipSpace_append hs, skipSpace_cons (by decide)]
    cases first with
    | true =>
      rw [SkipStep.before, skipFrom.eq_def]
      simp only [hskip]
    | false =>
      rw [SkipStep.before, skipFrom.eq_def]
      simp only [hskip]
  | r :: rs, first, _, ⟨w, w', t, u, hw, hw', ht, hu, rfl⟩ => by
    obtain ⟨cost, hcost, hrun⟩ := skipFrom_bare r ht
    obtain ⟨cost', hcost', hrun'⟩ := skipFrom_items rs false hu
    refine ⟨cost' + cost + 1, ?_, fun {rest} fuel stack ↦ ?_⟩
    · cases first <;>
        simp only [separator, List.length_append, List.length_cons, List.length_nil,
          Bool.toNat_true, Bool.toNat_false] at hcost' ⊢ <;> omega
    · have hvalue {w : List Char} (hw : Blank w) :
          skipFrom (fuel + (cost' + cost)) .value (.list :: stack)
              (w ++ (t ++ (u ++ ']' :: rest))) = skipFrom fuel .next stack rest := by
        rw [← Nat.add_assoc, hrun hw hu.boundary]
        exact hrun' fuel stack
      simp only [List.append_assoc]
      rw [← Nat.add_assoc]
      cases first with
      | true =>
        rw [SkipStep.before, separator, List.nil_append, skipFrom.eq_def]
        simp only [hw.skipSpace_append, ht.skipSpace hw']
        obtain ⟨c, t, rfl, hc⟩ := ht.exists_cons
        simpa [hc.ne] using hvalue blank_nil
      | false =>
        rw [SkipStep.before, skipFrom, hw.skipSpace_append, separator, List.singleton_append,
          skipSpace_cons (by decide)]
        exact hvalue hw'

/-- Members are skipped in the same way. -/
theorem skipFrom_members : (ms : List (StringSpelling × Raw)) → (first : Bool) →
    ∀ {s : List Char}, Raw.Members first ms s → ∃ cost, cost ≤ 2 * s.length + 1 + first.toNat ∧
      ∀ {rest : List Char} fuel stack,
        skipFrom (fuel + cost) (.before first) (.object :: stack) (s ++ '\x7d' :: rest) =
          skipFrom fuel .next stack rest
  | [], first, s, hs => by
    refine ⟨1, by omega, fun {rest} fuel stack ↦ ?_⟩
    have hskip : skipSpace (s ++ '\x7d' :: rest) = '\x7d' :: rest := by
      rw [Blank.skipSpace_append hs, skipSpace_cons (by decide)]
    cases first with
    | true =>
      rw [SkipStep.before, skipFrom.eq_def]
      simp only [hskip]
    | false =>
      rw [SkipStep.before, skipFrom.eq_def]
      simp only [hskip]
  | (k, r) :: ms, first, _, ⟨w, w', c, c', t, u, hw, hw', hc, hc', ht, hu, rfl⟩ => by
    obtain ⟨cost, hcost, hrun⟩ := skipFrom_bare r ht
    obtain ⟨cost', hcost', hrun'⟩ := skipFrom_members ms false hu
    -- One step is for the key and one for what comes before it.
    refine ⟨cost' + cost + 1 + 1, ?_, fun {rest} fuel stack ↦ ?_⟩
    · cases first <;>
        simp only [separator, StringSpelling.quoted, List.length_append, List.length_cons,
          List.length_nil, Bool.toNat_true, Bool.toNat_false] at hcost' ⊢ <;> omega
    · have hkey {w : List Char} (hw : Blank w) :
          skipFrom (fuel + (cost' + cost + 1)) .key (.object :: stack)
              (w ++ '"' :: (k.chars ++ '"' :: (c ++ ':' :: (c' ++ (t ++ (u ++ '\x7d' :: rest)))))) =
            skipFrom fuel .next stack rest := by
        rw [← Nat.add_assoc, skipFrom, hw.skipSpace_append, skipSpace_cons (by decide)]
        simp only
        rw [k.isBody.skipString, show (Except.ok _ : Except Fault (List Char)).bind colon = _ from
          colon_append hc, show (Except.ok _ : Except Fault (List Char)).bind _ = _ from rfl,
          ← Nat.add_assoc]
        exact (hrun hc' hu.boundary _ _).trans (hrun' fuel stack)
      simp only [StringSpelling.quoted, List.append_assoc, List.cons_append, List.nil_append]
      rw [← Nat.add_assoc]
      cases first with
      | true =>
        rw [SkipStep.before, separator, List.nil_append, skipFrom.eq_def]
        simp only [hw.skipSpace_append, hw'.skipSpace_append,
          skipSpace_cons (show isSpace '"' = false by decide)]
        exact hkey blank_nil
      | false =>
        rw [SkipStep.before, skipFrom, hw.skipSpace_append, separator, List.singleton_append,
          skipSpace_cons (by decide)]
        exact hkey hw'

end

/-- **Any value is passed over.** -/
theorem skip_spelled {r : Raw} {s rest : List Char} (hs : r.Spelled s) (hrest : Boundary rest) :
    skip (s ++ rest) = .ok rest := by
  obtain ⟨w, t, hw, ht, rfl⟩ := hs
  obtain ⟨cost, hcost, hrun⟩ := skipFrom_bare r ht
  rw [skip, List.append_assoc]
  obtain ⟨fuel, hfuel⟩ :
      ∃ fuel, 3 * (w ++ (t ++ rest)).length + 3 = fuel + 1 + cost := by
    refine ⟨3 * (w ++ (t ++ rest)).length + 2 - cost, ?_⟩
    simp only [List.length_append]
    omega
  rw [hfuel, hrun hw hrest]
  rfl

end Pipework.Json
