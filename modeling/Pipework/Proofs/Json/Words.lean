import Pipework.Codec.Basic
import Pipework.Proofs.Json.Raw
import Pipework.Proofs.Reports

/-!
# Reading the words of a text

The readers of numbers and strings take exactly the characters of a spelling, whatever comes after
it, and what they make of it depends on the spelling alone: `number_unsigned` and
`stringBody_quoted`. Hence so does what `readFound` finds at the beginning of a value
(`readFound_bare`). Strings can fail to have a value even if the grammar admits them, by a surrogate
that stands alone, and numbers by being out of range.
-/

namespace Pipework.Json

/-! ### Numbers -/

/-- The value of a digit. -/
def digitValue (c : Char) : Nat :=
  c.toNat - '0'.toNat

/-- Digits are read up to the first character that is none. -/
theorem digits_append {ds rest : List Char} (hds : ∀ c ∈ ds, isDigit c = true)
    (hrest : startsWithDigit rest = false) : digits (ds ++ rest) = (ds.map digitValue, rest) := by
  have hstop : rest.takeWhile isDigit = [] ∧ rest.dropWhile isDigit = rest := by
    cases rest with
    | nil => exact ⟨rfl, rfl⟩
    | cons c rest =>
      rw [startsWithDigit] at hrest
      simp [hrest]
  rw [digits, List.takeWhile_append_of_pos hds, List.dropWhile_append_of_pos hds, hstop.1, hstop.2,
    List.append_nil]
  rfl

theorem AreDigits.startsWithDigit_append {ds : List Char} (h : AreDigits ds) (rest : List Char) :
    startsWithDigit (ds ++ rest) = true := by
  obtain ⟨hne, hds⟩ := h
  cases ds with
  | nil => exact absurd rfl hne
  | cons c ds => exact hds c List.mem_cons_self

/-- A whole part is read digit by digit, and a zero stands alone. -/
theorem wholePart_append {s rest : List Char} (h : IsWhole s)
    (hrest : startsWithDigit rest = false) :
    wholePart (s ++ rest) = .ok (s.map digitValue, rest) := by
  obtain ⟨c, t, rfl, hc⟩ := h.exists_cons
  obtain ⟨⟨-, hds⟩, hzero⟩ := h
  rw [List.cons_append, wholePart]
  by_cases hc0 : c = '0'
  · subst hc0
    obtain rfl : t = [] := by simpa using hzero rfl
    simp [hrest]
    decide
  · rw [if_neg hc0, if_pos hc, ← List.cons_append, digits_append hds hrest]

/-- A fraction is read if there is a point. -/
theorem fractionPart_append {s rest : List Char} (h : IsFraction s)
    (hdigit : startsWithDigit rest = false) (hpoint : rest.head? ≠ some '.') :
    fractionPart (s ++ rest) = .ok ((s.drop 1).map digitValue, rest) := by
  rcases h with rfl | ⟨ds, hds, rfl⟩
  · cases rest with
    | nil => rfl
    | cons c rest =>
      have hc : c ≠ '.' := fun hc ↦ hpoint (by rw [hc]; rfl)
      simp [fractionPart, hc]
  · rw [List.cons_append, fractionPart, if_pos rfl, if_pos (hds.startsWithDigit_append rest),
      digits_append hds.2 hdigit]
    rfl

/-- The sign and the digits of an exponent. -/
def exponentValue : List Char → Option (Bool × List Nat)
  | [] => none
  | _ :: '+' :: ds => some (false, ds.map digitValue)
  | _ :: '-' :: ds => some (true, ds.map digitValue)
  | _ :: ds => some (false, ds.map digitValue)

theorem exponentDigits_append {ds rest : List Char} (negative : Bool) (h : AreDigits ds)
    (hrest : startsWithDigit rest = false) :
    exponentDigits negative (ds ++ rest) = .ok ((negative, ds.map digitValue), rest) := by
  obtain ⟨hne, hds⟩ := h
  cases ds with
  | nil => exact absurd rfl hne
  | cons c ds =>
    rw [List.cons_append, exponentDigits, if_pos (hds c List.mem_cons_self), ← List.cons_append,
      digits_append hds hrest]

/-- An exponent is read with its sign. -/
theorem exponentPart_append {s rest : List Char} (h : IsExponent s) (hrest : Boundary rest) :
    exponentPart (s ++ rest) = .ok (exponentValue s, rest) := by
  rcases h with rfl | ⟨mark, sign, ds, hmark, hsign, hds, rfl⟩
  · cases rest with
    | nil => rfl
    | cons c rest =>
      obtain ⟨-, -, he, hE⟩ := hrest.not_mem
      simp [exponentPart, exponentValue, he, hE]
  · have hdigit : startsWithDigit rest = false := by
      cases rest with
      | nil => rfl
      | cons c rest => exact hrest.not_mem.1
    rcases hsign with rfl | rfl | rfl
    · -- Without a sign the digits follow at once, so the first of them is no sign.
      have hread := exponentDigits_append false hds hdigit
      obtain ⟨hne, hall⟩ := hds
      cases ds with
      | nil => exact absurd rfl hne
      | cons d ds =>
        have hplus : d ≠ '+' := fun h ↦ absurd (hall d List.mem_cons_self) (by rw [h]; decide)
        have hminus : d ≠ '-' := fun h ↦ absurd (hall d List.mem_cons_self) (by rw [h]; decide)
        simp only [List.nil_append, List.cons_append] at hread ⊢
        simp [exponentPart, hmark, hread, hplus, hminus, exponentValue, Except.map]
    · simp [exponentPart, hmark, exponentDigits_append false hds hdigit, exponentValue, Except.map]
    · simp [exponentPart, hmark, exponentDigits_append true hds hdigit, exponentValue, Except.map]

/-- No digit follows the end of a number. -/
theorem Boundary.startsWithDigit {rest : List Char} (h : Boundary rest) :
    startsWithDigit rest = false := by
  cases rest with
  | nil => rfl
  | cons c rest => exact h.not_mem.1

/-- A fraction has ended where an exponent starts. -/
theorem IsExponent.continues {s rest : List Char} (h : IsExponent s) (hrest : Boundary rest) :
    startsWithDigit (s ++ rest) = false ∧ (s ++ rest).head? ≠ some '.' := by
  rcases h with rfl | ⟨mark, sign, ds, hmark, -, -, rfl⟩
  · cases rest with
    | nil => exact ⟨rfl, by simp⟩
    | cons c rest =>
      obtain ⟨hdigit, hpoint, -⟩ := hrest.not_mem
      exact ⟨hdigit, by simpa using hpoint⟩
  · rcases hmark with rfl | rfl
    · exact ⟨rfl, by simp⟩
    · exact ⟨rfl, by simp⟩

theorem IsFraction.startsWithDigit_append {s rest : List Char} (h : IsFraction s)
    (hrest : startsWithDigit rest = false) : startsWithDigit (s ++ rest) = false := by
  rcases h with rfl | ⟨ds, -, rfl⟩
  · exact hrest
  · rfl

namespace NumberSpelling

/-- The parts of a number. -/
def text (n : NumberSpelling) : NumberText where
  negative := n.negative
  whole := n.whole.map digitValue
  fraction := (n.fraction.drop 1).map digitValue
  exponent := exponentValue n.exponent

/-- The value of a number, unless it is out of range. -/
def value? (n : NumberSpelling) : Option Number :=
  n.text.value.toOption

/-- **A number is read in the parts that it is spelled in.** -/
theorem numberText_unsigned (n : NumberSpelling) {rest : List Char} (hrest : Boundary rest) :
    numberText n.negative (n.unsigned ++ rest) = .ok (n.text, rest) := by
  obtain ⟨hdigit, hpoint⟩ := n.isExponent.continues hrest
  have hwhole := wholePart_append n.isWhole (n.isFraction.startsWithDigit_append hdigit)
  have hfraction := fractionPart_append n.isFraction hdigit hpoint
  have hexponent := exponentPart_append n.isExponent hrest
  simp only [numberText, unsigned, List.append_assoc, hwhole, hfraction, hexponent, bind,
    Except.bind, pure, Except.pure, text]

/-- **A number is read from its spelling**, up to the boundary and no further. -/
theorem number_unsigned (n : NumberSpelling) {rest t : List Char} (hrest : Boundary rest)
    {v : Number} :
    number n.negative (n.unsigned ++ rest) = .ok (v, t) ↔ n.value? = some v ∧ t = rest := by
  rw [number, n.numberText_unsigned hrest, value?]
  rcases hvalue : n.text.value with left | w
  · simp [bind, Except.bind, Except.toOption, hvalue]
  · simp [bind, Except.bind, pure, Except.pure, Except.toOption, hvalue, eq_comm]

end NumberSpelling

/-! ### Strings -/

/-- A character that begins no escape ends the string or is part of it. -/
theorem stringBody_cons {c : Char} (backslash : c ≠ '\\') (s : List Char) :
    stringBody (c :: s) =
      if c = '"' then .ok ([], s)
      else if c.toNat < 0x20 then .error (.peek .controlCharacter (c :: s))
      else push c (stringBody s) := by
  rw [stringBody.eq_def]
  simp only [if_neg backslash]

theorem stringBody_quote (s : List Char) : stringBody ('"' :: s) = .ok ([], s) := by
  rw [stringBody_cons (by decide), if_pos rfl]

theorem stringBody_plain {c : Char} {s : List Char} (quote : c ≠ '"') (backslash : c ≠ '\\')
    (control : ¬ c.toNat < 0x20) : stringBody (c :: s) = push c (stringBody s) := by
  rw [stringBody_cons backslash, if_neg quote, if_neg control]

/-- A short escape stands for one character. -/
theorem stringBody_escape {e x : Char} {s : List Char} (h : escaped? e = some x) :
    stringBody ('\\' :: e :: s) = push x (stringBody s) := by
  have hu : e ≠ 'u' := by
    rintro rfl
    cases h
  rw [stringBody.eq_def]
  simp [hu, h]

section Unicode

variable {a b c d : Char} {n : Nat} (hn : hexUnit? a b c d = some n)

include hn

/-- What four hexadecimal digits after `\u` stand for depends on the half of a pair they are. -/
theorem stringBody_unicode (s : List Char) :
    stringBody ('\\' :: 'u' :: a :: b :: c :: d :: s) =
      if isLowSurrogate n then .error (.stop .loneSurrogate s)
      else if isHighSurrogate n then
        match s with
        | '\\' :: 'u' :: e :: f :: g :: h :: u =>
          match hexUnit? e f g h with
          | none => .error (hexFault (e :: f :: g :: h :: u))
          | some m =>
            if isLowSurrogate m then
              push (Char.ofNat ((n - 0xD800) * 0x400 + (m - 0xDC00) + 0x10000)) (stringBody u)
            else .error (.stop .loneSurrogate u)
        | t => .error (pairFault t)
      else push (Char.ofNat n) (stringBody s) := by
  rw [stringBody.eq_def]
  simp only [hn]
  rfl

/-- An escape by a unit stands for the character with its number. -/
theorem stringBody_unit {s : List Char} (hlow : ¬ isLowSurrogate n) (hhigh : ¬ isHighSurrogate n) :
    stringBody ('\\' :: 'u' :: a :: b :: c :: d :: s) = push (Char.ofNat n) (stringBody s) := by
  rw [stringBody_unicode hn, if_neg hlow, if_neg hhigh]

/-- The second half of a surrogate pair does not come first. -/
theorem stringBody_low {s : List Char} (hlow : isLowSurrogate n) :
    stringBody ('\\' :: 'u' :: a :: b :: c :: d :: s) = .error (.stop .loneSurrogate s) := by
  rw [stringBody_unicode hn, if_pos hlow]

/-- After the first half of a pair, the second has to be the very next escape. -/
theorem stringBody_high {s : List Char} (hlow : ¬ isLowSurrogate n) (hhigh : isHighSurrogate n)
    (hs : ∀ e f g h u, s ≠ '\\' :: 'u' :: e :: f :: g :: h :: u) :
    stringBody ('\\' :: 'u' :: a :: b :: c :: d :: s) = .error (pairFault s) := by
  rw [stringBody_unicode hn, if_neg hlow, if_pos hhigh]
  split
  · exact absurd rfl (hs _ _ _ _ _)
  · rfl

/-- Two units make up a character beyond the first plane. -/
theorem stringBody_pair {e f g h : Char} {u : List Char} {m : Nat} (hlow : ¬ isLowSurrogate n)
    (hhigh : isHighSurrogate n) (hm : hexUnit? e f g h = some m) (hpair : isLowSurrogate m) :
    stringBody ('\\' :: 'u' :: a :: b :: c :: d :: '\\' :: 'u' :: e :: f :: g :: h :: u) =
      push (Char.ofNat ((n - 0xD800) * 0x400 + (m - 0xDC00) + 0x10000)) (stringBody u) := by
  rw [stringBody_unicode hn, if_neg hlow, if_pos hhigh]
  simp only [hm, if_pos hpair]

/-- The first half of a surrogate pair is followed by the second one. -/
theorem stringBody_unpaired {e f g h : Char} {u : List Char} {m : Nat} (hlow : ¬ isLowSurrogate n)
    (hhigh : isHighSurrogate n) (hm : hexUnit? e f g h = some m) (hpair : ¬ isLowSurrogate m) :
    stringBody ('\\' :: 'u' :: a :: b :: c :: d :: '\\' :: 'u' :: e :: f :: g :: h :: u) =
      .error (.stop .loneSurrogate u) := by
  rw [stringBody_unicode hn, if_neg hlow, if_pos hhigh]
  simp only [hm, if_neg hpair]

end Unicode

theorem toOption_push (c : Char) (r : Except Fault (Read (List Char))) :
    (push c r).toOption = r.toOption.map fun x ↦ (c :: x.1, x.2) := by
  cases r with
  | error f => rfl
  | ok x => rfl

/-- What is read of a string is the same whatever follows its closing quotation mark. -/
theorem IsStringBody.exists_toOption : (b : List Char) → IsStringBody b →
    ∃ o : Option (List Char), ∀ rest,
      (stringBody (b ++ '"' :: rest)).toOption = o.map fun cs ↦ (cs, rest)
  | _, .nil => ⟨some [], fun rest ↦ by rw [List.nil_append, stringBody_quote]; rfl⟩
  | _, .plain (c := c) (s := s) quote backslash control hs => by
    obtain ⟨o, ho⟩ := IsStringBody.exists_toOption s hs
    refine ⟨o.map (c :: ·), fun rest ↦ ?_⟩
    rw [List.cons_append, stringBody_plain quote backslash control, toOption_push, ho]
    simp [Function.comp_def]
  | _, .escape (e := e) (s := s) known hs => by
    obtain ⟨x, hx⟩ := Option.isSome_iff_exists.1 known
    obtain ⟨o, ho⟩ := IsStringBody.exists_toOption s hs
    refine ⟨o.map (x :: ·), fun rest ↦ ?_⟩
    rw [List.cons_append, List.cons_append, stringBody_escape hx, toOption_push, ho]
    simp [Function.comp_def]
  | _, .unicode (s := s) hdigits hs => by
    obtain ⟨n, hn⟩ := Option.isSome_iff_exists.1 hdigits
    simp only [List.cons_append]
    -- Half a surrogate pair spoils the string, whatever follows the closing quotation mark.
    by_cases hlow : isLowSurrogate n
    · exact ⟨none, fun rest ↦ by rw [stringBody_low hn hlow]; rfl⟩
    by_cases hhigh : isHighSurrogate n
    · cases hs with
      | nil =>
        refine ⟨none, fun rest ↦ ?_⟩
        rw [stringBody_high hn hlow hhigh (by simp)]
        rfl
      | plain quote backslash control hs =>
        refine ⟨none, fun rest ↦ ?_⟩
        rw [stringBody_high hn hlow hhigh (by simp [backslash])]
        rfl
      | @escape e _ known hs =>
        refine ⟨none, fun rest ↦ ?_⟩
        have hu : e ≠ 'u' := by
          rintro rfl
          cases known
        rw [stringBody_high hn hlow hhigh (by simp [hu])]
        rfl
      | @unicode _ _ _ _ u hdigits hu =>
        obtain ⟨m, hm⟩ := Option.isSome_iff_exists.1 hdigits
        simp only [List.cons_append]
        by_cases hpair : isLowSurrogate m
        · obtain ⟨o, ho⟩ := IsStringBody.exists_toOption u hu
          refine ⟨o.map (Char.ofNat ((n - 0xD800) * 0x400 + (m - 0xDC00) + 0x10000) :: ·),
            fun rest ↦ ?_⟩
          rw [stringBody_pair hn hlow hhigh hm hpair, toOption_push, ho]
          simp [Function.comp_def]
        · exact ⟨none, fun rest ↦ by rw [stringBody_unpaired hn hlow hhigh hm hpair]; rfl⟩
    · obtain ⟨o, ho⟩ := IsStringBody.exists_toOption s hs
      refine ⟨o.map (Char.ofNat n :: ·), fun rest ↦ ?_⟩
      rw [stringBody_unit hn hlow hhigh, toOption_push, ho]
      simp [Function.comp_def]
termination_by b => b.length

/-- The text that a string stands for, unless it has half a surrogate pair. -/
def StringSpelling.decode? (k : StringSpelling) : Option String :=
  (stringBody (k.chars ++ ['"'])).toOption.map fun r ↦ String.ofList r.1

/-- **A string is read from its spelling**, up to the closing quotation mark and no further. -/
theorem StringSpelling.stringBody_quoted (k : StringSpelling) {rest cs t : List Char} :
    stringBody (k.chars ++ '"' :: rest) = .ok (cs, t) ↔
      k.decode? = some (String.ofList cs) ∧ t = rest := by
  obtain ⟨o, ho⟩ := IsStringBody.exists_toOption k.chars k.isBody
  rw [← toOption_eq_some_iff, ho, decode?, ho]
  cases o with
  | none => simp
  | some ds => simp [String.ofList_inj, eq_comm]

/-! ### Scalar values -/

theorem word_append (w s : List Char) : word w (w ++ s) = .ok s := by
  induction w with
  | nil => rfl
  | cons c w ih => rw [List.cons_append, word, if_pos rfl, ih]

/-- The scalar value that a text stands for, or which bracket opens in it. -/
def Raw.found? : Raw → Option Found
  | .null => some .null
  | .bool b => some (.bool b)
  | .number n => n.value?.map fun v ↦ found (ofNumber v)
  | .string k => k.decode?.map .string
  | .array _ => some .array
  | .object _ => some .object

/-- Lists and objects. -/
def Raw.isBracket : Raw → Bool
  | .array _ | .object _ => true
  | _ => false

/-- A digit begins nothing but a number. -/
theorem ne_of_isDigit {c : Char} (h : isDigit c = true) :
    c ≠ 'n' ∧ c ≠ 't' ∧ c ≠ 'f' ∧ c ≠ '"' ∧ c ≠ '-' ∧ c ≠ '[' ∧ c ≠ '\x7b' ∧ c ≠ ']' ∧
      c ≠ '\x7d' ∧ c ≠ ',' := by
  refine ⟨?_, ?_, ?_, ?_, ?_, ?_, ?_, ?_, ?_, ?_⟩ <;> (rintro rfl; revert h; decide)

theorem readFound_digit {c : Char} (hc : isDigit c = true) (s : List Char) :
    Codec.readFound (c :: s) =
      (number false (c :: s)).map fun x ↦ (found (ofNumber x.1), x.2) := by
  have hne := ne_of_isDigit hc
  rw [Codec.readFound, if_pos (show startsWithDigit (c :: s) = true from hc)]
  all_goals simp [hne]

/-- A number is found as a whole, and no more than it. -/
theorem readFound_number (n : NumberSpelling) {rest t : List Char} (hrest : Boundary rest)
    {got : Found} :
    Codec.readFound (n.chars ++ rest) = .ok (got, t) ↔
      (Raw.number n).found? = some got ∧ t = rest := by
  have hnumber : (number n.negative (n.unsigned ++ rest)).map
      (fun x ↦ (found (ofNumber x.1), x.2)) = .ok (got, t) ↔
        (Raw.number n).found? = some got ∧ t = rest := by
    rw [map_eq_ok_iff, Raw.found?, Option.map_eq_some_iff]
    constructor
    · rintro ⟨⟨v, w⟩, hv, heq⟩
      obtain ⟨hvalue, hw⟩ := (n.number_unsigned hrest).1 hv
      obtain ⟨rfl, rfl⟩ := Prod.mk.inj heq
      exact ⟨⟨v, hvalue, rfl⟩, hw⟩
    · rintro ⟨⟨v, hv, rfl⟩, rfl⟩
      exact ⟨(v, t), (n.number_unsigned hrest).2 ⟨hv, rfl⟩, rfl⟩
  -- A number without a sign is told by its first digit.
  rw [NumberSpelling.chars]
  rcases hn : n.negative with _ | _
  · obtain ⟨c, u, hu, hc⟩ := n.exists_unsigned_cons
    rw [hn, hu] at hnumber
    rw [if_neg Bool.false_ne_true, hu, List.cons_append, readFound_digit hc]
    exact hnumber
  · rw [hn] at hnumber
    rw [if_pos rfl, List.cons_append]
    exact hnumber

/-- A string is found as a whole, and no more than it. -/
theorem readFound_string (k : StringSpelling) {rest t : List Char} {got : Found} :
    Codec.readFound (k.quoted ++ rest) = .ok (got, t) ↔
      (Raw.string k).found? = some got ∧ t = rest := by
  rw [StringSpelling.quoted, List.cons_append, List.cons_append, List.append_assoc,
    List.singleton_append]
  show (stringBody (k.chars ++ '"' :: rest)).map _ = _ ↔ _
  rw [map_eq_ok_iff, Raw.found?, Option.map_eq_some_iff]
  constructor
  · rintro ⟨⟨cs, w⟩, hcs, heq⟩
    obtain ⟨hdecode, hw⟩ := k.stringBody_quoted.1 hcs
    obtain ⟨rfl, rfl⟩ := Prod.mk.inj heq
    exact ⟨⟨_, hdecode, rfl⟩, hw⟩
  · rintro ⟨⟨v, hv, rfl⟩, ht⟩
    exact ⟨(v.toList, t), k.stringBody_quoted.2 ⟨by simpa using hv, ht⟩, by simp⟩

/-- **What is found at the beginning of a value** depends on the value alone. Brackets are left to
be read. -/
theorem readFound_bare {r : Raw} {s rest t : List Char} (hs : r.Bare s) (hrest : Boundary rest)
    {got : Found} :
    Codec.readFound (s ++ rest) = .ok (got, t) ↔
      r.found? = some got ∧ t = if r.isBracket then s ++ rest else rest := by
  cases r with
  | null =>
    obtain rfl := hs
    show (word "ull".toList ("ull".toList ++ rest)).map _ = _ ↔ _
    rw [word_append]
    simp [Except.map, Raw.found?, Raw.isBracket, eq_comm]
  | bool b =>
    cases b
    · obtain rfl := hs
      show (word "alse".toList ("alse".toList ++ rest)).map _ = _ ↔ _
      rw [word_append]
      simp [Except.map, Raw.found?, Raw.isBracket, eq_comm]
    · obtain rfl := hs
      show (word "rue".toList ("rue".toList ++ rest)).map _ = _ ↔ _
      rw [word_append]
      simp [Except.map, Raw.found?, Raw.isBracket, eq_comm]
  | number n =>
    obtain rfl := hs
    exact readFound_number n hrest
  | string k =>
    obtain rfl := hs
    exact readFound_string k
  | array rs =>
    obtain ⟨u, -, rfl⟩ := hs
    show Except.ok (Found.array, _) = _ ↔ _
    simp [Raw.found?, Raw.isBracket, eq_comm]
  | object ms =>
    obtain ⟨u, -, rfl⟩ := hs
    show Except.ok (Found.object, _) = _ ↔ _
    simp [Raw.found?, Raw.isBracket, eq_comm]

end Pipework.Json
