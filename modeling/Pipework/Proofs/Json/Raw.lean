import Mathlib.Data.List.Basic
import Pipework.Json.Scan
import Pipework.Json.Writer

/-!
# JSON texts

What a JSON text is, said without a reader. A `Raw` value is the tree of a text in which numbers and
strings still are as they are spelled, so that the texts of one raw value differ in the blanks
between their words and in nothing else. `Raw.Spelled r s` says that `s` is such a text of `r`.

The spellings of numbers and strings carry the proof that the grammar admits them, hence every raw
value has a text (`Raw.exists_spelled`). What may follow a value inside a text is a `Boundary`: no
character that would make a number longer.
-/

namespace Pipework.Json

/-! ### Numbers -/

/-- Decimal digits, at least one. -/
def AreDigits (ds : List Char) : Prop :=
  ds ≠ [] ∧ ∀ c ∈ ds, isDigit c = true

/-- The digits before the point: a zero only stands in front if nothing else follows. -/
def IsWhole (s : List Char) : Prop :=
  AreDigits s ∧ (s.head? = some '0' → s = ['0'])

/-- Nothing, or a point and digits. -/
def IsFraction (s : List Char) : Prop :=
  s = [] ∨ ∃ ds, AreDigits ds ∧ s = '.' :: ds

/-- Nothing, or a mark, perhaps a sign, and digits. -/
def IsExponent (s : List Char) : Prop :=
  s = [] ∨ ∃ mark sign ds, (mark = 'e' ∨ mark = 'E') ∧
    (sign = [] ∨ sign = ['+'] ∨ sign = ['-']) ∧ AreDigits ds ∧ s = mark :: (sign ++ ds)

theorem isFraction_nil : IsFraction [] :=
  .inl rfl

theorem isExponent_nil : IsExponent [] :=
  .inl rfl

/-- A number as it stands in a text. -/
structure NumberSpelling where
  negative : Bool
  whole : List Char
  fraction : List Char
  exponent : List Char
  isWhole : IsWhole whole
  isFraction : IsFraction fraction
  isExponent : IsExponent exponent

namespace NumberSpelling

/-- The characters after the sign. -/
def unsigned (n : NumberSpelling) : List Char :=
  n.whole ++ n.fraction ++ n.exponent

/-- The characters of a number. -/
def chars (n : NumberSpelling) : List Char :=
  if n.negative then '-' :: n.unsigned else n.unsigned

end NumberSpelling

/-! ### Strings -/

/-- What may stand between quotation marks: characters that need no escape, one-letter escapes and
escapes with four hexadecimal digits. -/
inductive IsStringBody : List Char → Prop where
  | nil : IsStringBody []
  | plain {c : Char} {s : List Char} (quote : c ≠ '"') (backslash : c ≠ '\\')
      (control : ¬ c.toNat < 0x20) (rest : IsStringBody s) : IsStringBody (c :: s)
  | escape {e : Char} {s : List Char} (known : (escaped? e).isSome = true)
      (rest : IsStringBody s) : IsStringBody ('\\' :: e :: s)
  | unicode {a b c d : Char} {s : List Char} (digits : (hexUnit? a b c d).isSome = true)
      (rest : IsStringBody s) : IsStringBody ('\\' :: 'u' :: a :: b :: c :: d :: s)

/-- A string as it stands in a text, without the quotation marks. -/
structure StringSpelling where
  chars : List Char
  isBody : IsStringBody chars

/-- A string with its quotation marks. -/
def StringSpelling.quoted (k : StringSpelling) : List Char :=
  '"' :: k.chars ++ ['"']

/-! ### Values -/

/-- A value as it stands in a text. -/
inductive Raw where
  | null
  | bool (value : Bool)
  | number (spelling : NumberSpelling)
  | string (spelling : StringSpelling)
  | array (items : List Raw)
  | object (members : List (StringSpelling × Raw))

/-- Characters that only separate words. -/
def Blank (w : List Char) : Prop :=
  ∀ c ∈ w, isSpace c = true

mutual

/-- The text `s` spells the value and begins with its first word. -/
def Raw.Bare : Raw → List Char → Prop
  | .null, s => s = "null".toList
  | .bool true, s => s = "true".toList
  | .bool false, s => s = "false".toList
  | .number n, s => s = n.chars
  | .string k, s => s = k.quoted
  | .array rs, s => ∃ t, Raw.Items true rs t ∧ s = '[' :: (t ++ [']'])
  | .object ms, s => ∃ t, Raw.Members true ms t ∧ s = '\x7b' :: (t ++ ['\x7d'])

/-- The text spells items with commas between them, and in front unless they are the first. -/
def Raw.Items : Bool → List Raw → List Char → Prop
  | _, [], s => Blank s
  | first, r :: rs, s => ∃ w w' t u, Blank w ∧ Blank w' ∧ r.Bare t ∧ Raw.Items false rs u ∧
      s = w ++ (separator first ++ (w' ++ (t ++ u)))

/-- The text spells members with commas between them, and in front unless they are the first. -/
def Raw.Members : Bool → List (StringSpelling × Raw) → List Char → Prop
  | _, [], s => Blank s
  | first, (k, r) :: ms, s => ∃ w w' c c' t u, Blank w ∧ Blank w' ∧ Blank c ∧ Blank c' ∧ r.Bare t ∧
      Raw.Members false ms u ∧
      s = w ++ (separator first ++ (w' ++ (k.quoted ++ (c ++ ':' :: (c' ++ (t ++ u))))))

end

/-- The text spells the value, perhaps after blanks. -/
def Raw.Spelled (r : Raw) (s : List Char) : Prop :=
  ∃ w t, Blank w ∧ r.Bare t ∧ s = w ++ t

/-- A whole text spells the value: nothing but blanks stands around it. -/
def Raw.IsText (r : Raw) (text : String) : Prop :=
  ∃ s w, r.Spelled s ∧ Blank w ∧ text.toList = s ++ w

/-! ### Every value has a text -/

@[simp] theorem blank_nil : Blank [] := fun _ h ↦ nomatch h

theorem Blank.append {v w : List Char} (hv : Blank v) (hw : Blank w) : Blank (v ++ w) := by
  intro c hc
  rcases List.mem_append.1 hc with h | h
  · exact hv c h
  · exact hw c h

theorem Raw.Bare.spelled {r : Raw} {s : List Char} (h : r.Bare s) : r.Spelled s :=
  ⟨[], s, blank_nil, h, rfl⟩

mutual

/-- Every raw value has a text. -/
theorem Raw.exists_bare : (r : Raw) → ∃ s, r.Bare s
  | .null => ⟨_, rfl⟩
  | .bool true => ⟨_, rfl⟩
  | .bool false => ⟨_, rfl⟩
  | .number _ => ⟨_, rfl⟩
  | .string _ => ⟨_, rfl⟩
  | .array rs => by
    obtain ⟨t, ht⟩ := Raw.exists_items rs true
    exact ⟨_, t, ht, rfl⟩
  | .object ms => by
    obtain ⟨t, ht⟩ := Raw.exists_members ms true
    exact ⟨_, t, ht, rfl⟩

theorem Raw.exists_items : (rs : List Raw) → (first : Bool) → ∃ s, Raw.Items first rs s
  | [], _ => ⟨[], blank_nil⟩
  | r :: rs, first => by
    obtain ⟨t, ht⟩ := Raw.exists_bare r
    obtain ⟨u, hu⟩ := Raw.exists_items rs false
    exact ⟨_, [], [], t, u, blank_nil, blank_nil, ht, hu, rfl⟩

theorem Raw.exists_members : (ms : List (StringSpelling × Raw)) → (first : Bool) →
    ∃ s, Raw.Members first ms s
  | [], _ => ⟨[], blank_nil⟩
  | (k, r) :: ms, first => by
    obtain ⟨t, ht⟩ := Raw.exists_bare r
    obtain ⟨u, hu⟩ := Raw.exists_members ms false
    exact ⟨_, [], [], [], [], t, u, blank_nil, blank_nil, blank_nil, blank_nil, ht, hu, rfl⟩

end

/-- Every raw value has a text that may have blanks around it. -/
theorem Raw.exists_spelled (r : Raw) : ∃ s, r.Spelled s := by
  obtain ⟨s, hs⟩ := r.exists_bare
  exact ⟨s, hs.spelled⟩

/-! ### What stands in front of a value and after it -/

/-- The text ends here, or goes on with a character that ends every word. -/
def Boundary (rest : List Char) : Prop :=
  ∀ c ∈ rest.head?, isSpace c = true ∨ c = ',' ∨ c = ']' ∨ c = '\x7d'

@[simp] theorem boundary_nil : Boundary [] := fun _ h ↦ nomatch h

theorem boundary_cons {c : Char} {s : List Char}
    (h : isSpace c = true ∨ c = ',' ∨ c = ']' ∨ c = '\x7d') : Boundary (c :: s) := by
  rintro d ⟨⟩
  exact h

/-- Blanks end a number, too. -/
theorem Blank.boundary_append {w s : List Char} (hw : Blank w) (hs : Boundary s) :
    Boundary (w ++ s) := by
  cases w with
  | nil => exact hs
  | cons c w => exact boundary_cons (.inl (hw c List.mem_cons_self))

theorem Blank.boundary {w : List Char} (hw : Blank w) : Boundary w := by
  simpa using hw.boundary_append boundary_nil

/-- No character at a boundary is part of a number. -/
theorem Boundary.not_mem {c : Char} {s : List Char} (h : Boundary (c :: s)) :
    isDigit c = false ∧ c ≠ '.' ∧ c ≠ 'e' ∧ c ≠ 'E' := by
  rcases h c rfl with hspace | rfl | rfl | rfl
  · simp only [isSpace, Bool.or_eq_true, beq_iff_eq] at hspace
    rcases hspace with ((rfl | rfl) | rfl) | rfl <;> decide
  · decide
  · decide
  · decide

/-- After an item come blanks, a comma or the closing bracket. -/
theorem Raw.Items.boundary {rs : List Raw} {u s : List Char} (h : Raw.Items false rs u) :
    Boundary (u ++ ']' :: s) := by
  cases rs with
  | nil => exact Blank.boundary_append h (boundary_cons (by decide))
  | cons r rs =>
    obtain ⟨w, w', t, v, hw, -, -, -, rfl⟩ := h
    rw [List.append_assoc]
    exact hw.boundary_append (boundary_cons (by decide))

/-- After a member come blanks, a comma or the closing brace. -/
theorem Raw.Members.boundary {ms : List (StringSpelling × Raw)} {u s : List Char}
    (h : Raw.Members false ms u) : Boundary (u ++ '\x7d' :: s) := by
  cases ms with
  | nil => exact Blank.boundary_append h (boundary_cons (by decide))
  | cons m ms =>
    obtain ⟨w, w', c, c', t, v, hw, -, -, -, -, -, rfl⟩ := h
    rw [List.append_assoc]
    exact hw.boundary_append (boundary_cons (by decide))

/-- Blanks are skipped. -/
theorem Blank.skipSpace_append {w : List Char} (h : Blank w) (s : List Char) :
    skipSpace (w ++ s) = skipSpace s := by
  rw [skipSpace, skipSpace, List.dropWhile_append_of_pos h]

theorem Blank.skipSpace {w : List Char} (h : Blank w) : Json.skipSpace w = [] := by
  simpa [Json.skipSpace] using h.skipSpace_append []

theorem skipSpace_cons {c : Char} (h : isSpace c = false) (s : List Char) :
    skipSpace (c :: s) = c :: s := by
  simp [skipSpace, h]

/-- How the text of a value begins, which is how readers tell the kinds of values apart. -/
def Raw.StartsWith : Raw → Char → Prop
  | .null, c => c = 'n'
  | .bool true, c => c = 't'
  | .bool false, c => c = 'f'
  | .number n, c => if n.negative then c = '-' else isDigit c = true
  | .string _, c => c = '"'
  | .array _, c => c = '['
  | .object _, c => c = '\x7b'

/-- A whole part is not empty. -/
theorem IsWhole.exists_cons {s : List Char} (h : IsWhole s) :
    ∃ c t, s = c :: t ∧ isDigit c = true := by
  obtain ⟨⟨hne, hdigits⟩, -⟩ := h
  cases s with
  | nil => exact absurd rfl hne
  | cons c t => exact ⟨c, t, rfl, hdigits c List.mem_cons_self⟩

theorem NumberSpelling.exists_unsigned_cons (n : NumberSpelling) :
    ∃ c t, n.unsigned = c :: t ∧ isDigit c = true := by
  obtain ⟨c, t, hwhole, hc⟩ := n.isWhole.exists_cons
  exact ⟨c, t ++ n.fraction ++ n.exponent, by simp [unsigned, hwhole], hc⟩

/-- **The first character tells what kind of value follows.** -/
theorem Raw.Bare.exists_cons {r : Raw} {s : List Char} (h : r.Bare s) :
    ∃ c t, s = c :: t ∧ r.StartsWith c := by
  cases r with
  | null => exact ⟨_, _, h, rfl⟩
  | bool b => cases b <;> exact ⟨_, _, h, rfl⟩
  | number n =>
    rw [Raw.Bare, NumberSpelling.chars] at h
    by_cases hn : n.negative
    · rw [if_pos hn] at h
      exact ⟨_, _, h, by simp [StartsWith, hn]⟩
    · rw [if_neg hn] at h
      obtain ⟨c, t, ht, hc⟩ := n.exists_unsigned_cons
      exact ⟨c, t, h.trans ht, by simpa [StartsWith, hn] using hc⟩
  | string k => exact ⟨_, _, h, rfl⟩
  | array rs =>
    obtain ⟨t, -, rfl⟩ := h
    exact ⟨_, _, rfl, rfl⟩
  | object ms =>
    obtain ⟨t, -, rfl⟩ := h
    exact ⟨_, _, rfl, rfl⟩

theorem isSpace_eq_false_of_isDigit {c : Char} (h : isDigit c = true) : isSpace c = false := by
  by_contra hspace
  simp only [Bool.not_eq_false, isSpace, Bool.or_eq_true, beq_iff_eq] at hspace
  rcases hspace with ((rfl | rfl) | rfl) | rfl <;> revert h <;> decide

/-- No value starts with a blank. -/
theorem Raw.StartsWith.isSpace {r : Raw} {c : Char} (h : r.StartsWith c) :
    isSpace c = false := by
  cases r with
  | null => cases h; decide
  | bool b => cases b <;> cases h <;> decide
  | number n =>
    rw [StartsWith] at h
    split at h
    · cases h; decide
    · exact isSpace_eq_false_of_isDigit h
  | string k => cases h; decide
  | array rs => cases h; decide
  | object ms => cases h; decide

/-- Dropping blanks leads to the first word of a value. -/
theorem Raw.Bare.skipSpace {r : Raw} {w s : List Char} (h : r.Bare s) (hw : Blank w)
    (rest : List Char) : Json.skipSpace (w ++ (s ++ rest)) = s ++ rest := by
  obtain ⟨c, t, rfl, hc⟩ := h.exists_cons
  rw [hw.skipSpace_append]
  exact skipSpace_cons hc.isSpace _

/-- Nothing is skipped where a value starts. -/
theorem Raw.Bare.skipSpace_self {r : Raw} {s : List Char} (h : r.Bare s) (rest : List Char) :
    Json.skipSpace (s ++ rest) = s ++ rest :=
  h.skipSpace blank_nil rest

theorem Raw.Bare.length_pos {r : Raw} {s : List Char} (h : r.Bare s) : 0 < s.length := by
  obtain ⟨c, t, rfl, -⟩ := h.exists_cons
  exact Nat.succ_pos _

/-- Every item takes at least one character. -/
theorem Raw.Items.length_le {first : Bool} {rs : List Raw} {s : List Char}
    (h : Raw.Items first rs s) : rs.length ≤ s.length := by
  induction rs generalizing first s with
  | nil => exact Nat.zero_le _
  | cons r rs ih =>
    obtain ⟨w, w', t, u, -, -, ht, hu, rfl⟩ := h
    have hrest := ih hu
    have hitem := ht.length_pos
    simp only [List.length_cons, List.length_append]
    omega

/-- Every member takes at least one character. -/
theorem Raw.Members.length_le {first : Bool} {ms : List (StringSpelling × Raw)} {s : List Char}
    (h : Raw.Members first ms s) : ms.length ≤ s.length := by
  induction ms generalizing first s with
  | nil => exact Nat.zero_le _
  | cons m ms ih =>
    obtain ⟨k, r⟩ := m
    obtain ⟨w, w', c, c', t, u, -, -, -, -, ht, hu, rfl⟩ := h
    have hrest := ih hu
    have hitem := ht.length_pos
    simp only [List.length_cons, List.length_append]
    omega

end Pipework.Json
