import Pipework.Document.Text
import Pipework.Proofs.Json.Printing

/-!
# The two texts of a document

A document is written without blanks or indented, and the texts differ in blanks only: without the
blanks that stand outside strings, the indented text is the canonical one
(`canonicalText_eq_map_prettyText`).

Whether a blank stands in a string is said without the grammar. `dropBlanks` goes through a text
character by character and tells by quotation marks and backslashes where it is. Words and strings
come out of it as they are (`IsPlain.dropBlanks_append`, `dropBlanks_stringText`), and blanks
between them do not come out at all, so whatever blanks a layout adds, the same text is left
(`dropBlanks_chars`).
-/

namespace Pipework

namespace Json

/-! ### Blanks outside strings -/

/-- Where in a text a character stands: outside strings, in a string, or in a string right after the
backslash of an escape. -/
inductive Place where
  | outside
  | inside
  | escaped
deriving DecidableEq, Repr

/-- The place after a character. -/
def Place.next : Place → Char → Place
  | .outside, c => if c = '"' then .inside else .outside
  | .inside, c => if c = '"' then .outside else if c = '\\' then .escaped else .inside
  | .escaped, _ => .inside

/-- Leaves out the blanks that stand outside strings. -/
def dropBlanks : Place → List Char → List Char
  | _, [] => []
  | p, c :: s =>
    if p = .outside ∧ Text.isBlank c then dropBlanks p s else c :: dropBlanks (p.next c) s

/-- The text without the blanks that stand outside strings. -/
def withoutBlanks (text : String) : String :=
  String.ofList (dropBlanks .outside text.toList)

example : withoutBlanks "[ \"a \\\" b\" ,\n 1 ]" = "[\"a \\\" b\",1]" := by decide

/-! ### Words and strings -/

/-- Blanks outside strings are dropped. -/
theorem Blank.dropBlanks_append {w : List Char} (h : Blank w) (s : List Char) :
    dropBlanks .outside (w ++ s) = dropBlanks .outside s := by
  induction w with
  | nil => rfl
  | cons c w ih =>
    obtain ⟨hc, hw⟩ := List.forall_mem_cons.1 h
    have hblank : Text.isBlank c = true := by
      simp only [isSpace, Bool.or_eq_true, beq_iff_eq] at hc
      rcases hc with ((rfl | rfl) | rfl) | rfl <;> decide
    rw [List.cons_append, dropBlanks, if_pos ⟨rfl, hblank⟩, ih hw]

/-- Whether a character is neither a blank nor a quotation mark. -/
def isPlainChar (c : Char) : Bool :=
  c != '"' && !Text.isBlank c

/-- Neither blanks nor quotation marks. -/
def IsPlain (w : List Char) : Prop :=
  w.all isPlainChar = true

/-- A plain character opens no string, so that what follows it is still outside. -/
theorem dropBlanks_plain {c : Char} (h : isPlainChar c = true) (s : List Char) :
    dropBlanks .outside (c :: s) = c :: dropBlanks .outside s := by
  obtain ⟨hquote, hblank⟩ : c ≠ '"' ∧ Text.isBlank c = false := by
    simpa [isPlainChar] using h
  rw [dropBlanks, if_neg (by simp [hblank]), Place.next, if_neg hquote]

/-- Words without blanks and quotation marks are kept. -/
theorem IsPlain.dropBlanks_append {w : List Char} (h : IsPlain w) (s : List Char) :
    dropBlanks .outside (w ++ s) = w ++ dropBlanks .outside s := by
  induction w with
  | nil => rfl
  | cons c w ih =>
    obtain ⟨hc, hw⟩ := Bool.and_eq_true_iff.1 h
    rw [List.cons_append, dropBlanks_plain hc, ih hw]
    rfl

theorem isPlain_cons {c : Char} {w : List Char} (hc : isPlainChar c = true) (hw : IsPlain w) :
    IsPlain (c :: w) :=
  Bool.and_eq_true_iff.2 ⟨hc, hw⟩

theorem IsPlain.append {v w : List Char} (hv : IsPlain v) (hw : IsPlain w) :
    IsPlain (v ++ w) := by
  rw [IsPlain, List.all_append, hv, hw]
  rfl

theorem AreDigits.isPlain {ds : List Char} (h : AreDigits ds) : IsPlain ds := by
  refine List.all_eq_true.2 fun c hc ↦ ?_
  have hdigit := h.2 c hc
  have hquote : c ≠ '"' := (ne_of_isDigit hdigit).2.2.2.1
  have hblank : Text.isBlank c = false := by
    simp only [isDigit, Bool.and_eq_true, decide_eq_true_eq] at hdigit
    have hlow : 48 ≤ c.toNat := hdigit.1
    have hhigh : c.toNat ≤ 57 := hdigit.2
    simp only [Text.isBlank, Bool.or_eq_false_iff, Bool.and_eq_false_iff, decide_eq_false_iff_not,
      beq_eq_false_iff_ne]
    omega
  simp [isPlainChar, hquote, hblank]

/-- A number is spelled without blanks. -/
theorem NumberSpelling.isPlain_chars (n : NumberSpelling) : IsPlain n.chars := by
  have hfraction : IsPlain n.fraction := by
    rcases n.isFraction with h | ⟨ds, hds, h⟩
    · rw [h]
      rfl
    · rw [h]
      exact isPlain_cons rfl hds.isPlain
  have hexponent : IsPlain n.exponent := by
    rcases n.isExponent with h | ⟨mark, sign, ds, hmark, hsign, hds, h⟩
    · rw [h]
      rfl
    · rw [h]
      refine isPlain_cons ?_ (.append ?_ hds.isPlain)
      · rcases hmark with rfl | rfl <;> rfl
      · rcases hsign with rfl | rfl | rfl <;> rfl
  have hunsigned : IsPlain n.unsigned := (n.isWhole.1.isPlain.append hfraction).append hexponent
  rw [NumberSpelling.chars]
  split
  · exact isPlain_cons rfl hunsigned
  · exact hunsigned

/-- A hexadecimal digit neither ends a string nor begins an escape. -/
theorem place_next_of_hexDigit? {c : Char} (h : (hexDigit? c).isSome = true) :
    Place.inside.next c = .inside := by
  have hquote : c ≠ '"' := by
    rintro rfl
    exact absurd h (by decide)
  have hbackslash : c ≠ '\\' := by
    rintro rfl
    exact absurd h (by decide)
  rw [Place.next, if_neg hquote, if_neg hbackslash]

/-- The four digits of an escape are no quotation marks. -/
theorem hexDigit?_of_hexUnit? {a b c d : Char} (h : (hexUnit? a b c d).isSome = true) :
    (hexDigit? a).isSome = true ∧ (hexDigit? b).isSome = true ∧ (hexDigit? c).isSome = true ∧
      (hexDigit? d).isSome = true := by
  obtain ⟨n, hn⟩ := Option.isSome_iff_exists.1 h
  simp only [hexUnit?, Option.bind_eq_bind, Option.bind_eq_some_iff] at hn
  obtain ⟨x, hx, y, hy, z, hz, w, hw, -⟩ := hn
  simp [hx, hy, hz, hw]

theorem dropBlanks_inside (c : Char) (s : List Char) :
    dropBlanks .inside (c :: s) = c :: dropBlanks (Place.inside.next c) s := by
  rw [dropBlanks, if_neg (by simp)]

theorem dropBlanks_escaped (c : Char) (s : List Char) :
    dropBlanks .escaped (c :: s) = c :: dropBlanks .inside s := by
  rw [dropBlanks, if_neg (by simp), Place.next]

/-- What follows a backslash is taken as it is. -/
theorem dropBlanks_backslash (e : Char) (s : List Char) :
    dropBlanks .inside ('\\' :: e :: s) = '\\' :: e :: dropBlanks .inside s := by
  rw [dropBlanks_inside, show Place.inside.next '\\' = .escaped from rfl, dropBlanks_escaped]

/-- **A string comes out whole**, whatever is escaped in it. -/
theorem IsStringBody.dropBlanks_append {b : List Char} (h : IsStringBody b) (s : List Char) :
    dropBlanks .inside (b ++ '"' :: s) = b ++ '"' :: dropBlanks .outside s := by
  induction h with
  | nil => exact dropBlanks_inside '"' s
  | plain quote backslash _ _ ih =>
    rw [List.cons_append, dropBlanks_inside, Place.next, if_neg quote, if_neg backslash, ih]
    rfl
  | escape _ _ ih =>
    rw [List.cons_append, List.cons_append, dropBlanks_backslash, ih]
    rfl
  | unicode digits _ ih =>
    obtain ⟨ha, hb, hc, hd⟩ := hexDigit?_of_hexUnit? digits
    simp only [List.cons_append, dropBlanks_backslash]
    simp only [dropBlanks_inside, place_next_of_hexDigit? ha, place_next_of_hexDigit? hb,
      place_next_of_hexDigit? hc, place_next_of_hexDigit? hd, ih]

/-- **A string is kept as it is**, with the blanks inside, and ends where it should. -/
theorem dropBlanks_stringText (t : String) (s : List Char) :
    dropBlanks .outside (stringText t ++ s) = stringText t ++ dropBlanks .outside s := by
  have hbody := (StringSpelling.ofString t).isBody.dropBlanks_append s
  rw [← quoted_ofString, StringSpelling.quoted, List.cons_append, List.cons_append,
    List.append_assoc, dropBlanks, if_neg (by decide), List.singleton_append,
    show Place.outside.next '"' = .inside from rfl, hbody]
  simp

/-! ### Values -/

/-- A double is written without blanks. -/
theorem isPlain_doubleText (x : Double) : IsPlain (doubleText x) := by
  by_cases h : x.isFinite
  · rw [← chars_ofDouble h]
    exact NumberSpelling.isPlain_chars _
  · rw [doubleText, if_pos (by simpa using h)]
    rfl

theorem isPlain_separator (first : Bool) : IsPlain (separator first) := by
  cases first <;> rfl

mutual

/-- **Whatever blanks a layout adds, they are left out again.** -/
theorem dropBlanks_chars {l : Layout} (hl : l.IsBlank) (level : Nat) : (j : Json) →
    (s : List Char) → dropBlanks .outside (chars l level j ++ s) =
      chars .compact level j ++ dropBlanks .outside s
  | .null, s => IsPlain.dropBlanks_append (w := "null".toList) rfl s
  | .bool true, s => IsPlain.dropBlanks_append (w := "true".toList) rfl s
  | .bool false, s => IsPlain.dropBlanks_append (w := "false".toList) rfl s
  | .int n, s => by
    show dropBlanks .outside (intText n ++ s) = intText n ++ _
    rw [← chars_ofInt]
    exact (NumberSpelling.isPlain_chars _).dropBlanks_append s
  | .double x, s => (isPlain_doubleText x).dropBlanks_append s
  | .string t, s => dropBlanks_stringText t s
  | .array [], s => IsPlain.dropBlanks_append (w := ['[', ']']) rfl s
  | .array (j :: js), s => by
    simp only [chars, List.cons_append, List.append_assoc, List.nil_append,
      dropBlanks_plain (c := '[') rfl, dropBlanks_itemChars hl (level + 1) true (j :: js),
      (hl.line level).dropBlanks_append, dropBlanks_plain (c := ']') rfl]
    rfl
  | .object [], s => IsPlain.dropBlanks_append (w := ['\x7b', '\x7d']) rfl s
  | .object (m :: ms), s => by
    simp only [chars, List.cons_append, List.append_assoc, List.nil_append,
      dropBlanks_plain (c := '\x7b') rfl, dropBlanks_memberChars hl (level + 1) true (m :: ms),
      (hl.line level).dropBlanks_append, dropBlanks_plain (c := '\x7d') rfl]
    rfl

/-- Only the compact form is left of the items of an array. -/
theorem dropBlanks_itemChars {l : Layout} (hl : l.IsBlank) (level : Nat) (first : Bool) :
    (js : List Json) → (s : List Char) → dropBlanks .outside (itemChars l level first js ++ s) =
      itemChars .compact level first js ++ dropBlanks .outside s
  | [], _ => rfl
  | j :: js, s => by
    simp only [itemChars, List.append_assoc, (isPlain_separator first).dropBlanks_append,
      (hl.line level).dropBlanks_append, dropBlanks_chars hl level j,
      dropBlanks_itemChars hl level false js]
    rfl

/-- Only the compact form is left of the members of an object. -/
theorem dropBlanks_memberChars {l : Layout} (hl : l.IsBlank) (level : Nat) (first : Bool) :
    (ms : List (String × Json)) → (s : List Char) →
      dropBlanks .outside (memberChars l level first ms ++ s) =
        memberChars .compact level first ms ++ dropBlanks .outside s
  | [], _ => rfl
  | (k, j) :: ms, s => by
    simp only [memberChars, List.append_assoc, List.cons_append,
      (isPlain_separator first).dropBlanks_append, (hl.line level).dropBlanks_append,
      dropBlanks_stringText, dropBlanks_plain (c := ':') rfl, hl.gap.dropBlanks_append,
      dropBlanks_chars hl level j, dropBlanks_memberChars hl level false ms]
    rfl

end

/-- **The pretty form without its blanks is the compact form.** -/
theorem withoutBlanks_pretty (j : Json) : withoutBlanks j.pretty = j.compact := by
  have hchars := dropBlanks_chars Layout.isBlank_indented 0 j []
  rw [List.append_nil] at hchars
  rw [withoutBlanks, pretty, String.toList_ofList, hchars, dropBlanks, List.append_nil, compact]

end Json

/-- **The texts of a document differ in blanks only.** One is refused exactly if the other is, for
the same reason, and without the blanks outside its strings the indented text is the canonical
one. -/
theorem Document.canonicalText_eq_map_prettyText (d : Document) :
    d.canonicalText = d.prettyText.map Json.withoutBlanks := by
  rw [canonicalText, prettyText]
  rcases d.checkFinite with e | ⟨⟩
  · rfl
  · exact congrArg Except.ok (Json.withoutBlanks_pretty d.toJson).symm

end Pipework
