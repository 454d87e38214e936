import Pipework.Proofs.Correspondence
import Pipework.Proofs.Json.Numerals

/-!
# Written trees

The text that is written for a tree, compact or indented, is a text of one raw value, `Json.toRaw`
(`isText_compact`, `isText_pretty`): the two differ in blanks only. Strings are read back from it
whatever they contain (`decode?_ofString`).

Two things can keep a tree from being read back: brackets that are nested too deep, and doubles
whose text is read as another double. `Rereadable` excludes both, and for trees in normal form that
is exactly what reading back needs (`reads_toRaw_iff`).
-/

namespace Pipework.Json

/-! ### Strings -/

/-- Control characters are escaped by units that are no surrogates. -/
theorem hexUnit?_hexChar : ∀ n < 0x20,
    hexUnit? '0' '0' (hexChar (n / 16)) (hexChar (n % 16)) = some n ∧
      isLowSurrogate n = false ∧ isHighSurrogate n = false := by
  decide

/-- A character is escaped by a letter or by four digits, or it stands for itself. -/
theorem escapeChar_cases (c : Char) :
    (∃ e, escaped? e = some c ∧ escapeChar c = ['\\', e]) ∨
      (c.toNat < 0x20 ∧ escapeChar c =
        ['\\', 'u', '0', '0', hexChar (c.toNat / 16), hexChar (c.toNat % 16)]) ∨
      (c ≠ '"' ∧ c ≠ '\\' ∧ ¬ c.toNat < 0x20 ∧ escapeChar c = [c]) := by
  rw [escapeChar]
  by_cases hquote : c = '"'
  · exact .inl ⟨'"', by rw [hquote]; rfl, if_pos hquote⟩
  rw [if_neg hquote]
  by_cases hbackslash : c = '\\'
  · exact .inl ⟨'\\', by rw [hbackslash]; rfl, if_pos hbackslash⟩
  rw [if_neg hbackslash]
  split
  next h => exact .inl ⟨'b', by rw [h]; rfl, rfl⟩
  split
  next h => exact .inl ⟨'f', by rw [h]; rfl, rfl⟩
  split
  next h => exact .inl ⟨'n', by rw [h]; rfl, rfl⟩
  split
  next h => exact .inl ⟨'r', by rw [h]; rfl, rfl⟩
  split
  next h => exact .inl ⟨'t', by rw [h]; rfl, rfl⟩
  split
  next hcontrol => exact .inr (.inl ⟨hcontrol, rfl⟩)
  next hcontrol => exact .inr (.inr ⟨hquote, hbackslash, hcontrol, rfl⟩)

/-- An escaped character is read as the character. -/
theorem stringBody_escapeChar (c : Char) (s : List Char) :
    stringBody (escapeChar c ++ s) = push c (stringBody s) := by
  rcases escapeChar_cases c with ⟨e, he, htext⟩ | ⟨hcontrol, htext⟩ |
    ⟨hquote, hbackslash, hcontrol, htext⟩
  · rw [htext]
    exact stringBody_escape he
  · obtain ⟨hunit, hlow, hhigh⟩ := hexUnit?_hexChar c.toNat hcontrol
    rw [htext]
    simp only [List.cons_append, List.nil_append]
    rw [stringBody_unit hunit (by simp [hlow]) (by simp [hhigh]), Char.ofNat_toNat]
  · rw [htext]
    exact stringBody_plain hquote hbackslash hcontrol

/-- An escaped character may stand in a string. -/
theorem IsStringBody.escapeChar_append (c : Char) {s : List Char} (h : IsStringBody s) :
    IsStringBody (escapeChar c ++ s) := by
  rcases escapeChar_cases c with ⟨e, he, htext⟩ | ⟨hcontrol, htext⟩ |
    ⟨hquote, hbackslash, hcontrol, htext⟩
  · rw [htext]
    exact .escape (by rw [he]; rfl) h
  · rw [htext]
    exact .unicode (by rw [(hexUnit?_hexChar c.toNat hcontrol).1]; rfl) h
  · rw [htext]
    exact .plain hquote hbackslash hcontrol h

theorem isStringBody_flatMap_escapeChar (cs : List Char) :
    IsStringBody (cs.flatMap escapeChar) := by
  induction cs with
  | nil => exact .nil
  | cons c cs ih =>
    rw [List.flatMap_cons]
    exact ih.escapeChar_append c

/-- The spelling of a text. -/
def StringSpelling.ofString (s : String) : StringSpelling :=
  ⟨s.toList.flatMap escapeChar, isStringBody_flatMap_escapeChar _⟩

theorem quoted_ofString (s : String) : (StringSpelling.ofString s).quoted = stringText s := rfl

/-- **A text is read back from its escaped form**, up to the closing quotation mark. -/
theorem stringBody_flatMap_escapeChar (cs s : List Char) :
    stringBody (cs.flatMap escapeChar ++ '"' :: s) = .ok (cs, s) := by
  induction cs with
  | nil => exact stringBody_quote s
  | cons c cs ih =>
    rw [List.flatMap_cons, List.append_assoc, stringBody_escapeChar, ih]
    rfl

/-- **Every text is read back**, whatever characters it has. -/
@[simp] theorem decode?_ofString (s : String) : (StringSpelling.ofString s).decode? = some s := by
  rw [StringSpelling.decode?, StringSpelling.ofString, stringBody_flatMap_escapeChar]
  simp [Except.toOption]

/-! ### Trees -/

mutual

/-- The raw value of which texts are written. -/
def toRaw : Json → Raw
  | .null => .null
  | .bool b => .bool b
  | .int n => .number (.ofInt n)
  | .double x => if x.isFinite then .number (.ofDouble x) else .null
  | .string s => .string (.ofString s)
  | .array js => .array (rawItems js)
  | .object ms => .object (rawMembers ms)

/-- The raw values of items. -/
def rawItems : List Json → List Raw
  | [] => []
  | j :: js => toRaw j :: rawItems js

/-- The raw values of members. -/
def rawMembers : List (String × Json) → List (StringSpelling × Raw)
  | [] => []
  | (k, j) :: ms => (.ofString k, toRaw j) :: rawMembers ms

end

theorem rawItems_eq_map (js : List Json) : rawItems js = js.map toRaw := by
  induction js with
  | nil => rfl
  | cons j js ih => rw [rawItems, ih, List.map_cons]

/-- A layout that only adds blanks. -/
structure Layout.IsBlank (l : Layout) : Prop where
  line : ∀ level, Blank (l.line level)
  gap : Blank l.gap

theorem Layout.isBlank_compact : Layout.compact.IsBlank :=
  ⟨fun _ ↦ blank_nil, blank_nil⟩

theorem Layout.isBlank_indented : Layout.indented.IsBlank := by
  refine ⟨fun level c hc ↦ ?_, fun c hc ↦ ?_⟩
  · rcases List.mem_cons.1 hc with rfl | hc
    · decide
    · rw [List.eq_of_mem_replicate hc]
      decide
  · rw [List.mem_singleton.1 hc]
    decide

mutual

/-- **What is written for a tree is a text of its raw value.** -/
theorem bare_chars {l : Layout} (hl : l.IsBlank) (level : Nat) : (j : Json) →
    (toRaw j).Bare (chars l level j)
  | .null => rfl
  | .bool true => rfl
  | .bool false => rfl
  | .int n => (chars_ofInt n).symm
  | .double x => by
    show (if x.isFinite then Raw.number (.ofDouble x) else .null).Bare (doubleText x)
    by_cases h : x.isFinite
    · rw [if_pos h]
      exact (chars_ofDouble h).symm
    · rw [if_neg h, doubleText, if_pos (by simpa using h)]
      rfl
  | .string s => rfl
  | .array [] => ⟨[], blank_nil, rfl⟩
  | .array (j :: js) => ⟨_, items_itemChars hl (level + 1) true (j :: js) (hl.line level), rfl⟩
  | .object [] => ⟨[], blank_nil, rfl⟩
  | .object (m :: ms) => ⟨_, members_memberChars hl (level + 1) true (m :: ms) (hl.line level), rfl⟩

/-- Items are written with commas between them, and only blanks beside. -/
theorem items_itemChars {l : Layout} (hl : l.IsBlank) (level : Nat) (first : Bool) :
    (js : List Json) → {w : List Char} → Blank w →
      Raw.Items first (rawItems js) (itemChars l level first js ++ w)
  | [], _, hw => hw
  | j :: js, w, hw => ⟨[], l.line level, _, _, blank_nil, hl.line level, bare_chars hl level j,
      items_itemChars hl level false js hw, by simp [itemChars]⟩

/-- Members are written with a colon after the name. -/
theorem members_memberChars {l : Layout} (hl : l.IsBlank) (level : Nat) (first : Bool) :
    (ms : List (String × Json)) → {w : List Char} → Blank w →
      Raw.Members first (rawMembers ms) (memberChars l level first ms ++ w)
  | [], _, hw => hw
  | (k, j) :: ms, w, hw => ⟨[], l.line level, [], l.gap, _, _, blank_nil, hl.line level, blank_nil,
      hl.gap, bare_chars hl level j, members_memberChars hl level false ms hw, by
        simp [memberChars, quoted_ofString]⟩

end

/-- **What is written of a tree is a text for it**, in every layout of blanks. -/
theorem isText_chars {l : Layout} (hl : l.IsBlank) (j : Json) :
    j.toRaw.IsText (String.ofList (j.chars l 0)) :=
  ⟨_, [], (bare_chars hl 0 j).spelled, blank_nil, by simp⟩

theorem isText_compact (j : Json) : j.toRaw.IsText j.compact :=
  isText_chars Layout.isBlank_compact j

theorem isText_pretty (j : Json) : j.toRaw.IsText j.pretty :=
  isText_chars Layout.isBlank_indented j

/-! ### What keeps a tree from being read back -/

mutual

/-- The number of brackets that are open at the deepest place. -/
def depth : Json → Nat
  | .array js => itemDepth js + 1
  | .object ms => memberDepth ms + 1
  | _ => 0

/-- The depth of the deepest item. -/
def itemDepth : List Json → Nat
  | [] => 0
  | j :: js => max (depth j) (itemDepth js)

/-- The depth of the deepest member. -/
def memberDepth : List (String × Json) → Nat
  | [] => 0
  | (_, j) :: ms => max (depth j) (memberDepth ms)

end

mutual

/-- The doubles in a tree, as they stand in its text. -/
def doubles : Json → List Double
  | .double x => [x]
  | .array js => itemDoubles js
  | .object ms => memberDoubles ms
  | _ => []

/-- The doubles in items. -/
def itemDoubles : List Json → List Double
  | [] => []
  | j :: js => doubles j ++ itemDoubles js

/-- The doubles in members. -/
def memberDoubles : List (String × Json) → List Double
  | [] => []
  | (_, j) :: ms => doubles j ++ memberDoubles ms

end

end Json

/-- The double is read back from its text. -/
def Double.Rereads (x : Double) : Prop :=
  Json.parse (Json.doubleText x) = .ok (.double x)

/-- Whether a double is read back can be computed. -/
theorem Double.rereads_iff_match {x : Double} :
    x.Rereads ↔ (match Json.parse (Json.doubleText x) with
      | .ok (.double y) => decide (y = x)
      | _ => false) = true := by
  rw [Rereads]
  split
  next y h => simp [h]
  next h => exact iff_of_false (h x) Bool.false_ne_true

instance (x : Double) : Decidable x.Rereads :=
  decidable_of_iff _ Double.rereads_iff_match.symm

/-- A double that is read back is finite: in place of others stands `null`. -/
theorem Double.Rereads.isFinite {x : Double} (h : x.Rereads) : x.isFinite = true := by
  by_contra hinfinite
  rw [Rereads, Json.doubleText, if_pos (by simpa using hinfinite)] at h
  cases h

namespace Json

/-- The brackets of the tree fit into `room`, and its doubles are read back. -/
def Rereadable (room : Nat) (j : Json) : Prop :=
  j.depth ≤ room ∧ ∀ x ∈ j.doubles, x.Rereads

/-- Items are read back if none is too deep and all doubles are. -/
theorem rereadable_items_iff {room : Nat} {js : List Json} :
    (itemDepth js ≤ room ∧ ∀ x ∈ itemDoubles js, x.Rereads) ↔ ∀ j ∈ js, Rereadable room j := by
  induction js with
  | nil => simp [itemDepth, itemDoubles]
  | cons j js ih =>
    rw [List.forall_mem_cons, ← ih, itemDepth, itemDoubles, List.forall_mem_append, Nat.max_le,
      Rereadable]
    exact and_and_and_comm

theorem rereadable_members_iff {room : Nat} {ms : List (String × Json)} :
    (memberDepth ms ≤ room ∧ ∀ x ∈ memberDoubles ms, x.Rereads) ↔
      ∀ m ∈ ms, Rereadable room m.2 := by
  induction ms with
  | nil => simp [memberDepth, memberDoubles]
  | cons m ms ih =>
    obtain ⟨k, j⟩ := m
    rw [List.forall_mem_cons, ← ih, memberDepth, memberDoubles, List.forall_mem_append, Nat.max_le,
      Rereadable]
    exact and_and_and_comm

/-- An array is read back if its items are, one level deeper. -/
theorem rereadable_array_iff {room : Nat} {js : List Json} :
    Rereadable room (.array js) ↔ ∃ inner, room = inner + 1 ∧ ∀ j ∈ js, Rereadable inner j := by
  cases room with
  | zero => simp [Rereadable, depth]
  | succ room =>
    rw [Rereadable, depth, doubles, Nat.add_le_add_iff_right, rereadable_items_iff]
    simp

/-- An object is read back if its members are, one level deeper. -/
theorem rereadable_object_iff {room : Nat} {ms : List (String × Json)} :
    Rereadable room (.object ms) ↔
      ∃ inner, room = inner + 1 ∧ ∀ m ∈ ms, Rereadable inner m.2 := by
  cases room with
  | zero => simp [Rereadable, depth]
  | succ room =>
    rw [Rereadable, depth, doubles, Nat.add_le_add_iff_right, rereadable_members_iff]
    simp

/-- The text of a finite double is read as its spelling is. -/
theorem rereads_iff {x : Double} (h : x.isFinite = true) :
    x.Rereads ↔ (NumberSpelling.ofDouble x).value? = some (.double x) := by
  have htext : (Raw.number (.ofDouble x)).IsText (String.ofList (doubleText x)) :=
    ⟨_, [], Raw.Bare.spelled (chars_ofDouble h).symm, blank_nil, by simp⟩
  have hread := (uniform_readValue maxDepth).whole_eq_ok_iff htext (a := .double x)
  rw [String.toList_ofList] at hread
  rw [Double.Rereads, parse, hread, (recognizes_readValue maxDepth).reads_iff]
  simp only [ReadsTree, Raw.found?, Option.map_eq_some_iff]
  constructor
  · rintro ⟨_, ⟨v, hv, rfl⟩, hx⟩
    cases v with
    | int n => cases hx
    | double y =>
      cases hx
      exact hv
  · intro hv
    exact ⟨_, ⟨_, hv, rfl⟩, rfl⟩

/-! ### Trees in normal form -/

/-- Members that are in key order stay where they are. -/
theorem normalizeMembers_of_pairwise {ms done : List (String × Json)}
    (h : (done ++ ms).Pairwise fun a b ↦ a.1 < b.1) :
    normalizeMembers done ms = done ++ ms.map fun m ↦ (m.1, normalize m.2) := by
  induction ms generalizing done with
  | nil => simp [normalizeMembers]
  | cons m ms ih =>
    obtain ⟨k, j⟩ := m
    obtain ⟨-, -, hlt⟩ := List.pairwise_append.1 h
    rw [normalizeMembers, Dict.insertEntry_of_forall_lt fun e he ↦ hlt e he _ List.mem_cons_self,
      ih, List.map_cons, List.append_assoc, List.singleton_append]
    -- The new entry has the name of the member it is made of, so the names are the same as before.
    have hnames : (done ++ [(k, j.normalize)] ++ ms).map Prod.fst =
        (done ++ (k, j) :: ms).map Prod.fst := by simp
    rw [← List.pairwise_map (f := Prod.fst)] at h ⊢
    rwa [hnames]

/-- Members in key order are normalized one by one. -/
theorem normalizeMembers_nil_of_pairwise {ms : List (String × Json)}
    (h : ms.Pairwise fun a b ↦ a.1 < b.1) :
    normalizeMembers [] ms = ms.map fun m ↦ (m.1, normalize m.2) :=
  normalizeMembers_of_pairwise h

/-- An object is normal if its members are, and in key order. -/
theorem isNormal_object_iff {ms : List (String × Json)} :
    isNormal (.object ms) = true ↔ haveNormal ms = true ∧ ms.Pairwise fun a b ↦ a.1 < b.1 := by
  rw [isNormal, Bool.and_eq_true, decide_eq_true_eq]

theorem areNormal_cons_iff {j : Json} {js : List Json} :
    areNormal (j :: js) = true ↔ isNormal j = true ∧ areNormal js = true := by
  rw [areNormal, Bool.and_eq_true]

theorem haveNormal_cons_iff {k : String} {j : Json} {ms : List (String × Json)} :
    haveNormal ((k, j) :: ms) = true ↔ isNormal j = true ∧ haveNormal ms = true := by
  rw [haveNormal, Bool.and_eq_true]

mutual

/-- A tree in normal form is its own normal form. -/
theorem normalize_of_isNormal : (j : Json) → isNormal j = true → normalize j = j
  | .null, _ => rfl
  | .bool _, _ => rfl
  | .int _, h => if_pos h
  | .double _, h => if_pos h
  | .string _, _ => rfl
  | .array js, h => by rw [normalize, normalizeItems_of_areNormal js h]
  | .object ms, h => by
    obtain ⟨hvalues, hsorted⟩ := isNormal_object_iff.1 h
    rw [normalize, normalizeMembers_nil_of_pairwise hsorted, map_normalize_of_haveNormal ms hvalues]

theorem normalizeItems_of_areNormal : (js : List Json) → areNormal js = true →
    normalizeItems js = js
  | [], _ => rfl
  | j :: js, h => by
    obtain ⟨hj, hjs⟩ := areNormal_cons_iff.1 h
    rw [normalizeItems, normalize_of_isNormal j hj, normalizeItems_of_areNormal js hjs]

theorem map_normalize_of_haveNormal : (ms : List (String × Json)) → haveNormal ms = true →
    (ms.map fun m ↦ (m.1, normalize m.2)) = ms
  | [], _ => rfl
  | (k, j) :: ms, h => by
    obtain ⟨hj, hms⟩ := haveNormal_cons_iff.1 h
    rw [List.map_cons, normalize_of_isNormal j hj, map_normalize_of_haveNormal ms hms]

end

/-- What is read of members in key order is in key order. -/
theorem ReadsMembers.pairwise_of_pairwise {read : List Char → Except Fault (Read Json)}
    {ms ms' : List (String × Json)} (h : ReadsMembers read (ms.map fun m ↦ (m.1, toRaw m.2)) ms')
    (hsorted : ms.Pairwise fun a b ↦ a.1 < b.1) : ms'.Pairwise fun a b ↦ a.1 < b.1 := by
  have hnames : ms'.map Prod.fst = ms.map Prod.fst := by
    rw [← map_eq_of_forall₂ h fun n j hnj ↦ hnj.1.symm, List.map_map]
    rfl
  rw [← List.pairwise_map (f := Prod.fst)] at hsorted ⊢
  rwa [hnames]

/-- The names of members are those that were written. -/
theorem named_rawMembers_iff {ms : List (String × Json)} {ns : List (String × Raw)} :
    Named (rawMembers ms) ns ↔ ns = ms.map fun m ↦ (m.1, toRaw m.2) := by
  induction ms generalizing ns with
  | nil => simp [Named, rawMembers]
  | cons m ms ih =>
    obtain ⟨k, j⟩ := m
    rw [Named, rawMembers, List.forall₂_cons_left_iff]
    constructor
    · rintro ⟨⟨name, r⟩, ns', ⟨hname, rfl⟩, hns, rfl⟩
      obtain rfl : k = name := Option.some.inj ((decode?_ofString k).symm.trans hname)
      rw [ih.1 hns, List.map_cons]
    · rintro rfl
      exact ⟨_, _, ⟨decode?_ofString k, rfl⟩, ih.2 rfl, rfl⟩

/-- A double is read as some double. That it is the same one is what `Double.Rereads` says. -/
theorem reads_double_iff {room : Nat} {x : Double} (h : x.isFinite = true) {j : Json} :
    Reads (readValue room) (toRaw (.double x)) j ↔
      ∃ y, (NumberSpelling.ofDouble x).value? = some (.double y) ∧ j = .double y := by
  rw [(recognizes_readValue room).reads_iff, toRaw, if_pos h]
  simp only [ReadsTree, Raw.found?, Option.map_eq_some_iff]
  constructor
  · rintro ⟨_, ⟨v, hv, rfl⟩, rfl⟩
    cases v with
    | int n => exact absurd hv (value?_ofDouble_ne_int x n)
    | double y => exact ⟨y, hv, rfl⟩
  · rintro ⟨y, hy, rfl⟩
    exact ⟨_, ⟨_, hy, rfl⟩, rfl⟩

/-- Integers are read back. -/
theorem reads_int_iff {room : Nat} {n : Int} (h : fitsWord n = true) {j : Json} :
    Reads (readValue room) (toRaw (.int n)) j ↔ j = .int n := by
  rw [(recognizes_readValue room).reads_iff, toRaw]
  simp [ReadsTree, Raw.found?, value?_ofInt h, found, ofNumber, Found.toJson]

theorem reads_string_iff {room : Nat} {s : String} {j : Json} :
    Reads (readValue room) (toRaw (.string s)) j ↔ j = .string s := by
  rw [(recognizes_readValue room).reads_iff, toRaw]
  simp [ReadsTree, Raw.found?, Found.toJson]

mutual

/-- **A tree in normal form is read back exactly if it is rereadable.** -/
theorem reads_toRaw_iff : (j : Json) → isNormal j = true → (room : Nat) →
    (Reads (readValue room) (toRaw j) j ↔ Rereadable room j)
  | .null, _, room => by
    rw [(recognizes_readValue room).reads_iff]
    simp [toRaw, ReadsTree, Raw.found?, Found.toJson, Rereadable, depth, doubles]
  | .bool b, _, room => by
    rw [(recognizes_readValue room).reads_iff]
    simp [toRaw, ReadsTree, Raw.found?, Found.toJson, Rereadable, depth, doubles]
  | .int n, h, room => by
    rw [reads_int_iff h]
    simp [Rereadable, depth, doubles]
  | .double x, h, room => by
    rw [reads_double_iff h]
    simp [Rereadable, depth, doubles, rereads_iff (show x.isFinite = true from h)]
  | .string s, _, room => by
    rw [reads_string_iff]
    simp [Rereadable, depth, doubles]
  | .array js, h, room => by
    rw [(recognizes_readValue room).reads_iff, rereadable_array_iff]
    simp only [toRaw, ReadsTree, Json.array.injEq]
    constructor
    · rintro ⟨inner, js', hroom, hjs, rfl⟩
      exact ⟨inner, hroom, (reads_rawItems_iff js h inner).1 hjs⟩
    · rintro ⟨inner, hroom, hjs⟩
      exact ⟨inner, js, hroom, (reads_rawItems_iff js h inner).2 hjs, rfl⟩
  | .object ms, h, room => by
    obtain ⟨hvalues, -⟩ := isNormal_object_iff.1 h
    rw [(recognizes_readValue room).reads_iff, rereadable_object_iff]
    simp only [toRaw, ReadsTree, named_rawMembers_iff, Json.object.injEq]
    constructor
    · rintro ⟨inner, ns, ms', hroom, rfl, hms, rfl⟩
      exact ⟨inner, hroom, (reads_rawMembers_iff ms hvalues inner).1 hms⟩
    · rintro ⟨inner, hroom, hms⟩
      exact ⟨inner, _, ms, hroom, rfl, (reads_rawMembers_iff ms hvalues inner).2 hms, rfl⟩

/-- Items are read back one by one. -/
theorem reads_rawItems_iff : (js : List Json) → areNormal js = true → (room : Nat) →
    (List.Forall₂ (Reads (readValue room)) (rawItems js) js ↔ ∀ j ∈ js, Rereadable room j)
  | [], _, room => by simp [rawItems]
  | j :: js, h, room => by
    obtain ⟨hj, hjs⟩ := areNormal_cons_iff.1 h
    rw [rawItems, List.forall₂_cons, List.forall_mem_cons, reads_toRaw_iff j hj room,
      reads_rawItems_iff js hjs room]

/-- Members are read back one by one. -/
theorem reads_rawMembers_iff : (ms : List (String × Json)) → haveNormal ms = true →
    (room : Nat) → (ReadsMembers (readValue room) (ms.map fun m ↦ (m.1, toRaw m.2)) ms ↔
      ∀ m ∈ ms, Rereadable room m.2)
  | [], _, room => by simp [ReadsMembers]
  | (k, j) :: ms, h, room => by
    obtain ⟨hj, hms⟩ := haveNormal_cons_iff.1 h
    have hrest := reads_rawMembers_iff ms hms room
    rw [ReadsMembers] at hrest ⊢
    rw [List.map_cons, List.forall₂_cons, List.forall_mem_cons, reads_toRaw_iff j hj room, hrest]
    simp

end

mutual

/-- If what is read has the tree as its normal form, then it is the tree. -/
theorem eq_of_normalize_eq : (j : Json) → isNormal j = true → {room : Nat} → {j' : Json} →
    Reads (readValue room) (toRaw j) j' → normalize j' = j → j' = j
  | .null, _, room, j', h, _ => by
    simpa [(recognizes_readValue room).reads_iff, toRaw, ReadsTree, Raw.found?, Found.toJson]
      using h
  | .bool b, _, room, j', h, _ => by
    simpa [(recognizes_readValue room).reads_iff, toRaw, ReadsTree, Raw.found?, Found.toJson]
      using h
  | .int n, hn, room, j', h, _ => (reads_int_iff hn).1 h
  | .double x, hx, room, j', h, heq => by
    obtain ⟨y, -, rfl⟩ := (reads_double_iff hx).1 h
    rw [normalize] at heq
    split at heq
    · exact heq
    · cases heq
  | .string s, _, room, j', h, _ => reads_string_iff.1 h
  | .array js, hjs, room, j', h, heq => by
    rw [(recognizes_readValue room).reads_iff, toRaw, ReadsTree] at h
    obtain ⟨inner, js', -, hread, rfl⟩ := h
    rw [normalize, Json.array.injEq] at heq
    rw [eq_of_normalizeItems_eq js hjs hread heq]
  | .object ms, hms, room, j', h, heq => by
    obtain ⟨hvalues, hsorted⟩ := isNormal_object_iff.1 hms
    rw [(recognizes_readValue room).reads_iff, toRaw, ReadsTree] at h
    obtain ⟨inner, ns, ms', -, hns, hread, rfl⟩ := h
    rw [named_rawMembers_iff.1 hns] at hread
    rw [normalize, Json.object.injEq, normalizeMembers_nil_of_pairwise
      (hread.pairwise_of_pairwise hsorted)] at heq
    rw [eq_of_map_normalize_eq ms hvalues hread heq]

/-- Items that are normal once they are read have been read as they were written. -/
theorem eq_of_normalizeItems_eq : (js : List Json) → areNormal js = true → {room : Nat} →
    {js' : List Json} → List.Forall₂ (Reads (readValue room)) (rawItems js) js' →
    normalizeItems js' = js → js' = js
  | [], _, _, _, .nil, _ => rfl
  | j :: js, h, _, j' :: js', .cons hj hjs, heq => by
    obtain ⟨hnormal, hnormals⟩ := areNormal_cons_iff.1 h
    rw [normalizeItems, List.cons.injEq] at heq
    rw [eq_of_normalize_eq j hnormal hj heq.1, eq_of_normalizeItems_eq js hnormals hjs heq.2]

/-- Members that are normal once they are read have been read as they were written. -/
theorem eq_of_map_normalize_eq : (ms : List (String × Json)) → haveNormal ms = true →
    {room : Nat} → {ms' : List (String × Json)} →
    ReadsMembers (readValue room) (ms.map fun m ↦ (m.1, toRaw m.2)) ms' →
    (ms'.map fun m ↦ (m.1, normalize m.2)) = ms → ms' = ms
  | [], _, _, _, .nil, _ => rfl
  | (k, j) :: ms, h, _, (k', j') :: ms', .cons hm hms, heq => by
    obtain ⟨hnormal, hnormals⟩ := haveNormal_cons_iff.1 h
    rw [List.map_cons, List.cons.injEq, Prod.mk.injEq] at heq
    obtain ⟨⟨rfl, hvalue⟩, hrest⟩ := heq
    obtain rfl : j' = j := eq_of_normalize_eq j hnormal hm.2 hvalue
    obtain rfl := eq_of_map_normalize_eq ms hnormals hms hrest
    rfl

end

end Json
end Pipework
