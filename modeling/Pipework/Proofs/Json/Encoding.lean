import Mathlib.Data.List.Perm.Basic
import Pipework.Proofs.Json.Printing
import Pipework.Proofs.Json.Rearranging

/-!
# Encodings of a tree

A tree has many texts. Blanks, the order of members and the spelling of strings are free, and a
number may be written in any way that is read as it (`Encodes`, `IsEncoding`). The texts that are
written for a tree in normal form, compact or indented, are among them (`isEncoding_compact`,
`isEncoding_pretty`).

What is read of any of them need not be the tree, since its members stand in another order. Its
normal form is the tree (`exists_parse_of_isEncoding`), if the brackets are not nested too deep and
the doubles are read back.
-/

namespace Pipework.Json

/-! ### What is read of a raw value -/

/-- A number is read as the value for which it is spelled. -/
theorem reads_number_iff {room : Nat} {k : NumberSpelling} {j : Json} :
    Reads (readValue room) (.number k) j ↔ ∃ x, k.value? = some x ∧ j = ofNumber x := by
  rw [(recognizes_readValue room).reads_iff, readsTree_of_not_isBracket rfl]
  constructor
  · rintro ⟨got, hgot, rfl⟩
    obtain ⟨x, hx, rfl⟩ := Option.map_eq_some_iff.1 hgot
    exact ⟨x, hx, by cases x <;> rfl⟩
  · rintro ⟨x, hx, rfl⟩
    exact ⟨found (ofNumber x), Option.map_eq_some_iff.2 ⟨x, hx, rfl⟩, by cases x <;> rfl⟩

/-- A string is read as the text for which it is spelled. -/
theorem reads_spelling_iff {room : Nat} {k : StringSpelling} {s : String}
    (hk : k.decode? = some s) {j : Json} :
    Reads (readValue room) (.string k) j ↔ j = .string s := by
  rw [(recognizes_readValue room).reads_iff, readsTree_of_not_isBracket rfl, Raw.found?, hk]
  simp [Found.toJson]

/-- An array is read item by item, in less room. -/
theorem reads_items_iff {room : Nat} {rs : List Raw} {j : Json} :
    Reads (readValue (room + 1)) (.array rs) j ↔
      ∃ js, List.Forall₂ (Reads (readValue room)) rs js ∧ j = .array js := by
  rw [(recognizes_readValue (room + 1)).reads_iff, ReadsTree]
  constructor
  · rintro ⟨inner, js, hroom, hjs, rfl⟩
    obtain rfl := Nat.succ.inj hroom
    exact ⟨js, hjs, rfl⟩
  · rintro ⟨js, hjs, rfl⟩
    exact ⟨room, js, rfl, hjs, rfl⟩

/-- An object is read member by member, in less room. -/
theorem reads_members_iff {room : Nat} {ms : List (StringSpelling × Raw)}
    {ns : List (String × Raw)} (hns : Named ms ns) {j : Json} :
    Reads (readValue (room + 1)) (.object ms) j ↔
      ∃ js, ReadsMembers (readValue room) ns js ∧ j = .object js := by
  rw [(recognizes_readValue (room + 1)).reads_iff, ReadsTree]
  constructor
  · rintro ⟨inner, ns', js, hroom, hns', hjs, rfl⟩
    obtain rfl := named_unique hns hns'
    obtain rfl := Nat.succ.inj hroom
    exact ⟨js, hjs, rfl⟩
  · rintro ⟨js, hjs, rfl⟩
    exact ⟨room, ns, js, rfl, hns, hjs, rfl⟩

/-! ### Ways to write a tree -/

mutual

/-- The raw value writes the tree. A double is written as it is printed, or in any way that is read
as the double; strings may be spelled with any escapes, and members stand in any order. -/
def Encodes : Json → Raw → Prop
  | .null, r => r = .null
  | .bool b, r => r = .bool b
  | .int n, r => ∃ k : NumberSpelling, k.value? = some (.int n) ∧ r = .number k
  | .double x, r =>
    ∃ k : NumberSpelling, (k = .ofDouble x ∨ k.value? = some (.double x)) ∧ r = .number k
  | .string s, r => ∃ k : StringSpelling, k.decode? = some s ∧ r = .string k
  | .array js, r => ∃ rs, EncodesItems js rs ∧ r = .array rs
  | .object ms, r =>
    ∃ ns ns' ms', EncodesMembers ms ns ∧ ns.Perm ns' ∧ Named ms' ns' ∧ r = .object ms'

/-- `Encodes` for every item. -/
def EncodesItems : List Json → List Raw → Prop
  | [], rs => rs = []
  | j :: js, rs => ∃ r rest, Encodes j r ∧ EncodesItems js rest ∧ rs = r :: rest

/-- `Encodes` for the value of every member. -/
def EncodesMembers : List (String × Json) → List (String × Raw) → Prop
  | [], ns => ns = []
  | (name, j) :: ms, ns => ∃ r rest, Encodes j r ∧ EncodesMembers ms rest ∧ ns = (name, r) :: rest

end

/-- The text holds the tree. -/
def IsEncoding (j : Json) (text : String) : Prop :=
  ∃ r, j.Encodes r ∧ r.IsText text

mutual

/-- What is written for a tree in normal form writes the tree. -/
theorem encodes_toRaw : (j : Json) → isNormal j = true → j.Encodes j.toRaw
  | .null, _ => rfl
  | .bool _, _ => rfl
  | .int n, h => ⟨.ofInt n, value?_ofInt h, rfl⟩
  | .double x, h => ⟨.ofDouble x, .inl rfl, by rw [toRaw, if_pos (show x.isFinite = true from h)]⟩
  | .string s, _ => ⟨.ofString s, decode?_ofString s, rfl⟩
  | .array js, h => ⟨_, encodesItems_rawItems js h, rfl⟩
  | .object ms, h => by
    obtain ⟨hvalues, -⟩ := isNormal_object_iff.1 h
    exact ⟨_, _, _, encodesMembers_map_toRaw ms hvalues, .refl _, named_rawMembers_iff.2 rfl, rfl⟩

theorem encodesItems_rawItems : (js : List Json) → areNormal js = true →
    EncodesItems js (rawItems js)
  | [], _ => rfl
  | j :: js, h => by
    obtain ⟨hj, hjs⟩ := areNormal_cons_iff.1 h
    exact ⟨_, _, encodes_toRaw j hj, encodesItems_rawItems js hjs, rfl⟩

theorem encodesMembers_map_toRaw : (ms : List (String × Json)) → haveNormal ms = true →
    EncodesMembers ms (ms.map fun m ↦ (m.1, toRaw m.2))
  | [], _ => rfl
  | (name, j) :: ms, h => by
    obtain ⟨hj, hms⟩ := haveNormal_cons_iff.1 h
    exact ⟨_, _, encodes_toRaw j hj, encodesMembers_map_toRaw ms hms, rfl⟩

end

/-- The compact form is one of the ways to write a tree. -/
theorem isEncoding_compact {j : Json} (h : isNormal j = true) : j.IsEncoding j.compact :=
  ⟨_, encodes_toRaw j h, isText_compact j⟩

/-- The pretty form is one of the ways to write a tree. -/
theorem isEncoding_pretty {j : Json} (h : isNormal j = true) : j.IsEncoding j.pretty :=
  ⟨_, encodes_toRaw j h, isText_pretty j⟩

/-! ### Reading them -/

/-- Members with the names of an object in normal form, in any order, have that object as their
normal form if each of them has the value of the member as its own. -/
theorem normalizeMembers_of_perm {ms js js' : List (String × Json)}
    (hsorted : ms.Pairwise fun a b ↦ a.1 < b.1)
    (hvalues : (js.map fun m ↦ (m.1, normalize m.2)) = ms) (hperm : js'.Perm js) :
    normalizeMembers [] js' = ms := by
  have hnames : ms.map Prod.fst = js.map Prod.fst := by
    rw [← hvalues, List.map_map]
    rfl
  have hjs : js.Pairwise fun a b ↦ a.1 < b.1 := by
    rw [← List.pairwise_map (f := Prod.fst)] at hsorted ⊢
    rwa [← hnames]
  have hnodup : (js.map Prod.fst).Nodup :=
    List.pairwise_map.2 (hjs.imp fun hlt ↦ String.ne_of_lt hlt)
  rw [normalizeMembers_eq_of_perm hperm ((hperm.map Prod.fst).nodup_iff.2 hnodup),
    normalizeMembers_nil_of_pairwise hjs, hvalues]

mutual

/-- **The normal form of what is read is the tree**, whichever way it is written. -/
theorem exists_reads_of_encodes : (j : Json) → isNormal j = true → {room : Nat} →
    Rereadable room j → {r : Raw} → j.Encodes r →
    ∃ j', Reads (readValue room) r j' ∧ normalize j' = j
  | .null, h, room, hroom, _, rfl => ⟨.null, (reads_toRaw_iff .null h room).2 hroom, rfl⟩
  | .bool b, h, room, hroom, _, rfl => ⟨.bool b, (reads_toRaw_iff (.bool b) h room).2 hroom, rfl⟩
  | .int n, h, _, _, _, ⟨_, hk, rfl⟩ => ⟨.int n, reads_number_iff.2 ⟨.int n, hk, rfl⟩, if_pos h⟩
  | .double x, h, _, hroom, _, ⟨k, hk, rfl⟩ => by
    have hvalue : k.value? = some (.double x) := by
      rcases hk with rfl | hk
      · exact (rereads_iff h).1 (hroom.2 x List.mem_cons_self)
      · exact hk
    exact ⟨.double x, reads_number_iff.2 ⟨.double x, hvalue, rfl⟩, if_pos h⟩
  | .string s, _, _, _, _, ⟨_, hk, rfl⟩ => ⟨.string s, (reads_spelling_iff hk).2 rfl, rfl⟩
  | .array js, h, _, hroom, _, ⟨rs, hrs, rfl⟩ => by
    obtain ⟨inner, rfl, hitems⟩ := rereadable_array_iff.1 hroom
    obtain ⟨js', hjs', heq⟩ := exists_reads_of_encodesItems js h hitems hrs
    exact ⟨.array js', reads_items_iff.2 ⟨js', hjs', rfl⟩, by rw [normalize, heq]⟩
  | .object ms, h, _, hroom, _, ⟨ns, ns', ms', hns, hperm, hnamed, rfl⟩ => by
    obtain ⟨hvalues, hsorted⟩ := isNormal_object_iff.1 h
    obtain ⟨inner, rfl, hmembers⟩ := rereadable_object_iff.1 hroom
    obtain ⟨js, hjs, heq⟩ := exists_reads_of_encodesMembers ms hvalues hmembers hns
    -- What is read goes along with the members into their order.
    obtain ⟨js', hjs', hperm'⟩ := List.perm_comp_forall₂ hperm.symm hjs
    refine ⟨.object js', (reads_members_iff hnamed).2 ⟨js', hjs', rfl⟩, ?_⟩
    rw [normalize, normalizeMembers_of_perm hsorted heq hperm']

/-- The items of an array are read as the trees that they encode. -/
theorem exists_reads_of_encodesItems : (js : List Json) → areNormal js = true → {room : Nat} →
    (∀ j ∈ js, Rereadable room j) → {rs : List Raw} → EncodesItems js rs →
    ∃ js', List.Forall₂ (Reads (readValue room)) rs js' ∧ normalizeItems js' = js
  | [], _, _, _, _, rfl => ⟨[], .nil, rfl⟩
  | j :: js, h, _, hroom, _, ⟨r, rest, hr, hrest, rfl⟩ => by
    obtain ⟨hj, hjs⟩ := areNormal_cons_iff.1 h
    obtain ⟨hroomj, hroomjs⟩ := List.forall_mem_cons.1 hroom
    obtain ⟨j', hj', heq⟩ := exists_reads_of_encodes j hj hroomj hr
    obtain ⟨js', hjs', heqs⟩ := exists_reads_of_encodesItems js hjs hroomjs hrest
    exact ⟨j' :: js', .cons hj' hjs', by rw [normalizeItems, heq, heqs]⟩

/-- The members of an object are read as the trees that they encode. Their order may be another. -/
theorem exists_reads_of_encodesMembers : (ms : List (String × Json)) → haveNormal ms = true →
    {room : Nat} → (∀ m ∈ ms, Rereadable room m.2) → {ns : List (String × Raw)} →
    EncodesMembers ms ns →
    ∃ js, ReadsMembers (readValue room) ns js ∧ (js.map fun m ↦ (m.1, normalize m.2)) = ms
  | [], _, _, _, _, rfl => ⟨[], .nil, rfl⟩
  | (name, j) :: ms, h, _, hroom, _, ⟨r, rest, hr, hrest, rfl⟩ => by
    obtain ⟨hj, hms⟩ := haveNormal_cons_iff.1 h
    obtain ⟨hroomj, hroomms⟩ := List.forall_mem_cons.1 hroom
    obtain ⟨j', hj', heq⟩ := exists_reads_of_encodes j hj hroomj hr
    obtain ⟨js, hjs, heqs⟩ := exists_reads_of_encodesMembers ms hms hroomms hrest
    exact ⟨(name, j') :: js, .cons ⟨rfl, hj'⟩ hjs, by rw [List.map_cons, heq, heqs]⟩

end

/-- **Any text that holds a tree is read as the tree**, up to the order of members. -/
theorem exists_parse_of_isEncoding {j : Json} (h : isNormal j = true)
    (hroom : Rereadable maxDepth j) {text : String} (htext : j.IsEncoding text) :
    ∃ j', parse text.toList = .ok j' ∧ normalize j' = j := by
  obtain ⟨r, hr, ht⟩ := htext
  obtain ⟨j', hj', heq⟩ := exists_reads_of_encodes j h hroom hr
  exact ⟨j', ((uniform_readValue maxDepth).whole_eq_ok_iff ht).2 hj', heq⟩

end Pipework.Json
