import Pipework.Proofs.Document.RoundTrip
import Pipework.Proofs.Json.Equality

/-!
# Equal documents and their texts

Documents that are equal are written as equal trees, part by part. Equality compares doubles as
numbers and so takes the two zeros for the same, while a text shows the sign of a zero. Equal
documents therefore have the same texts exactly if their doubles have the same signs
(`texts_eq_iff`), and there are equal documents with different texts (`texts_ne_of_zeros`).
-/

namespace Pipework

namespace Codec

open Json

variable {α σ : Type} {αs : List Type}

/-- Equal values are written as equal trees, and a value without NaN is equal to itself. -/
structure Equates [BEq α] (c : Codec α) : Prop where
  beq_write : ∀ {a b : α}, (a == b) = true → (c.write a).beq (c.write b) = true
  beq_self : ∀ {a : α}, (∀ x ∈ (c.write a).doubles, x.isNaN = false) → (a == a) = true

/-- Where no doubles are written, equal values are the same. -/
theorem equates_of_doubles_eq_nil [BEq α] [LawfulBEq α] {c : Codec α}
    (h : ∀ a, (c.write a).doubles = []) : c.Equates where
  beq_write {a b} hab := by
    obtain rfl := eq_of_beq hab
    exact Json.beq_self _ (by simp [h])
  beq_self _ := BEq.rfl

/-! ### Lists and dictionaries -/

theorem mem_itemDoubles {js : List Json} {x : Double} :
    x ∈ itemDoubles js ↔ ∃ j ∈ js, x ∈ j.doubles := by
  induction js with
  | nil => simp [itemDoubles]
  | cons j js ih => simp [itemDoubles, ih]

theorem mem_memberDoubles {ms : List (String × Json)} {x : Double} :
    x ∈ memberDoubles ms ↔ ∃ m ∈ ms, x ∈ m.2.doubles := by
  induction ms with
  | nil => simp [memberDoubles]
  | cons m ms ih => simp [memberDoubles, ih]

/-- Lists that are equal are written alike up to the signs of zeros, item by item. -/
theorem equates_list [BEq α] {c : Codec α} (h : c.Equates) : (list c).Equates where
  beq_write {as bs} hab := by
    show beqItems (as.map c.write) (bs.map c.write) = true
    induction as generalizing bs with
    | nil =>
      cases bs with
      | nil => rfl
      | cons b bs => cases hab
    | cons a as ih =>
      cases bs with
      | nil => cases hab
      | cons b bs =>
        rw [List.cons_beq_cons, Bool.and_eq_true] at hab
        rw [List.map_cons, List.map_cons, beqItems, h.beq_write hab.1, ih hab.2]
        rfl
  beq_self {as} has := by
    have hall : ∀ a ∈ as, (a == a) = true := fun a ha ↦ h.beq_self fun x hx ↦
      has x (mem_itemDoubles.2 ⟨_, List.mem_map_of_mem ha, hx⟩)
    clear has
    induction as with
    | nil => rfl
    | cons a as ih =>
      obtain ⟨ha, has⟩ := List.forall_mem_cons.1 hall
      rw [List.cons_beq_cons, ha, ih has]
      rfl

/-- Equal dictionaries have the same keys. -/
theorem equates_dict [BEq α] {repetition : Repetition} {c : Codec α} (h : c.Equates) :
    (dict repetition c).Equates where
  beq_write {d d'} hd := by
    have hentries : (d.entries == d'.entries) = true := hd
    show beqMembers (d.entries.map fun e ↦ (e.1, c.write e.2))
      (d'.entries.map fun e ↦ (e.1, c.write e.2)) = true
    generalize d.entries = es at hentries ⊢
    generalize d'.entries = es' at hentries ⊢
    -- Entries are in key order, so that equal dictionaries have their entries in the same places.
    induction es generalizing es' with
    | nil =>
      cases es' with
      | nil => rfl
      | cons e es' => cases hentries
    | cons e es ih =>
      cases es' with
      | nil => cases hentries
      | cons e' es' =>
        obtain ⟨k, a⟩ := e
        obtain ⟨k', b⟩ := e'
        rw [List.cons_beq_cons, Bool.and_eq_true] at hentries
        obtain ⟨hk, hab⟩ : (k == k') = true ∧ (a == b) = true := Bool.and_eq_true_iff.1 hentries.1
        rw [List.map_cons, List.map_cons, beqMembers, hk, h.beq_write hab, ih es' hentries.2]
        rfl
  beq_self {d} hd := by
    have hall : ∀ e ∈ d.entries, (e.2 == e.2) = true := fun e he ↦ h.beq_self fun x hx ↦
      hd x (mem_memberDoubles.2 ⟨_, List.mem_map_of_mem he, hx⟩)
    show (d.entries == d.entries) = true
    clear hd
    generalize d.entries = es at hall ⊢
    induction es with
    | nil => rfl
    | cons e es ih =>
      obtain ⟨he, hes⟩ := List.forall_mem_cons.1 hall
      have hkey : (e == e) = true := Bool.and_eq_true_iff.2 ⟨BEq.rfl, he⟩
      rw [List.cons_beq_cons, hkey, ih hes]
      rfl

/-! ### Records -/

/-- Equal values of a field are written as equal trees or both left out, and a value is equal to
itself if no NaN is written for it. -/
structure Field.Equates [BEq α] (f : Field α) : Prop where
  omitted_eq : ∀ {a b : α}, (a == b) = true → f.omitted a = f.omitted b
  beq_write : ∀ {a b : α}, (a == b) = true → (f.codec.write a).beq (f.codec.write b) = true
  beq_self : ∀ {a : α}, (f.omitted a = false → ∀ x ∈ (f.codec.write a).doubles, x.isNaN = false) →
    (a == a) = true

theorem Field.Equates.required [BEq α] {name : String} {c : Codec α} (h : c.Equates) :
    (Field.required name c).Equates where
  omitted_eq _ := rfl
  beq_write := h.beq_write
  beq_self ha := h.beq_self (ha rfl)

theorem Field.Equates.defaulting [BEq α] {name : String} {c : Codec α} {value : α}
    (h : c.Equates) : (Field.defaulting name c value).Equates where
  omitted_eq _ := rfl
  beq_write := h.beq_write
  beq_self ha := h.beq_self (ha rfl)

/-- Equal optional values are left out together. -/
theorem Field.Equates.optional [BEq α] {name : String} {c : Codec α} (h : c.Equates) :
    (Field.optional name c).Equates where
  omitted_eq {a b} hab := by
    cases a <;> cases b <;> first | rfl | cases hab
  beq_write {a b} hab := by
    cases a <;> cases b
    · rfl
    · cases hab
    · cases hab
    · exact h.beq_write hab
  beq_self {a} ha := by
    cases a with
    | none => rfl
    | some a => exact h.beq_self (ha rfl)

/-- The fields of a record, with the equality of rows that compares them one after the other. -/
inductive Fields.Equated : {αs : List Type} → Fields αs → (Row αs → Row αs → Bool) → Prop
  | last {α : Type} [BEq α] {f : Field α} (h : f.Equates) :
    Fields.Equated (.cons f .nil) fun row row' ↦ row.1 == row'.1
  | cons {α : Type} {αs : List Type} [BEq α] {f : Field α} {fs : Fields αs}
    {eq : Row αs → Row αs → Bool} (h : f.Equates) (hrest : fs.Equated eq) :
    Fields.Equated (.cons f fs) fun row row' ↦ row.1 == row'.1 && eq row.2 row'.2

/-- Equal rows are written with members of the same names. -/
theorem Fields.Equated.beqMembers_write {fields : Fields αs} {eq : Row αs → Row αs → Bool}
    (h : fields.Equated eq) {row row' : Row αs} (hrow : eq row row' = true) :
    beqMembers (fields.write row) (fields.write row') = true := by
  induction h with
  | @last _ _ f h =>
    rw [Fields.write.eq_def (.cons f .nil) row, Fields.write.eq_def (.cons f .nil) row']
    simp only
    rw [← h.omitted_eq hrow]
    split
    · rfl
    · simp [beqMembers, h.beq_write hrow, Fields.write]
  | @cons _ _ _ f fs _ h hrest ih =>
    obtain ⟨hfield, hrow⟩ := Bool.and_eq_true_iff.1 hrow
    rw [Fields.write, Fields.write, ← h.omitted_eq hfield]
    split
    · exact ih hrow
    · simp [beqMembers, h.beq_write hfield, ih hrow]

/-- A row equals itself unless a double in it is undefined. -/
theorem Fields.Equated.self {fields : Fields αs} {eq : Row αs → Row αs → Bool}
    (h : fields.Equated eq) {row : Row αs}
    (hrow : ∀ x ∈ memberDoubles (fields.write row), x.isNaN = false) : eq row row = true := by
  have mem_of_field {α : Type} {αs : List Type} {f : Field α} {fs : Fields αs} {row : Row (α :: αs)}
      (homitted : f.omitted row.1 = false) {x : Double} (hx : x ∈ (f.codec.write row.1).doubles) :
      x ∈ memberDoubles ((Fields.cons f fs).write row) := by
    rw [Fields.write, homitted]
    exact List.mem_append_left _ hx
  induction h with
  | last h => exact h.beq_self fun homitted x hx ↦ hrow x (mem_of_field homitted hx)
  | @cons α αs _ f fs eq h hrest ih =>
    refine Bool.and_eq_true_iff.2 ⟨h.beq_self fun homitted x hx ↦
      hrow x (mem_of_field homitted hx), ih fun x hx ↦ hrow x ?_⟩
    rw [Fields.write]
    split
    · exact hx
    · exact List.mem_append_right _ hx

/-- **Records**, if their equality compares the fields one after the other. -/
theorem equates_record [BEq σ] {name : String} {strict : Bool} {fields : Fields αs}
    {toRow : σ → Row αs} {ofRow : Row αs → σ} {eq : Row αs → Row αs → Bool}
    (h : fields.Equated eq)
    (heq : ∀ a b : σ, (a == b) = true ↔ eq (toRow a) (toRow b) = true) :
    (record name strict fields toRow ofRow).Equates where
  beq_write {a b} hab := h.beqMembers_write ((heq a b).1 hab)
  beq_self {a} ha := (heq a a).2 (h.self ha)

theorem equates_wrapped [BEq α] {name field : String} {c : Codec α} (h : c.Equates) :
    (wrapped name field c).Equates :=
  equates_record (.last (.required h)) fun _ _ ↦ .rfl

/-! ### Values -/

theorem equates_string : string.Equates :=
  equates_of_doubles_eq_nil fun _ ↦ rfl

theorem equates_uint32 : uint32.Equates :=
  equates_of_doubles_eq_nil fun _ ↦ rfl

theorem equates_names {α : Type} [BEq α] [LawfulBEq α] {name : α → String} {values : List α} :
    (names name values).Equates :=
  equates_of_doubles_eq_nil fun _ ↦ rfl

/-- **Only doubles are equal without being the same**: zeros with different signs are. -/
theorem equates_fieldValue : fieldValue.Equates where
  beq_write {v w} h := by
    cases v <;> cases w <;> first | cases h | skip
    next n m =>
      obtain rfl : n = m := eq_of_beq h
      exact Json.beq_self _ nofun
    next x y => exact Bool.and_eq_true_iff.2 ⟨h, rfl⟩
    next s t =>
      obtain rfl : s = t := eq_of_beq h
      exact Json.beq_self _ nofun
  beq_self {v} h := by
    cases v with
    | int n => exact BEq.refl n
    | double x => exact Double.beq_self_of_not_isNaN (h x (List.mem_singleton_self x))
    | string s => exact BEq.refl s

theorem equates_runtimeParameter : runtimeParameter.Equates :=
  equates_record (.cons (.required equates_string) (.cons (.required equates_names)
    (.last (.optional equates_fieldValue)))) fun _ _ ↦ .rfl

/-- A value is equal to another one of the same variant only. -/
theorem equates_value : value.Equates where
  beq_write {v w} h := by
    cases v <;> cases w <;> first | cases h | skip
    next v w =>
      simpa [value, choice, beq, beqMembers] using equates_fieldValue.beq_write h
    next p q =>
      simpa [value, choice, beq, beqMembers] using equates_runtimeParameter.beq_write h
  beq_self {v} h := by
    cases v with
    | field v => exact equates_fieldValue.beq_self fun x hx ↦ h x (List.mem_append_left _ hx)
    | runtime p =>
      exact equates_runtimeParameter.beq_self fun x hx ↦ h x (List.mem_append_left _ hx)

/-! ### Types, channels and inputs -/

theorem equates_nodeType : nodeType.Equates :=
  equates_record (.cons (.required equates_string) (.last (.optional equates_names)))
    (by rintro ⟨⟩ ⟨⟩; simp)

theorem equates_artifactRef : artifactRef.Equates :=
  equates_record (.cons (.required equates_string) (.last (.optional equates_names)))
    (by rintro ⟨⟩ ⟨⟩; simp)

theorem equates_artifactType : artifactType.Equates :=
  equates_record (.cons (.required equates_string) (.cons (.optional equates_names)
    (.last (.defaulting (equates_dict equates_names)))))
    (by rintro ⟨⟩ ⟨⟩; simp)

theorem equates_output : output.Equates :=
  equates_wrapped (equates_wrapped equates_artifactType)

theorem equates_context : context.Equates :=
  equates_record (.cons (.required (equates_wrapped equates_string))
    (.last (.required equates_value))) fun _ _ ↦ .rfl

theorem equates_channel : channel.Equates :=
  equates_record (.cons (.required (equates_wrapped equates_string))
    (.cons (.required (equates_list equates_context))
    (.cons (.required (equates_wrapped equates_artifactRef))
    (.last (.required equates_string))))) fun _ _ ↦ .rfl

theorem equates_resolverOp : resolverOp.Equates :=
  equates_of_doubles_eq_nil fun _ ↦ rfl

/-- Configurations are equal if their trees are. -/
theorem equates_config : config.Equates where
  beq_write h := h
  beq_self {c} h := beqMembers_self c.members h

theorem equates_step : step.Equates :=
  equates_record (.cons (.required equates_resolverOp) (.last (.required equates_config)))
    fun _ _ ↦ .rfl

/-- Inputs are equal if their channels, steps and counts are. -/
theorem equates_input : input.Equates := by
  refine equates_record (.cons (.required (equates_list equates_channel)) (.cons ⟨?_, ?_, ?_⟩
    (.last (.optional equates_uint32)))) fun _ _ ↦ .rfl
  · intro steps steps' h
    cases steps <;> cases steps' <;> first | rfl | cases h
  · exact (equates_list equates_step).beq_write
  · intro steps h
    cases steps with
    | nil => rfl
    | cons s steps => exact (equates_list equates_step).beq_self (h rfl)

/-! ### Nodes and documents -/

theorem equates_nodeInfo : nodeInfo.Equates :=
  equates_record (.cons (.required equates_nodeType) (.last (.required equates_string)))
    fun _ _ ↦ .rfl

theorem equates_executionOptions : executionOptions.Equates :=
  equates_record (.cons (.required (equates_of_doubles_eq_nil fun _ ↦ rfl))
    (.last (.optional equates_uint32))) (by rintro ⟨⟩ ⟨⟩; simp)

/-- **Nodes are equated field by field.** -/
theorem equates_node : node.Equates :=
  equates_record (.cons (.required equates_nodeInfo)
    (.cons (.required (equates_list equates_context))
    (.cons (.required (equates_dict equates_input))
    (.cons (.required (equates_dict equates_output))
    (.cons (.required (equates_dict equates_value))
    (.cons (.required (equates_list equates_string))
    (.cons (.required (equates_list equates_string))
    (.last (.required equates_executionOptions))))))))) fun _ _ ↦
      iff_of_eq (congrArg (· = true) (Bool.and_assoc (_ == _) (_ == _) _).symm)

theorem equates_runtimeSpec : runtimeSpec.Equates :=
  equates_record (.cons (.required equates_runtimeParameter)
    (.last (.required equates_runtimeParameter))) fun _ _ ↦ .rfl

theorem doubles_string (s : String) : (string.write s).doubles = [] :=
  rfl

theorem doubles_strings (ss : List String) : ((list string).write ss).doubles = [] := by
  refine List.eq_nil_iff_forall_not_mem.2 fun x hx ↦ ?_
  obtain ⟨j, hj, hxj⟩ := mem_itemDoubles.1 hx
  obtain ⟨s, -, rfl⟩ := List.mem_map.1 hj
  cases hxj

theorem equates_executable : executable.Equates :=
  equates_of_doubles_eq_nil fun e ↦ by
    cases e <;> simp [executable, tagged, nativeFields, batchFields, containerFields, Fields.write,
      Field.required, Field.defaulting, doubles, memberDoubles, doubles_strings, doubles_string]

theorem equates_deploymentEntry : deploymentEntry.Equates :=
  equates_record (.cons (.required equates_executable) (.last (.optional equates_executable)))
    (by rintro ⟨⟩ ⟨⟩; simp)

/-- **Documents are equated field by field.** -/
theorem equates_document : document.Equates :=
  equates_record (.cons (.required equates_uint32)
    (.cons (.required (equates_wrapped equates_string))
    (.cons (.required (equates_list equates_node)) (.cons (.required equates_runtimeSpec)
    (.cons (.required equates_names) (.last (.required (equates_dict equates_deploymentEntry))))))))
    fun _ _ ↦ .rfl

end Codec

namespace Document

/-- Equal documents are written as the same tree exactly if their doubles have the same signs. -/
theorem toJson_eq_iff {d d' : Document} (h : (d == d') = true) :
    d.toJson = d'.toJson ↔ d.toJson.signs = d'.toJson.signs :=
  Json.eq_iff_signs_eq (Codec.equates_document.beq_write h)

/-- Equal documents have the same compact text if they have the same tree, down to the signs of
zeros. -/
theorem compact_eq_iff {d d' : Document} (h : (d == d') = true) :
    d.toJson.compact = d'.toJson.compact ↔ d.toJson = d'.toJson := by
  rw [Json.compact, Json.compact, String.ofList_inj]
  exact Json.chars_eq_iff (Codec.equates_document.beq_write h) _ _

/-- Equal documents have the same pretty text if they have the same tree. -/
theorem pretty_eq_iff {d d' : Document} (h : (d == d') = true) :
    d.toJson.pretty = d'.toJson.pretty ↔ d.toJson = d'.toJson := by
  rw [Json.pretty, Json.pretty, String.ofList_inj]
  exact Json.chars_eq_iff (Codec.equates_document.beq_write h) _ _

/-- A document that passes the check is written. -/
theorem canonicalText_of_checkFinite {d : Document} (h : d.checkFinite = .ok ()) :
    d.canonicalText = .ok d.toJson.compact := by
  rw [canonicalText, h]
  rfl

theorem prettyText_of_checkFinite {d : Document} (h : d.checkFinite = .ok ()) :
    d.prettyText = .ok d.toJson.pretty := by
  rw [prettyText, h]
  rfl

/-- **When equal documents have the same texts**: if every double has the same sign in both, and
then they have the same fingerprint too. -/
theorem texts_eq_iff {d d' : Document} (h : (d == d') = true) (hfinite : d.checkFinite = .ok ())
    (hfinite' : d'.checkFinite = .ok ()) :
    (d.canonicalText = d'.canonicalText ↔ d.toJson.signs = d'.toJson.signs) ∧
      (d.prettyText = d'.prettyText ↔ d.toJson.signs = d'.toJson.signs) ∧
      (d.toJson.signs = d'.toJson.signs → d.fingerprint = d'.fingerprint) := by
  have hcanonical : d.canonicalText = d'.canonicalText ↔ d.toJson.signs = d'.toJson.signs := by
    rw [canonicalText_of_checkFinite hfinite, canonicalText_of_checkFinite hfinite',
      Except.ok.injEq, compact_eq_iff h, toJson_eq_iff h]
  refine ⟨hcanonical, ?_, fun hsigns ↦ ?_⟩
  · rw [prettyText_of_checkFinite hfinite, prettyText_of_checkFinite hfinite', Except.ok.injEq,
      pretty_eq_iff h, toJson_eq_iff h]
  · rw [fingerprint, fingerprint, hcanonical.2 hsigns]

/-- A document with one node that has a double for a parameter. -/
def withDouble (x : Double) : Document where
  version := 1
  id := "p"
  nodes :=
    [{ type := ⟨"x", none⟩
       id := "A"
       contexts := []
       inputs := .empty
       outputs := .empty
       parameters := .ofList [("k", .field (.double x))]
       dependencies := []
       dependents := []
       options := ⟨true, none⟩ }]
  runtime := ⟨.text "root", .text "run"⟩
  mode := .sync
  deployment := .empty

/-- The double 0.0. -/
def positiveZero : Double := ⟨0⟩

/-- The double -0.0. -/
def negativeZero : Double := ⟨0x8000000000000000⟩

/-- A document and the one with the other zero are equal and have different texts. -/
theorem texts_eq_iff_zeros :
    (withDouble positiveZero == withDouble negativeZero) = true ∧
      ((withDouble positiveZero).canonicalText = (withDouble negativeZero).canonicalText ↔
        [false] = [true]) ∧
      ((withDouble positiveZero).prettyText = (withDouble negativeZero).prettyText ↔
        [false] = [true]) ∧
      ([false] = [true] →
        (withDouble positiveZero).fingerprint = (withDouble negativeZero).fingerprint) :=
  ⟨by decide +kernel, texts_eq_iff (by decide +kernel) (by decide +kernel) (by decide +kernel)⟩

/-- **Equal documents whose texts differ**: one has the zero 0.0 where the other has -0.0. -/
theorem texts_ne_of_zeros :
    (withDouble positiveZero == withDouble negativeZero) = true ∧
      (withDouble positiveZero).checkFinite = .ok () ∧
      (withDouble negativeZero).checkFinite = .ok () ∧
      (withDouble positiveZero).canonicalText ≠ (withDouble negativeZero).canonicalText ∧
      (withDouble positiveZero).prettyText ≠ (withDouble negativeZero).prettyText := by
  have hbeq : (withDouble positiveZero == withDouble negativeZero) = true := by decide +kernel
  have hpositive : (withDouble positiveZero).checkFinite = .ok () := by decide +kernel
  have hnegative : (withDouble negativeZero).checkFinite = .ok () := by decide +kernel
  have hsigns : (withDouble positiveZero).toJson.signs ≠
      (withDouble negativeZero).toJson.signs := by
    decide +kernel
  refine ⟨hbeq, hpositive, hnegative, ?_, ?_⟩
  · rw [canonicalText_of_checkFinite hpositive, canonicalText_of_checkFinite hnegative, Ne,
      Except.ok.injEq, compact_eq_iff hbeq, toJson_eq_iff hbeq]
    exact hsigns
  · rw [prettyText_of_checkFinite hpositive, prettyText_of_checkFinite hnegative, Ne,
      Except.ok.injEq, pretty_eq_iff hbeq, toJson_eq_iff hbeq]
    exact hsigns

end Document
end Pipework
