import Pipework.Declaration
import Pipework.Proofs.Codec.Restoring
import Pipework.Proofs.Json.Rearranging

/-!
# Codecs do not look at the order of members

A codec is `Orderless` if it reads a rearranged value as it reads the value. Records and
dictionaries are, since their steps commute for members with different names (`Fields.takes_comm`,
`addEntry_comm`) and a field is filled by the same value wherever it stands. What is put aside as a
tree is matched later, so there is a second property for trees that are alike, `OrderlessTree`; it
carries tagged records, whose tag may stand behind the members that it governs, and values that have
one of several forms.
-/

namespace Pipework

/-- Entries with different keys are inserted in either order. -/
theorem Dict.insert_comm {β : Type} (d : Dict β) {key key' : String} (h : key ≠ key')
    (value value' : β) :
    (d.insert key value).insert key' value' = (d.insert key' value').insert key value :=
  ext_entries (insertEntry_comm h.symm value' value d.entries)

theorem Dict.contains_insert_of_ne {β : Type} {d : Dict β} {key key' : String} (h : key ≠ key')
    {value : β} : (d.insert key' value).contains key = d.contains key := by
  rw [contains, get?_insert, if_neg h, contains]

namespace Codec

open Json

variable {α β σ V V' : Type} {αs : List Type}

/-- The order of members does not matter to the codec. -/
structure Orderless (c : Codec α) : Prop where
  uniform : c.Uniform
  reads : ∀ {room : Nat} {r r' : Raw} {a : α}, r.Reorders r' → c.Reads room r a → c.Reads room r' a

/-- A codec is shown to be orderless by what its reader recognizes. -/
theorem Orderless.of_recognizes {c : Codec α} {p : Nat → Raw → α → Prop}
    (h : ∀ room, Recognizes (c.read room) (p room))
    (hp : ∀ {room r r' a}, Raw.Reorders r r' → p room r a → p room r' a) : c.Orderless where
  uniform room := (h room).uniform
  reads {room _ _ _} hr ha := (h room).reads_iff.2 (hp hr ((h room).reads_iff.1 ha))

/-- The same is read from a text and from a text with the members in another order. -/
theorem Orderless.parse_eq_ok {c : Codec α} (h : c.Orderless) {r r' : Raw} (hr : r.Reorders r')
    {text text' : String} (ht : r.IsText text) (ht' : r'.IsText text') {a : α}
    (ha : c.parse text = .ok a) : c.parse text' = .ok a :=
  (h.uniform.parse_eq_ok_iff ht').2 (h.reads hr ((h.uniform.parse_eq_ok_iff ht).1 ha))

/-! ### Scalar values -/

/-- A scalar value has no members that could be reordered. -/
theorem ReadsScalar.of_reorders {accept : Found → Except Mismatch α} {r r' : Raw}
    (h : r.Reorders r') {a : α} (ha : ReadsScalar accept r a) : ReadsScalar accept r' a := by
  obtain rfl := h.eq_of_not_isBracket ha.1
  exact ha

theorem orderless_scalar {write : α → Json} {accept : Found → Except Mismatch α}
    (h : RefusesBrackets accept) : (scalar write accept).Orderless :=
  .of_recognizes (recognizes_scalar h) fun hr ha ↦ ReadsScalar.of_reorders hr ha

theorem orderless_string : string.Orderless := by
  refine orderless_scalar ?_
  exact .of_error rfl rfl

theorem orderless_bool : bool.Orderless := by
  refine orderless_scalar ?_
  exact .of_error rfl rfl

theorem orderless_uint32 : uint32.Orderless := by
  refine orderless_scalar ?_
  exact .of_error rfl rfl

theorem orderless_via {c : Codec α} {forward : β → α} {back : α → β} (h : c.Orderless) :
    (c.via forward back).Orderless :=
  .of_recognizes (recognizes_via h.uniform) fun hr ⟨a, ha, heq⟩ ↦ ⟨a, h.reads hr ha, heq⟩

theorem orderless_option {c : Codec α} (h : c.Orderless) : (option c).Orderless := by
  refine .of_recognizes (recognizes_option h.uniform) fun {room r r' o} hr ho ↦ ?_
  rw [ReadsOption, ne_eq, hr.eq_null_iff]
  rcases ho with hnull | ⟨hne, a, ha, heq⟩
  · exact .inl hnull
  · exact .inr ⟨hne, a, h.reads hr ha, heq⟩

/-! ### Lists and dictionaries -/

theorem orderless_list {c : Codec α} (h : c.Orderless) : (list c).Orderless := by
  refine .of_recognizes (recognizes_list h.uniform) ?_
  rintro room _ r' as hr ⟨inner, rs, hroom, rfl, has⟩
  obtain ⟨rs', rfl, hrs⟩ := hr.array
  refine ⟨inner, rs', hroom, rfl, (forall₂_of_left hrs has).imp fun r' a hitem ↦ ?_⟩
  obtain ⟨r, hr, ha⟩ := hitem
  exact h.reads hr ha

/-- A repeated key is refused or replaces the value before it, according to the codec. -/
theorem addEntry_eq_ok_iff {repetition : Repetition} {d d' : Dict α} {key : String} {a : α} :
    addEntry repetition d key a = .ok d' ↔
      ¬ (repetition = .refused ∧ d.contains key = true) ∧ d' = d.insert key a := by
  rw [addEntry]
  split
  next h =>
    refine iff_of_false ?_ fun hadd ↦ hadd.1 h
    intro hadd
    cases hadd
  next h => exact ⟨fun hadd ↦ ⟨h, (Except.ok.inj hadd).symm⟩, fun hadd ↦ congrArg _ hadd.2.symm⟩

/-- Entries with different keys are added in either order, with the same result and in the same
cases. -/
theorem addEntry_comm {repetition : Repetition} {d d₁ d₂ : Dict α} {key key' : String} {a a' : α}
    (hne : key ≠ key') (h : addEntry repetition d key a = .ok d₁)
    (h' : addEntry repetition d₁ key' a' = .ok d₂) :
    ∃ d₁', addEntry repetition d key' a' = .ok d₁' ∧ addEntry repetition d₁' key a = .ok d₂ := by
  obtain ⟨hnew, rfl⟩ := addEntry_eq_ok_iff.1 h
  obtain ⟨hnew', rfl⟩ := addEntry_eq_ok_iff.1 h'
  rw [Dict.contains_insert_of_ne hne.symm] at hnew'
  refine ⟨_, addEntry_eq_ok_iff.2 ⟨hnew', rfl⟩, addEntry_eq_ok_iff.2 ⟨?_, ?_⟩⟩
  · rwa [Dict.contains_insert_of_ne hne]
  · exact Dict.insert_comm d hne a a'

/-- **Dictionaries are orderless**, if their values are: with distinct keys each entry is added by
itself. -/
theorem orderless_dict {repetition : Repetition} {c : Codec α} (h : c.Orderless) :
    (dict repetition c).Orderless := by
  refine .of_recognizes (recognizes_dict h.uniform) ?_
  rintro room _ r' d hr ⟨inner, ms, ns, hroom, rfl, hns, hrun⟩
  obtain ⟨hnodup, ms', ns', rfl, hns', hshuffled⟩ := hr.object hns
  refine ⟨inner, ms', ns', hroom, rfl, hns', Run.of_shuffled ?_ ?_ hshuffled hnodup hrun⟩
  · rintro d name r r' d' hr ⟨a, ha, hadd⟩
    exact ⟨a, h.reads hr ha, hadd⟩
  · rintro d name r d₁ name' r' d₂ hne ⟨a, ha, hadd⟩ ⟨a', ha', hadd'⟩
    obtain ⟨d₁', hfirst, hsecond⟩ := addEntry_comm hne hadd hadd'
    exact ⟨d₁', ⟨a', ha', hfirst⟩, a, ha, hsecond⟩

/-! ### Records -/

namespace Fields

/-- A member that is taken by one way to accept values is taken by any other that accepts the same
ones. -/
theorem Takes.imp {accepts : ∀ {α : Type}, Codec α → V → α → Prop}
    {accepts' : ∀ {α : Type}, Codec α → V' → α → Prop} {strict : Bool} {fields : Fields αs} {v : V}
    {v' : V'} (h : fields.All fun c ↦ ∀ a, accepts c v a → accepts' c v' a)
    {slots slots' : Slots αs} {name : String}
    (htakes : fields.Takes accepts strict slots name v slots') :
    fields.Takes accepts' strict slots name v' slots' := by
  induction fields with
  | nil => exact htakes
  | cons f fs ih =>
    rcases htakes with ⟨hname, hslot, hslots, a, ha, heq⟩ | ⟨hname, hslot, hrest⟩
    · exact .inl ⟨hname, hslot, hslots, a, h.1 a ha, heq⟩
    · exact .inr ⟨hname, hslot, ih h.2 hrest⟩

/-- **Members with different names fill different slots**, in any order. -/
theorem takes_comm {accepts : ∀ {α : Type}, Codec α → V → α → Prop} {strict : Bool}
    {fields : Fields αs} {s t u : Slots αs} {name name' : String} {v v' : V} (hne : name ≠ name')
    (h : fields.Takes accepts strict s name v t) (h' : fields.Takes accepts strict t name' v' u) :
    ∃ t', fields.Takes accepts strict s name' v' t' ∧ fields.Takes accepts strict t' name v u := by
  induction fields with
  | nil => exact ⟨(), h, h⟩
  | cons f fs ih =>
    obtain ⟨s₁, s₂⟩ := s
    obtain ⟨t₁, t₂⟩ := t
    obtain ⟨u₁, u₂⟩ := u
    rcases h with ⟨hname, rfl, rfl, a, ha, rfl⟩ | ⟨hname, rfl, hrest⟩
    · rcases h' with ⟨hname', -⟩ | ⟨hname', rfl, hrest'⟩
      · exact absurd (hname.symm.trans hname') hne
      · exact ⟨(none, u₂), .inr ⟨hname', rfl, hrest'⟩, .inl ⟨hname, rfl, rfl, a, ha, rfl⟩⟩
    · rcases h' with ⟨hname', rfl, rfl, a, ha, rfl⟩ | ⟨hname', rfl, hrest'⟩
      · exact ⟨(some a, s₂), .inl ⟨hname', rfl, rfl, a, ha, rfl⟩, .inr ⟨hname, rfl, hrest⟩⟩
      · obtain ⟨t', hfirst, hsecond⟩ := ih hrest hrest'
        exact ⟨(u₁, t'), .inr ⟨hname', rfl, hfirst⟩, .inr ⟨hname, rfl, hsecond⟩⟩

/-- Items that are taken from one array are taken from another one with corresponding items. -/
theorem TakesItems.imp {accepts : ∀ {α : Type}, Codec α → V → α → Prop}
    {accepts' : ∀ {α : Type}, Codec α → V' → α → Prop} {R : V → V' → Prop} {fields : Fields αs}
    (h : fields.All fun c ↦ ∀ v v' a, R v v' → accepts c v a → accepts' c v' a) {vs : List V}
    {vs' : List V'} (hvs : List.Forall₂ R vs vs') {row : Row αs}
    (htakes : fields.TakesItems accepts vs row) : fields.TakesItems accepts' vs' row := by
  induction fields generalizing vs vs' with
  | nil =>
    obtain rfl : vs = [] := htakes
    cases hvs
    rfl
  | cons f fs ih =>
    obtain ⟨a, row⟩ := row
    cases hvs with
    | nil => exact ⟨htakes.1, ih h.2 .nil htakes.2⟩
    | cons hv hvs => exact ⟨h.1 _ _ a hv htakes.1, ih h.2 hvs htakes.2⟩

theorem all_of_forall {p : ∀ {α : Type}, Codec α → Prop} (h : ∀ {α : Type} (c : Codec α), p c)
    (fields : Fields αs) : fields.All p := by
  induction fields with
  | nil => trivial
  | cons f fs ih => exact ⟨h f.codec, ih⟩

theorem All.imp {p q : ∀ {α : Type}, Codec α → Prop} (hpq : ∀ {α : Type} {c : Codec α}, p c → q c)
    {fields : Fields αs} (h : fields.All p) : fields.All q := by
  induction fields with
  | nil => trivial
  | cons f fs ih => exact ⟨hpq h.1, ih h.2⟩

end Fields

/-- **Records are orderless**, if their fields are: each field is filled by the one member with its
name. -/
theorem orderless_record {name : String} {strict : Bool} {fields : Fields αs}
    {toRow : σ → Row αs} {ofRow : Row αs → σ} (h : fields.All Orderless) :
    (record name strict fields toRow ofRow).Orderless := by
  refine .of_recognizes (recognizes_record (h.imp fun hc ↦ hc.uniform)) ?_
  rintro room _ r' a hr (⟨inner, ms, ns, slots, row, hroom, rfl, hns, hrun, hfinish, rfl⟩ |
    ⟨inner, rs, row, hroom, rfl, htakes, rfl⟩)
  · obtain ⟨hnodup, ms', ns', rfl, hns', hshuffled⟩ := hr.object hns
    refine .inl ⟨inner, ms', ns', slots, row, hroom, rfl, hns', ?_, hfinish, rfl⟩
    refine Run.of_shuffled ?_ Fields.takes_comm hshuffled hnodup hrun
    intro s name r r' t hr htakes
    have hreads : fields.All fun c ↦ ∀ a, c.Reads inner r a → c.Reads inner r' a := by
      refine h.imp ?_
      intro α c hc a ha
      exact hc.reads hr ha
    exact htakes.imp hreads
  · obtain ⟨rs', rfl, hrs⟩ := hr.array
    have hreads : fields.All fun c ↦ ∀ r r' a, Raw.Reorders r r' → c.Reads inner r a →
        c.Reads inner r' a := by
      refine h.imp ?_
      intro α c hc r r' a hr ha
      exact hc.reads hr ha
    exact .inr ⟨inner, rs', row, hroom, rfl, htakes.imp hreads hrs, rfl⟩

/-! ### Names and payloads -/

/-- The name of a choice is a scalar value, and the object with one member has only one order. -/
theorem orderless_names {name : σ → String} {values : List σ} :
    (names name values).Orderless := by
  have hnamed {v : Variant σ} (hv : v ∈ values.map fun a ↦ Variant.named (name a) a) {room : Nat}
      {r r' : Raw} (hr : r.Reorders r') {a : σ} (ha : Json.Reads (v.read room) r a) :
      Json.Reads (v.read room) r' a := by
    obtain ⟨b, -, rfl⟩ := List.mem_map.1 hv
    rw [(recognizes_named room).reads_iff] at ha ⊢
    exact ⟨hr.eq_null_iff.2 ha.1, ha.2⟩
  refine .of_recognizes (recognizes_choice fun v hv room ↦ ?_) ?_
  · obtain ⟨b, -, rfl⟩ := List.mem_map.1 hv
    exact (recognizes_named room).uniform
  · rintro room _ r' a hr (⟨k, name, v, rfl, hk, hv, ha⟩ |
      ⟨inner, k, r, name, v, hroom, rfl, hk, hv, ha⟩)
    · obtain rfl := hr.eq_of_not_isBracket rfl
      exact .inl ⟨k, name, v, rfl, hk, hv, ha⟩
    · obtain ⟨k', r', rfl, hk', hr'⟩ := hr.singleton hk
      exact .inr ⟨inner, k', r', name, v, hroom, rfl, hk', hv,
        hnamed (Variant.mem_of_find hv) hr' ha⟩

/-- Trees that differ in the order of members are the same when they are normalized. -/
theorem toPayload_eq_of_alike {j j' : Json} (h : Alike j j') : j.toPayload = j'.toPayload := by
  simp only [toPayload, normalize_eq_of_alike j h]

theorem orderless_payload : payload.Orderless := by
  refine .of_recognizes recognizes_payload ?_
  rintro room r r' p hr ⟨j, hj, rfl⟩
  obtain ⟨j', hj', halike⟩ := alike_of_reads hr hj
  exact ⟨j', hj', toPayload_eq_of_alike halike⟩

/-! ### Trees -/

/-- The order of members does not matter to the codec, in a tree that was read from a text. -/
def OrderlessTree (c : Codec α) : Prop :=
  ∀ ⦃j j' : Json⦄ ⦃a : α⦄, Alike j j' → c.ofJson .text j = .ok a → c.ofJson .text j' = .ok a

theorem orderlessTree_scalar {write : α → Json} {accept : Found → Except Mismatch α} :
    (scalar write accept).OrderlessTree := by
  intro j j' a h ha
  show accept j'.found = .ok a
  rw [found_eq_of_alike h]
  exact ha

/-- A plain value is found in a scalar value or in none. -/
theorem orderlessTree_literal : literal.OrderlessTree := by
  intro j j' v h hv
  show literalOfFound j'.found = .ok v
  rw [found_eq_of_alike h]
  exact hv

theorem orderlessTree_option {c : Codec α} (h : c.OrderlessTree) : (option c).OrderlessTree := by
  intro j j' o hj ho
  rcases hj.cases with rfl | ⟨js, js', rfl, rfl, -⟩ | ⟨ms, ms', rfl, rfl, -⟩
  · exact ho
  · obtain ⟨a, ha, rfl⟩ := map_eq_ok_iff.1 ho
    exact map_eq_ok_iff.2 ⟨a, h hj ha, rfl⟩
  · obtain ⟨a, ha, rfl⟩ := map_eq_ok_iff.1 ho
    exact map_eq_ok_iff.2 ⟨a, h hj ha, rfl⟩

theorem orderlessTree_list {c : Codec α} (h : c.OrderlessTree) : (list c).OrderlessTree := by
  intro j j' as hj has
  rcases hj.cases with rfl | ⟨js, js', rfl, rfl, hjs⟩ | ⟨ms, ms', rfl, rfl, -⟩
  · exact has
  · have hitems : ofItems (c.ofJson .text) js = .ok as := has
    show ofItems (c.ofJson .text) js' = .ok as
    clear hj has
    induction hjs generalizing as with
    | nil => exact hitems
    | cons hj hjs ih =>
      rw [ofItems] at hitems ⊢
      obtain ⟨a, ha, hitems⟩ := bind_eq_ok_iff.1 hitems
      obtain ⟨as', has', heq⟩ := bind_eq_ok_iff.1 hitems
      exact bind_eq_ok_iff.2 ⟨a, h hj ha, bind_eq_ok_iff.2 ⟨as', ih has', heq⟩⟩
  · cases has

/-- A choice without contents is matched by its name. -/
theorem orderlessTree_names {name : σ → String} {values : List σ} :
    (names name values).OrderlessTree := by
  intro j j' a hj ha
  rcases hj.cases with rfl | ⟨js, js', rfl, rfl, -⟩ | ⟨ms, ms', rfl, rfl, -, hshuffled⟩
  · exact ha
  · cases ha
  · match ms with
    | [] => cases ha
    | _ :: _ :: _ => cases ha
    | [(key, k)] =>
      obtain ⟨k', rfl, hk⟩ := hshuffled.singleton
      obtain ⟨v, hv, ha⟩ := bind_eq_ok_iff.1 ha
      refine bind_eq_ok_iff.2 ⟨v, hv, ?_⟩
      obtain ⟨b, -, rfl⟩ := List.mem_map.1 (Variant.mem_of_find hv)
      obtain ⟨u, hnull, rfl⟩ := map_eq_ok_iff.1 ha
      -- Only `null` may stand beside the name.
      rcases hk.cases with rfl | ⟨_, _, rfl, rfl, -⟩ | ⟨_, _, rfl, rfl, -⟩
      · exact ha
      · cases hnull
      · cases hnull

namespace Fields

/-- A record is matched in the same members in another order, as long as no name is repeated. -/
theorem ofObject_of_shuffled {fields : Fields αs} (h : fields.All OrderlessTree) {strict : Bool}
    {ms ms' : List (String × Json)} (hnodup : (ms.map Prod.fst).Nodup)
    (hshuffled : Shuffled Alike ms ms') {row : Row αs}
    (hrow : fields.ofObject strict .text ms = .ok row) :
    fields.ofObject strict .text ms' = .ok row := by
  obtain ⟨slots, hrun, hfinish⟩ := ofObject_eq_ok_iff.1 hrow
  refine ofObject_eq_ok_iff.2 ⟨slots, ?_, hfinish⟩
  refine Run.of_shuffled ?_ takes_comm hshuffled hnodup hrun
  intro s name j j' t hj htakes
  have hreads : fields.All fun c ↦ ∀ a, c.ofJson .text j = .ok a → c.ofJson .text j' = .ok a := by
    refine h.imp ?_
    intro α c hc a ha
    exact hc hj ha
  exact htakes.imp hreads

/-- A record is matched in an array with corresponding items. Their order stays. -/
theorem ofArray_of_alike {fields : Fields αs} (h : fields.All OrderlessTree) {type : String}
    {js js' : List Json} (hjs : List.Forall₂ Alike js js') {row : Row αs}
    (hrow : fields.ofArray .text type js = .ok row) :
    fields.ofArray .text type js' = .ok row := by
  rw [ofArray_eq_ok_iff] at hrow ⊢
  have hreads : fields.All fun c ↦ ∀ j j' a, Alike j j' → c.ofJson .text j = .ok a →
      c.ofJson .text j' = .ok a := by
    refine h.imp ?_
    intro α c hc j j' a hj ha
    exact hc hj ha
  exact hrow.imp hreads hjs

end Fields

/-- **Records in trees are orderless**, if their fields are. -/
theorem orderlessTree_record {name : String} {strict : Bool} {fields : Fields αs}
    {toRow : σ → Row αs} {ofRow : Row αs → σ} (h : fields.All OrderlessTree) :
    (record name strict fields toRow ofRow).OrderlessTree := by
  intro j j' a hj ha
  rcases hj.cases with rfl | ⟨js, js', rfl, rfl, hjs⟩ | ⟨ms, ms', rfl, rfl, hnodup, hshuffled⟩
  · exact ha
  · obtain ⟨row, hrow, rfl⟩ := map_eq_ok_iff.1 ha
    exact map_eq_ok_iff.2 ⟨row, Fields.ofArray_of_alike h hjs hrow, rfl⟩
  · obtain ⟨row, hrow, rfl⟩ := map_eq_ok_iff.1 ha
    exact map_eq_ok_iff.2 ⟨row, Fields.ofObject_of_shuffled h hnodup hshuffled hrow, rfl⟩

/-! ### Values that are put aside -/

/-- A value that is put aside is orderless if it is matched in any order. -/
theorem orderless_buffered {write : α → Json} {match? : Json → Option α} {type : String}
    (h : ∀ {j j' a}, Alike j j' → match? j = some a → match? j' = some a) :
    (buffered write match? type).Orderless := by
  refine .of_recognizes recognizes_buffered ?_
  rintro room r r' a hr ⟨j, hj, ha⟩
  obtain ⟨j', hj', halike⟩ := alike_of_reads hr hj
  exact ⟨j', hj', h halike ha⟩

/-- The order of members does not matter to the form. -/
structure Form.Orderless (form : Form σ) : Prop where
  ofObject : ∀ {ms ms' a}, (ms.map Prod.fst).Nodup → Shuffled Alike ms ms' →
    form.ofObject ms = .ok a → form.ofObject ms' = .ok a
  ofArray : ∀ {js js' a}, List.Forall₂ Alike js js' → form.ofArray js = .ok a →
    form.ofArray js' = .ok a

/-- A form is orderless if its fields are. -/
theorem Form.orderless_of {tag type : String} {fields : Fields αs} {ofRow : Row αs → σ}
    (h : fields.All OrderlessTree) : (Form.of tag type fields ofRow).Orderless where
  ofObject hnodup hshuffled ha := by
    obtain ⟨row, hrow, rfl⟩ := map_eq_ok_iff.1 ha
    exact map_eq_ok_iff.2 ⟨row, Fields.ofObject_of_shuffled h hnodup hshuffled hrow, rfl⟩
  ofArray hjs ha := by
    obtain ⟨row, hrow, rfl⟩ := map_eq_ok_iff.1 ha
    exact map_eq_ok_iff.2 ⟨row, Fields.ofArray_of_alike h hjs hrow, rfl⟩

theorem Form.mem_of_find {forms : List (Form σ)} {tag : String} {form : Form σ}
    (h : Form.find forms tag = .ok form) : form ∈ forms := by
  rw [Form.find] at h
  split at h
  next f hf =>
    cases h
    exact List.mem_of_find?_eq_some hf
  next => cases h

theorem ReadsTag.of_reorders {forms : List (Form σ)} {r r' : Raw} {form : Form σ}
    (hform : ReadsTag forms r form) (h : r.Reorders r') : ReadsTag forms r' form := by
  obtain ⟨k, tag, rfl, htag, hfind⟩ := hform
  obtain rfl := h.eq_of_not_isBracket rfl
  exact ⟨k, tag, rfl, htag, hfind⟩

/-- The tag is not among the members that are put aside. -/
theorem map_fst_of_run_takesTagged {key : String} {forms : List (Form σ)} {room : Nat}
    {ns : List (String × Raw)} {s t : Option (Form σ) × List (String × Json)}
    (h : Run (TakesTagged key forms room) s ns t) :
    t.2.map Prod.fst = s.2.map Prod.fst ++ (ns.map Prod.fst).filter (· ≠ key) := by
  induction ns generalizing s with
  | nil =>
    obtain rfl := h
    simp
  | cons n ns ih =>
    obtain ⟨name, r⟩ := n
    obtain ⟨mid, hstep, hrest⟩ := h
    rw [ih hrest]
    rcases hstep with ⟨hname, -, hsame, -⟩ | ⟨hname, -, j, -, hdone⟩
    · simp [hname, hsame]
    · simp [hname, hdone]

/-- The form that the tag has named is one of the given ones, whatever members have been read. -/
theorem mem_of_run_takesTagged {key : String} {forms : List (Form σ)} {room : Nat}
    {ns : List (String × Raw)} {s t : Option (Form σ) × List (String × Json)}
    (h : Run (TakesTagged key forms room) s ns t) (hs : ∀ form, s.1 = some form → form ∈ forms) :
    ∀ form, t.1 = some form → form ∈ forms := by
  induction ns generalizing s with
  | nil =>
    obtain rfl := h
    exact hs
  | cons n ns ih =>
    obtain ⟨name, r⟩ := n
    obtain ⟨mid, hstep, hrest⟩ := h
    refine ih hrest fun form hform ↦ ?_
    rcases hstep with ⟨-, -, -, form', ⟨_, _, -, -, hfind⟩, hsome⟩ | ⟨-, hkeep, -⟩
    · rw [hsome, Option.some.injEq] at hform
      exact hform ▸ Form.mem_of_find hfind
    · exact hs form (hkeep ▸ hform)

/-- Reordering inside members does not change the form, and reorders inside what is put aside. -/
theorem takesTagged_of_reorders {key : String} {forms : List (Form σ)} {room : Nat}
    {s s' t : Option (Form σ) × List (String × Json)} {name : String} {r r' : Raw}
    (hform : s'.1 = s.1)
    (hjs : List.Forall₂ (fun m n ↦ n.1 = m.1 ∧ Alike m.2 n.2) s.2 s'.2) (hr : r.Reorders r')
    (h : TakesTagged key forms room s name r t) :
    ∃ t', TakesTagged key forms room s' name r' t' ∧ t'.1 = t.1 ∧
      List.Forall₂ (fun m n ↦ n.1 = m.1 ∧ Alike m.2 n.2) t.2 t'.2 := by
  rcases h with ⟨hname, hnone, hsame, form, htag, hsome⟩ | ⟨hname, hkeep, j, hj, hdone⟩
  · refine ⟨(some form, s'.2), .inl ⟨hname, hform.trans hnone, rfl, form, htag.of_reorders hr, rfl⟩,
      hsome.symm, ?_⟩
    rw [hsame]
    exact hjs
  · obtain ⟨j', hj', halike⟩ := alike_of_reads hr hj
    refine ⟨(s'.1, s'.2 ++ [(name, j')]), .inr ⟨hname, rfl, j', hj', rfl⟩,
      hform.trans hkeep.symm, ?_⟩
    rw [hdone]
    exact List.rel_append hjs (.cons ⟨rfl, halike⟩ .nil)

/-- Reordering what has been put aside makes no difference to reading another member. -/
theorem takesTagged_of_perm {key : String} {forms : List (Form σ)} {room : Nat}
    {s s' t : Option (Form σ) × List (String × Json)} {name : String} {r : Raw}
    (hform : s'.1 = s.1) (hjs : s.2.Perm s'.2) (h : TakesTagged key forms room s name r t) :
    ∃ t', TakesTagged key forms room s' name r t' ∧ t'.1 = t.1 ∧ t.2.Perm t'.2 := by
  rcases h with ⟨hname, hnone, hsame, form, htag, hsome⟩ | ⟨hname, hkeep, j, hj, hdone⟩
  · refine ⟨(some form, s'.2), .inl ⟨hname, hform.trans hnone, rfl, form, htag, rfl⟩,
      hsome.symm, ?_⟩
    rw [hsame]
    exact hjs
  · refine ⟨(s'.1, s'.2 ++ [(name, j)]), .inr ⟨hname, rfl, j, hj, rfl⟩, hform.trans hkeep.symm, ?_⟩
    rw [hdone]
    exact hjs.append_right _

/-- Two members with different names can be taken in the other order; if both are put aside, they
are put aside in the other order. -/
theorem takesTagged_comm {key : String} {forms : List (Form σ)} {room : Nat}
    {s t u : Option (Form σ) × List (String × Json)} {name name' : String} {r r' : Raw}
    (hne : name ≠ name') (h : TakesTagged key forms room s name r t)
    (h' : TakesTagged key forms room t name' r' u) :
    ∃ t' u', TakesTagged key forms room s name' r' t' ∧ TakesTagged key forms room t' name r u' ∧
      u'.1 = u.1 ∧ u.2.Perm u'.2 := by
  rcases h with ⟨hname, hnone, hsame, form, htag, hsome⟩ | ⟨hname, hkeep, j, hj, hdone⟩
  · rcases h' with ⟨hname', -⟩ | ⟨hname', hkeep', j', hj', hdone'⟩
    · exact absurd (hname.trans hname'.symm) hne
    · refine ⟨(s.1, s.2 ++ [(name', j')]), (some form, s.2 ++ [(name', j')]),
        .inr ⟨hname', rfl, j', hj', rfl⟩, .inl ⟨hname, hnone, rfl, form, htag, rfl⟩,
        (hkeep'.trans hsome).symm, ?_⟩
      rw [hdone', hsame]
  · rcases h' with ⟨hname', hnone', hsame', form, htag, hsome⟩ | ⟨hname', hkeep', j', hj', hdone'⟩
    · refine ⟨(some form, s.2), (some form, s.2 ++ [(name, j)]),
        .inl ⟨hname', hkeep ▸ hnone', rfl, form, htag, rfl⟩, .inr ⟨hname, rfl, j, hj, rfl⟩,
        hsome.symm, ?_⟩
      rw [hsame', hdone]
    · refine ⟨(s.1, s.2 ++ [(name', j')]), (s.1, s.2 ++ [(name', j')] ++ [(name, j)]),
        .inr ⟨hname', rfl, j', hj', rfl⟩, .inr ⟨hname, rfl, j, hj, rfl⟩,
        (hkeep'.trans hkeep).symm, ?_⟩
      rw [hdone', hdone, List.append_assoc, List.append_assoc]
      exact (List.Perm.swap _ _ _).append_left s.2

/-- **Members put aside in another order**, the tag wherever it stands. -/
theorem exists_run_takesTagged {key : String} {forms : List (Form σ)} {room : Nat}
    {ns ns' : List (String × Raw)} (hnodup : (ns.map Prod.fst).Nodup)
    (hshuffled : Shuffled Raw.Reorders ns ns') {form : Option (Form σ)} {js : List (String × Json)}
    (hrun : Run (TakesTagged key forms room) (none, []) ns (form, js)) :
    ∃ js', Run (TakesTagged key forms room) (none, []) ns' (form, js') ∧ Shuffled Alike js js' := by
  obtain ⟨mid, hmid, hperm⟩ := hshuffled
  have hnames : mid.map Prod.fst = ns.map Prod.fst :=
    (map_eq_of_forall₂ hmid fun _ _ hm ↦ hm.1.symm).symm
  obtain ⟨⟨_, jmid⟩, hrunmid, rfl, hjmid⟩ : ∃ t, Run (TakesTagged key forms room) (none, []) mid t ∧
      t.1 = form ∧ List.Forall₂ (fun m n ↦ n.1 = m.1 ∧ Alike m.2 n.2) js t.2 := by
    refine Run.exists_of_forall₂ (E := fun s s' : Option (Form σ) × List (String × Json) ↦
      s'.1 = s.1 ∧ List.Forall₂ (fun m n ↦ n.1 = m.1 ∧ Alike m.2 n.2) s.2 s'.2) ?_ hmid
      ⟨rfl, .nil⟩ hrun
    intro s s' name r r' t hs hr hstep
    exact takesTagged_of_reorders hs.1 hs.2 hr hstep
  obtain ⟨⟨_, js'⟩, hrun', rfl, hjs'⟩ : ∃ t, Run (TakesTagged key forms room) (none, []) ns' t ∧
      t.1 = _ ∧ jmid.Perm t.2 := by
    refine Run.exists_of_perm
      (E := fun s s' : Option (Form σ) × List (String × Json) ↦ s'.1 = s.1 ∧ s.2.Perm s'.2)
      (fun _ ↦ ⟨rfl, .rfl⟩) (fun h h' ↦ ⟨h'.1.trans h.1, h.2.trans h'.2⟩) ?_ takesTagged_comm hperm
      (hnames ▸ hnodup) hrunmid
    intro s s' name r t hs hstep
    exact takesTagged_of_perm hs.1 hs.2 hstep
  exact ⟨js', hrun', jmid, hjmid, hjs'⟩

/-- **Tagged records are orderless**, if their forms are: the tag may come before or after the
members that it is for. -/
theorem orderless_tagged {type key : String} {forms : List (Form σ)} {write : σ → Json}
    (h : ∀ form ∈ forms, form.Orderless) : (tagged type key forms write).Orderless := by
  refine .of_recognizes recognizes_tagged ?_
  rintro room _ r' a hr (⟨inner, ms, ns, form, js, hroom, rfl, hns, hrun, ha⟩ |
    ⟨inner, r₁, rs, form, js, hroom, rfl, hform, hjs, ha⟩)
  · obtain ⟨hnodup, ms', ns', rfl, hns', hshuffled⟩ := hr.object hns
    obtain ⟨js', hrun', hjs⟩ := exists_run_takesTagged hnodup hshuffled hrun
    refine .inl ⟨inner, ms', ns', form, js', hroom, rfl, hns', hrun', ?_⟩
    have hnames : (js.map Prod.fst).Nodup := by
      rw [map_fst_of_run_takesTagged hrun]
      exact hnodup.filter _
    exact (h form (mem_of_run_takesTagged hrun nofun form rfl)).ofObject hnames hjs ha
  · obtain ⟨rs', rfl, hrs⟩ := hr.array
    cases hrs with
    | @cons _ r₁' _ rs' hr₁ hrs =>
      obtain ⟨js', hjs', hreads⟩ : ∃ js', List.Forall₂ Alike js js' ∧
          List.Forall₂ (Json.Reads (readValue inner)) rs' js' := by
        refine exists_forall₂_of_forall₂ (forall₂_of_left hjs hrs) fun j r' hr' ↦ ?_
        obtain ⟨r, hj, hr⟩ := hr'
        obtain ⟨j', hj', halike⟩ := alike_of_reads hr hj
        exact ⟨j', halike, hj'⟩
      obtain ⟨k, tag, -, -, hfind⟩ := id hform
      exact .inr ⟨inner, r₁', rs', form, js', hroom, rfl, hform.of_reorders hr₁, hreads,
        (h form (Form.mem_of_find hfind)).ofArray hjs' ha⟩

end Codec
end Pipework
