import Pipework.Proofs.Codec.Entries
import Pipework.Proofs.Codec.Matching

/-!
# The members that a format defines

A `Shape` says which names the members of an object may have, in every place of a value. Strict
records refuse other names and the rest pass over them. So there are two questions about a value:
whether its names are defined wherever they have to be (`Shape.knows true`), and whether all of them
are (`Shape.knows false`). What makes the difference are the members that `Shape.prune` removes
(`knows_prune`, `prune_eq_self`).

A shape `Covers` a codec if every value that the codec reads passes the first test and is read as
before when it is pruned. This is shown for codecs as they are built from others, for readers of
texts (`HasShape`) and for readers of trees that were put aside (`HasTreeShape`). The argument for
records is the same in both: `Fields.Covered.run`.
-/

namespace Pipework

open Json

/-- Which members the objects of a value may have. -/
inductive Shape where
  /-- Anything. -/
  | any
  /-- No bracket, or an object with one of the names. -/
  | choice (names : List String)
  /-- An array of values. -/
  | list (item : Shape)
  /-- An object with names of the author's choice. -/
  | map (value : Shape)
  /-- An object with the names of fields, or an array of the fields in their order. Other names are
  refused if the record is strict, and passed over if it is not. -/
  | record (strict : Bool) (fields : List (String × Shape))

namespace Shape

/-- Scalar values. -/
def scalar : Shape :=
  .choice []

mutual

/-- Every member of an object has a name that is defined there; with `lenient`, other names may
occur where they are passed over. -/
def knows (lenient : Bool) : Shape → Raw → Bool
  | .any, _ => true
  | .choice names, .object ms => ms.all fun m ↦ names.any fun name ↦ m.1.decode? == some name
  | .list s, .array rs => rs.all fun r ↦ s.knows lenient r
  | .map s, .object ms => ms.all fun m ↦ s.knows lenient m.2
  | .record strict fs, .object ms => ms.all fun m ↦
      m.1.decode?.any fun name ↦ knowsField lenient (lenient && !strict) fs name m.2
  | .record _ fs, .array rs => knowsItems lenient fs rs
  | _, r => !r.isBracket

/-- The name is that of a field, and the value is known as the field's; or other names may occur. -/
def knowsField (lenient free : Bool) : List (String × Shape) → String → Raw → Bool
  | [], _, _ => free
  | (n, s) :: fs, name, r =>
    if n = name then s.knows lenient r else knowsField lenient free fs name r

/-- The items are known as the fields in their order. -/
def knowsItems (lenient : Bool) : List (String × Shape) → List Raw → Bool
  | [], rs => rs.isEmpty
  | _ :: _, [] => true
  | (_, s) :: fs, r :: rs => s.knows lenient r && knowsItems lenient fs rs

end

mutual

/-- The value without the members that are not defined. -/
def prune : Shape → Raw → Raw
  | .list s, .array rs => .array (rs.map fun r ↦ s.prune r)
  | .map s, .object ms => .object (ms.map fun m ↦ (m.1, s.prune m.2))
  | .record _ fs, .object ms => .object (ms.filterMap fun m ↦
      (m.1.decode?.bind fun name ↦ pruneField fs name m.2).map fun r ↦ (m.1, r))
  | .record _ fs, .array rs => .array (pruneItems fs rs)
  | _, r => r

/-- What is left of the value of a member: nothing if its name is not that of a field. -/
def pruneField : List (String × Shape) → String → Raw → Option Raw
  | [], _, _ => none
  | (n, s) :: fs, name, r => if n = name then some (s.prune r) else pruneField fs name r

/-- What is left of the items. -/
def pruneItems : List (String × Shape) → List Raw → List Raw
  | (_, s) :: fs, r :: rs => s.prune r :: pruneItems fs rs
  | _, rs => rs

end

/-- A scalar value has no members. -/
theorem knows_of_not_isBracket (s : Shape) {lenient : Bool} {r : Raw} (h : r.isBracket = false) :
    s.knows lenient r = true := by
  cases r <;> cases h <;> cases s <;> rfl

theorem prune_of_not_isBracket (s : Shape) {r : Raw} (h : r.isBracket = false) :
    s.prune r = r := by
  cases r <;> cases h <;> cases s <;> rfl

@[simp] theorem knows_any {lenient : Bool} (r : Raw) : any.knows lenient r = true := rfl

@[simp] theorem prune_any (r : Raw) : any.prune r = r := by
  cases r <;> rfl

@[simp] theorem prune_choice (names : List String) (r : Raw) : (choice names).prune r = r := by
  cases r <;> rfl

theorem knows_choice {lenient : Bool} (names : List String) (ms : List (StringSpelling × Raw)) :
    (choice names).knows lenient (.object ms) =
      ms.all fun m ↦ names.any fun name ↦ m.1.decode? == some name := rfl

theorem knows_list {lenient : Bool} (s : Shape) (rs : List Raw) :
    (list s).knows lenient (.array rs) = rs.all fun r ↦ s.knows lenient r := rfl

theorem prune_list (s : Shape) (rs : List Raw) :
    (list s).prune (.array rs) = .array (rs.map fun r ↦ s.prune r) := rfl

theorem knows_map {lenient : Bool} (s : Shape) (ms : List (StringSpelling × Raw)) :
    (map s).knows lenient (.object ms) = ms.all fun m ↦ s.knows lenient m.2 := rfl

theorem prune_map (s : Shape) (ms : List (StringSpelling × Raw)) :
    (map s).prune (.object ms) = .object (ms.map fun m ↦ (m.1, s.prune m.2)) := rfl

theorem knows_items {lenient : Bool} (strict : Bool) (fs : List (String × Shape))
    (rs : List Raw) : (record strict fs).knows lenient (.array rs) = knowsItems lenient fs rs := rfl

theorem prune_items (strict : Bool) (fs : List (String × Shape)) (rs : List Raw) :
    (record strict fs).prune (.array rs) = .array (pruneItems fs rs) := rfl

theorem knowsField_cons {lenient free : Bool} (n : String) (s : Shape)
    (fs : List (String × Shape)) (name : String) (r : Raw) :
    knowsField lenient free ((n, s) :: fs) name r =
      if n = name then s.knows lenient r else knowsField lenient free fs name r := rfl

theorem pruneField_cons (n : String) (s : Shape) (fs : List (String × Shape)) (name : String)
    (r : Raw) : pruneField ((n, s) :: fs) name r =
      if n = name then some (s.prune r) else pruneField fs name r := rfl

theorem knowsItems_cons {lenient : Bool} (n : String) (s : Shape) (fs : List (String × Shape))
    (r : Raw) (rs : List Raw) : knowsItems lenient ((n, s) :: fs) (r :: rs) =
      (s.knows lenient r && knowsItems lenient fs rs) := rfl

theorem pruneItems_cons (n : String) (s : Shape) (fs : List (String × Shape)) (r : Raw)
    (rs : List Raw) :
    pruneItems ((n, s) :: fs) (r :: rs) = s.prune r :: pruneItems fs rs := rfl

/-- Pruning leaves nothing `null` that was not. -/
theorem prune_ne_null (s : Shape) {r : Raw} (h : r ≠ .null) : s.prune r ≠ .null := by
  intro hnull
  apply h
  cases r <;> first | rfl | (cases s <;> cases hnull)

/-- What is left of the members of a record. -/
def pruneMembers (fs : List (String × Shape)) (ms : List (StringSpelling × Raw)) :
    List (StringSpelling × Raw) :=
  ms.filterMap fun m ↦ (m.1.decode?.bind fun name ↦ pruneField fs name m.2).map fun r ↦ (m.1, r)

theorem prune_object (strict : Bool) (fs : List (String × Shape))
    (ms : List (StringSpelling × Raw)) :
    (record strict fs).prune (.object ms) = .object (pruneMembers fs ms) := rfl

/-- The first member is kept if its name is that of a field. -/
theorem pruneMembers_cons {fs : List (String × Shape)} {k : StringSpelling} {name : String}
    (hk : k.decode? = some name) {r : Raw} {ms : List (StringSpelling × Raw)} :
    pruneMembers fs ((k, r) :: ms) =
      ((pruneField fs name r).map fun r ↦ (k, r)).toList ++ pruneMembers fs ms := by
  rw [pruneMembers, List.filterMap_cons, hk, Option.bind_some]
  cases pruneField fs name r <;> rfl

/-- What is kept is pruned itself. -/
theorem mem_pruneMembers_iff {fs : List (String × Shape)} {ms : List (StringSpelling × Raw)}
    {m : StringSpelling × Raw} :
    m ∈ pruneMembers fs ms ↔ ∃ r name, (m.1, r) ∈ ms ∧ m.1.decode? = some name ∧
      pruneField fs name r = some m.2 := by
  obtain ⟨k, r⟩ := m
  simp only [pruneMembers, List.mem_filterMap, Option.map_eq_some_iff, Option.bind_eq_some_iff,
    Prod.exists, Prod.mk.injEq]
  constructor
  · rintro ⟨k, r', hmem, r, ⟨name, hname, hprune⟩, rfl, rfl⟩
    exact ⟨r', name, hmem, hname, hprune⟩
  · rintro ⟨r', name, hmem, hname, hprune⟩
    exact ⟨k, r', hmem, r, ⟨name, hname, hprune⟩, rfl, rfl⟩

/-- The members of a record are known if each one is, by its own name. -/
theorem knows_object_iff {lenient strict : Bool} {fs : List (String × Shape)}
    {ms : List (StringSpelling × Raw)} :
    (record strict fs).knows lenient (.object ms) = true ↔ ∀ m ∈ ms, ∃ name,
      m.1.decode? = some name ∧ knowsField lenient (lenient && !strict) fs name m.2 = true := by
  change (ms.all _) = true ↔ _
  simp only [List.all_eq_true, Option.any_eq_true]

mutual

/-- **What is left is defined.** -/
theorem knows_prune : (s : Shape) → (r : Raw) → s.knows true r = true →
    s.knows false (s.prune r) = true
  | .any, r, _ => knows_any _
  | .choice names, r, h => by
    rw [prune_choice]
    cases r <;> exact h
  | .list s, r, h => by
    cases r with
    | array rs =>
      simp only [prune_list, knows_list, List.all_eq_true, List.mem_map, forall_exists_index,
        and_imp, forall_apply_eq_imp_iff₂] at h ⊢
      exact fun r hr ↦ knows_prune s r (h r hr)
    | _ => exact h
  | .map s, r, h => by
    cases r with
    | object ms =>
      simp only [prune_map, knows_map, List.all_eq_true, List.mem_map, forall_exists_index,
        and_imp, forall_apply_eq_imp_iff₂] at h ⊢
      exact fun m hm ↦ knows_prune s m.2 (h m hm)
    | _ => exact h
  | .record strict fs, r, h => by
    cases r with
    | object ms =>
      rw [prune_object, knows_object_iff]
      intro m hm
      -- What is left of the members are those of fields, and these are known in any case.
      obtain ⟨r, name, hr, hname, hprune⟩ := mem_pruneMembers_iff.1 hm
      obtain ⟨name', hname', hknows⟩ := knows_object_iff.1 h _ hr
      obtain rfl := Option.some.inj (hname.symm.trans hname')
      exact ⟨name, hname, knowsField_pruneField fs hknows hprune⟩
    | array rs =>
      rw [knows_items] at h
      rw [prune_items, knows_items]
      exact knowsItems_pruneItems fs rs h
    | _ => exact h

/-- What is left of a member is known without leniency. -/
theorem knowsField_pruneField : (fs : List (String × Shape)) → {free free' : Bool} →
    {name : String} → {r r' : Raw} → knowsField true free fs name r = true →
    pruneField fs name r = some r' → knowsField false free' fs name r' = true
  | [], _, _, _, _, _, _, h => by cases h
  | (n, s) :: fs, _, _, name, r, r', hknows, hprune => by
    rw [knowsField_cons] at hknows ⊢
    rw [pruneField_cons] at hprune
    by_cases hn : n = name
    · rw [if_pos hn] at hknows hprune ⊢
      obtain rfl := Option.some.inj hprune
      exact knows_prune s r hknows
    · rw [if_neg hn] at hknows hprune ⊢
      exact knowsField_pruneField fs hknows hprune

/-- What is left of the items is known without leniency. -/
theorem knowsItems_pruneItems : (fs : List (String × Shape)) → (rs : List Raw) →
    knowsItems true fs rs = true → knowsItems false fs (pruneItems fs rs) = true
  | [], _, h => h
  | _ :: _, [], _ => rfl
  | (n, s) :: fs, r :: rs, h => by
    simp only [pruneItems_cons, knowsItems_cons, Bool.and_eq_true] at h ⊢
    exact ⟨knows_prune s r h.1, knowsItems_pruneItems fs rs h.2⟩

end

mutual

/-- **Nothing is removed where everything is defined.** -/
theorem prune_eq_self : (s : Shape) → (r : Raw) → s.knows false r = true → s.prune r = r
  | .any, r, _ => prune_any r
  | .choice names, r, _ => prune_choice names r
  | .list s, r, h => by
    cases r with
    | array rs =>
      rw [knows_list, List.all_eq_true] at h
      rw [prune_list, List.map_congr_left (g := id) fun r hr ↦ prune_eq_self s r (h r hr),
        List.map_id]
    | _ => rfl
  | .map s, r, h => by
    cases r with
    | object ms =>
      rw [knows_map, List.all_eq_true] at h
      rw [prune_map, List.map_congr_left (g := id) fun m hm ↦ by
        rw [prune_eq_self s m.2 (h m hm)]; rfl, List.map_id]
    | _ => rfl
  | .record strict fs, r, h => by
    cases r with
    | object ms =>
      have hmember : ∀ m ∈ ms, ((m.1.decode?.bind fun name ↦ pruneField fs name m.2).map
          fun r ↦ (m.1, r)) = some m := by
        intro m hm
        obtain ⟨name, hname, hknows⟩ := knows_object_iff.1 h m hm
        rw [hname, Option.bind_some, pruneField_eq_some fs hknows]
        rfl
      rw [prune_object, pruneMembers, List.filterMap_congr hmember, List.filterMap_some]
    | array rs =>
      rw [prune_items, pruneItems_eq_self fs rs h]
    | _ => rfl

/-- A member that is known without leniency is kept as it is. -/
theorem pruneField_eq_some : (fs : List (String × Shape)) → {name : String} → {r : Raw} →
    knowsField false false fs name r = true → pruneField fs name r = some r
  | [], _, _, h => by cases h
  | (n, s) :: fs, name, r, h => by
    rw [knowsField_cons] at h
    rw [pruneField_cons]
    by_cases hn : n = name
    · rw [if_pos hn] at h ⊢
      rw [prune_eq_self s r h]
    · rw [if_neg hn] at h ⊢
      exact pruneField_eq_some fs h

theorem pruneItems_eq_self : (fs : List (String × Shape)) → (rs : List Raw) →
    knowsItems false fs rs = true → pruneItems fs rs = rs
  | [], _, _ => rfl
  | _ :: _, [], _ => rfl
  | (n, s) :: fs, r :: rs, h => by
    rw [knowsItems_cons, Bool.and_eq_true] at h
    rw [pruneItems_cons, prune_eq_self s r h.1, pruneItems_eq_self fs rs h.2]

end

/-- The shape covers what is accepted: no member that it refuses is, and those that it does not
define do not matter. -/
def Covers {α : Type} (s : Shape) (p : Raw → α → Prop) : Prop :=
  ∀ ⦃r : Raw⦄ ⦃a : α⦄, p r a → s.knows true r = true ∧ p (s.prune r) a

end Shape

namespace Codec

variable {α β σ : Type} {αs : List Type}

/-! ### Records -/

namespace Fields

/-- The fields have the given names and shapes, in the sense of `p`. -/
def Have (p : ∀ {α : Type}, Codec α → Shape → Prop) :
    {αs : List Type} → Fields αs → List (String × Shape) → Prop
  | _, .nil, shapes => shapes = []
  | _, .cons f fs, shapes => ∃ s rest, shapes = (f.name, s) :: rest ∧ p f.codec s ∧ fs.Have p rest

theorem Have.imp {p q : ∀ {α : Type}, Codec α → Shape → Prop}
    (hpq : ∀ {α : Type} {c : Codec α} {s : Shape}, p c s → q c s) {fields : Fields αs}
    {shapes : List (String × Shape)} (h : fields.Have p shapes) : fields.Have q shapes := by
  induction fields generalizing shapes with
  | nil => exact h
  | cons f fs ih =>
    obtain ⟨s, rest, hshapes, hs, hrest⟩ := h
    exact ⟨s, rest, hshapes, hpq hs, ih hrest⟩

/-- The shapes cover the fields, one by one. -/
def Covered (accepts : ∀ {α : Type}, Codec α → Raw → α → Prop) (fields : Fields αs)
    (shapes : List (String × Shape)) : Prop :=
  fields.Have (fun c s ↦ s.Covers (accepts c)) shapes

variable {accepts : ∀ {α : Type}, Codec α → Raw → α → Prop} {fields : Fields αs}
  {shapes : List (String × Shape)} {strict : Bool}

/-- A member that fills a slot still does so when it is pruned, and any other is removed. -/
theorem Covered.takes (h : fields.Covered accepts shapes) {slots slots' : Slots αs} {name : String}
    {r : Raw} (htakes : fields.Takes accepts strict slots name r slots') :
    Shape.knowsField true (!strict) shapes name r = true ∧
      ((∃ r', Shape.pruneField shapes name r = some r' ∧ name ∈ fields.names ∧
          fields.Takes accepts strict slots name r' slots') ∨
        (Shape.pruneField shapes name r = none ∧ slots' = slots)) := by
  induction fields generalizing shapes with
  | nil =>
    obtain rfl : shapes = [] := h
    obtain rfl : strict = false := htakes
    exact ⟨rfl, .inr ⟨rfl, rfl⟩⟩
  | cons f fs ih =>
    obtain ⟨s, rest, rfl, hs, hrest⟩ := h
    obtain ⟨slot, slots⟩ := slots
    obtain ⟨slot', slots'⟩ := slots'
    rw [Shape.knowsField_cons, Shape.pruneField_cons]
    rcases htakes with ⟨hname, hslot, hslots, a, ha, heq⟩ | ⟨hname, rfl, htakes⟩
    · rw [if_pos hname, if_pos hname]
      obtain ⟨hknows, hprune⟩ := hs ha
      exact ⟨hknows, .inl ⟨_, rfl, hname ▸ List.mem_cons_self,
        .inl ⟨hname, hslot, hslots, a, hprune, heq⟩⟩⟩
    · rw [if_neg hname, if_neg hname]
      obtain ⟨hknows, ⟨r', hprune, hmem, htakes'⟩ | ⟨hprune, rfl⟩⟩ := ih hrest htakes
      · exact ⟨hknows, .inl ⟨r', hprune, List.mem_cons_of_mem _ hmem, .inr ⟨hname, rfl, htakes'⟩⟩⟩
      · exact ⟨hknows, .inr ⟨hprune, rfl⟩⟩

/-- **Members that no field has can be removed**, and nothing else is. -/
theorem Covered.run (h : fields.Covered accepts shapes) {ms : List (StringSpelling × Raw)}
    {ns : List (String × Raw)} (hns : Named ms ns) {slots slots' : Slots αs}
    (hrun : Run (fields.Takes accepts strict) slots ns slots') :
    (Shape.record strict shapes).knows true (.object ms) = true ∧
      ∃ ns', Named (Shape.pruneMembers shapes ms) ns' ∧ (∀ n ∈ ns', n.1 ∈ fields.names) ∧
        Run (fields.Takes accepts strict) slots ns' slots' := by
  rw [Shape.knows_object_iff]
  induction hns generalizing slots with
  | nil => exact ⟨by simp, [], .nil, by simp, hrun⟩
  | @cons m n ms ns hm hns ih =>
    obtain ⟨k, r⟩ := m
    obtain ⟨name, r'⟩ := n
    obtain ⟨hname, rfl⟩ := hm
    obtain ⟨mid, hstep, hrun⟩ := hrun
    obtain ⟨hknows, ns', hns', hmem, hrun'⟩ := ih hrun
    obtain ⟨hfield, hcases⟩ := h.takes hstep
    refine ⟨List.forall_mem_cons.2 ⟨⟨name, hname, hfield⟩, hknows⟩, ?_⟩
    -- A member that no field has leaves the slots as they are, so the run goes on without it.
    rcases hcases with ⟨r'', hprune, hnames, htakes⟩ | ⟨hprune, rfl⟩
    · refine ⟨(name, r'') :: ns', ?_, List.forall_mem_cons.2 ⟨hnames, hmem⟩, mid, htakes, hrun'⟩
      rw [Shape.pruneMembers_cons hname, hprune]
      exact .cons ⟨hname, rfl⟩ hns'
    · refine ⟨ns', ?_, hmem, hrun'⟩
      rwa [Shape.pruneMembers_cons hname, hprune]

/-- **Items in the order of fields are known**, and are taken when they are pruned. -/
theorem Covered.takesItems (h : fields.Covered accepts shapes) {rs : List Raw} {row : Row αs}
    (htakes : fields.TakesItems accepts rs row) :
    Shape.knowsItems true shapes rs = true ∧
      fields.TakesItems accepts (Shape.pruneItems shapes rs) row := by
  induction fields generalizing shapes rs with
  | nil =>
    obtain rfl : shapes = [] := h
    obtain rfl : rs = [] := htakes
    exact ⟨rfl, rfl⟩
  | cons f fs ih =>
    obtain ⟨s, rest, rfl, hs, hrest⟩ := h
    obtain ⟨a, row⟩ := row
    cases rs with
    | nil => exact ⟨rfl, htakes⟩
    | cons r rs =>
      obtain ⟨hknows, hprune⟩ := hs htakes.1
      obtain ⟨hitems, htakes'⟩ := ih hrest htakes.2
      rw [Shape.knowsItems_cons, Shape.pruneItems_cons, Bool.and_eq_true]
      exact ⟨⟨hknows, hitems⟩, hprune, htakes'⟩

end Fields

/-! ### Reading from a text -/

/-- The shape covers what the codec reads. -/
structure HasShape (c : Codec α) (s : Shape) : Prop where
  uniform : c.Uniform
  covers : ∀ room, s.Covers fun r a ↦ c.Reads room r a

/-- A codec is shown to have a shape by what its reader recognizes. -/
theorem HasShape.of_recognizes {c : Codec α} {s : Shape} {p : Nat → Raw → α → Prop}
    (h : ∀ room, Recognizes (c.read room) (p room)) (hp : ∀ room, s.Covers (p room)) :
    c.HasShape s where
  uniform room := (h room).uniform
  covers room r a ha := by
    obtain ⟨hknows, hprune⟩ := hp room ((h room).reads_iff.1 ha)
    exact ⟨hknows, (h room).reads_iff.2 hprune⟩

/-- Values without brackets have any shape. -/
theorem covers_of_not_isBracket {p : Raw → α → Prop} (h : ∀ r a, p r a → r.isBracket = false)
    (s : Shape) : s.Covers p := by
  intro r a ha
  have hr := h r a ha
  exact ⟨s.knows_of_not_isBracket hr, by rwa [s.prune_of_not_isBracket hr]⟩

/-- A scalar codec reads no brackets, so that it has every shape. -/
theorem hasShape_scalar {write : α → Json} {accept : Found → Except Mismatch α}
    (h : RefusesBrackets accept) (s : Shape) : (scalar write accept).HasShape s :=
  .of_recognizes (recognizes_scalar h) fun _ ↦ covers_of_not_isBracket (fun _ _ ha ↦ ha.1) s

theorem hasShape_string (s : Shape) : string.HasShape s := by
  refine hasShape_scalar ?_ s
  exact .of_error rfl rfl

theorem hasShape_bool (s : Shape) : bool.HasShape s := by
  refine hasShape_scalar ?_ s
  exact .of_error rfl rfl

theorem hasShape_uint32 (s : Shape) : uint32.HasShape s := by
  refine hasShape_scalar ?_ s
  exact .of_error rfl rfl

theorem hasShape_via {c : Codec α} {forward : β → α} {back : α → β} {s : Shape}
    (h : c.HasShape s) : (c.via forward back).HasShape s := by
  refine .of_recognizes (recognizes_via h.uniform) ?_
  rintro room r b ⟨a, ha, heq⟩
  obtain ⟨hknows, hprune⟩ := h.covers room ha
  exact ⟨hknows, a, hprune, heq⟩

/-- What stands for a value that may be missing has the shape of the value. -/
theorem covers_option {p : Raw → α → Prop} {s : Shape} (h : s.Covers p) :
    s.Covers fun r o ↦ (r = .null ∧ o = none) ∨ (r ≠ .null ∧ ∃ a, p r a ∧ o = some a) := by
  rintro r o (⟨rfl, rfl⟩ | ⟨hne, a, ha, rfl⟩)
  · exact ⟨s.knows_of_not_isBracket rfl, .inl ⟨s.prune_of_not_isBracket rfl, rfl⟩⟩
  · obtain ⟨hknows, hprune⟩ := h ha
    exact ⟨hknows, .inr ⟨s.prune_ne_null hne, a, hprune, rfl⟩⟩

theorem hasShape_option {c : Codec α} {s : Shape} (h : c.HasShape s) : (option c).HasShape s :=
  .of_recognizes (recognizes_option h.uniform) fun room ↦ covers_option (h.covers room)

theorem hasShape_payload : payload.HasShape .any :=
  .of_recognizes recognizes_payload fun _ r _ hp ↦
    ⟨Shape.knows_any r, by rwa [Shape.prune_any]⟩

/-- A list has the shape of its items in every place. -/
theorem hasShape_list {c : Codec α} {s : Shape} (h : c.HasShape s) :
    (list c).HasShape (.list s) := by
  refine .of_recognizes (recognizes_list h.uniform) ?_
  rintro room _ as ⟨inner, rs, hroom, rfl, has⟩
  rw [Shape.knows_list, Shape.prune_list]
  refine ⟨List.all_eq_true.2 fun r hr ↦ ?_, inner, _, hroom, rfl, ?_⟩
  · obtain ⟨a, -, ha⟩ := exists_mem_of_forall₂ has hr
    exact (h.covers inner ha).1
  · rw [List.forall₂_map_left_iff]
    exact has.imp fun _ _ ha ↦ (h.covers inner ha).2

/-- **A dictionary has any names**, and its values have their shape. -/
theorem hasShape_dict {repetition : Repetition} {c : Codec α} {s : Shape} (h : c.HasShape s) :
    (dict repetition c).HasShape (.map s) := by
  refine .of_recognizes (recognizes_dict h.uniform) ?_
  rintro room _ d ⟨inner, ms, ns, hroom, rfl, hns, hrun⟩
  rw [Shape.knows_map, Shape.prune_map]
  have hmembers : (ms.all fun m ↦ s.knows true m.2) = true ∧
      Run (AddsEntry repetition c inner) .empty (ns.map fun n ↦ (n.1, s.prune n.2)) d := by
    generalize (Dict.empty : Dict α) = start at hrun
    induction hns generalizing start with
    | nil => exact ⟨rfl, hrun⟩
    | @cons m n ms ns hm hns ih =>
      obtain ⟨mid, ⟨a, ha, hadd⟩, hrun⟩ := hrun
      obtain ⟨hknows, hprune⟩ := h.covers inner ha
      obtain ⟨hall, hrest⟩ := ih mid hrun
      rw [hm.2] at hknows
      exact ⟨by rw [List.all_cons, hknows, hall, Bool.and_self], mid, ⟨a, hprune, hadd⟩, hrest⟩
  refine ⟨hmembers.1, inner, _, _, hroom, rfl, ?_, hmembers.2⟩
  rw [Named, List.forall₂_map_left_iff, List.forall₂_map_right_iff]
  exact hns.imp fun m n hm ↦ ⟨hm.1, by rw [hm.2]⟩

/-- The only member of a choice has one of its names. -/
theorem knows_choice_of_find {name : σ → String} {values : List σ} {k : StringSpelling}
    {key : String} (hk : k.decode? = some key) {v : Variant σ}
    (hv : Variant.find (values.map fun a ↦ .named (name a) a) key = .ok v) (r : Raw) :
    (Shape.choice (values.map name)).knows true (.object [(k, r)]) = true := by
  rw [Variant.find] at hv
  split at hv
  next w hw =>
    obtain ⟨a, ha, rfl⟩ := List.mem_map.1 (List.mem_of_find?_eq_some hw)
    obtain rfl : name a = key :=
      eq_of_beq (List.find?_some (p := fun (x : Variant σ) ↦ x.name == key) hw)
    simpa [Shape.knows_choice, hk] using ⟨a, ha, rfl⟩
  next => cases hv

/-- A choice without contents has the shape of its names. -/
theorem hasShape_names {name : σ → String} {values : List σ} :
    (names name values).HasShape (.choice (values.map name)) := by
  refine .of_recognizes (recognizes_choice fun v hv room ↦ ?_) fun room r a ha ↦ ⟨?_, ?_⟩
  · obtain ⟨b, -, rfl⟩ := List.mem_map.1 hv
    exact (recognizes_named room).uniform
  · rcases ha with ⟨k, key, v, rfl, -⟩ | ⟨inner, k, r', key, v, -, rfl, hk, hv, -⟩
    · exact Shape.knows_of_not_isBracket _ rfl
    · exact knows_choice_of_find hk hv r'
  · rwa [Shape.prune_choice]

theorem Fields.Have.uniform {fields : Fields αs} {shapes : List (String × Shape)}
    (h : fields.Have HasShape shapes) : fields.All Uniform := by
  induction fields generalizing shapes with
  | nil => trivial
  | cons f fs ih =>
    obtain ⟨s, rest, -, hs, hrest⟩ := h
    exact ⟨hs.uniform, ih hrest⟩

/-- The fields of a record are covered by their shapes, in every room. -/
theorem Fields.Have.covered {fields : Fields αs} {shapes : List (String × Shape)}
    (h : fields.Have HasShape shapes) (room : Nat) :
    fields.Covered (fun c r a ↦ c.Reads room r a) shapes :=
  h.imp fun hc ↦ hc.covers room

/-- **A record has the shape of its fields.** -/
theorem hasShape_record {name : String} {strict : Bool} {fields : Fields αs} {toRow : σ → Row αs}
    {ofRow : Row αs → σ} {shapes : List (String × Shape)} (h : fields.Have HasShape shapes) :
    (record name strict fields toRow ofRow).HasShape (.record strict shapes) := by
  refine .of_recognizes (recognizes_record h.uniform) ?_
  rintro room _ a (⟨inner, ms, ns, slots, row, hroom, rfl, hns, hrun, hfinish, rfl⟩ |
    ⟨inner, rs, row, hroom, rfl, htakes, rfl⟩)
  · obtain ⟨hknows, ns', hns', -, hrun'⟩ := (h.covered inner).run hns hrun
    rw [Shape.prune_object]
    exact ⟨hknows, .inl ⟨inner, _, ns', slots, row, hroom, rfl, hns', hrun', hfinish, rfl⟩⟩
  · obtain ⟨hknows, htakes'⟩ := (h.covered inner).takesItems htakes
    rw [Shape.knows_items, Shape.prune_items]
    exact ⟨hknows, .inr ⟨inner, _, row, hroom, rfl, htakes', rfl⟩⟩

/-! ### Reading from a tree -/

/-- The raw value is put aside as a tree, and then read as `a`. -/
def ReadsAside (c : Codec α) (room : Nat) (r : Raw) (a : α) : Prop :=
  ∃ j, Json.Reads (readValue room) r j ∧ c.ofJson .text j = .ok a

/-- What is read from a value that is put aside is what is matched in its tree. -/
theorem readsAside_iff {c : Codec α} {room : Nat} {r : Raw} {j : Json}
    (hj : Json.Reads (readValue room) r j) {a : α} :
    c.ReadsAside room r a ↔ c.ofJson .text j = .ok a := by
  constructor
  · rintro ⟨j', hj', ha⟩
    rwa [(uniform_readValue room).eq_of_reads hj hj']
  · exact fun ha ↦ ⟨j, hj, ha⟩

/-- The shape covers what the codec reads from trees. -/
def HasTreeShape (c : Codec α) (s : Shape) : Prop :=
  ∀ room, s.Covers fun r a ↦ c.ReadsAside room r a

/-- Only an array is read as an array. -/
theorem exists_items_of_reads {room : Nat} {r : Raw} {js : List Json}
    (hj : Json.Reads (readValue room) r (.array js)) :
    ∃ inner rs, room = inner + 1 ∧ r = .array rs ∧
      List.Forall₂ (Json.Reads (readValue inner)) rs js := by
  rw [(recognizes_readValue room).reads_iff] at hj
  cases r with
  | array rs =>
    obtain ⟨inner, js, hroom, hjs, ⟨⟩⟩ := hj
    exact ⟨inner, rs, hroom, rfl, hjs⟩
  | object ms =>
    obtain ⟨_, _, _, _, _, _, heq⟩ := hj
    cases heq
  | _ =>
    obtain ⟨got, -, heq⟩ := hj
    cases got <;> cases heq

/-- Only an object is read as an object. -/
theorem exists_members_of_reads {room : Nat} {r : Raw} {js : List (String × Json)}
    (hj : Json.Reads (readValue room) r (.object js)) :
    ∃ inner ms ns, room = inner + 1 ∧ r = .object ms ∧ Named ms ns ∧
      ReadsMembers (readValue inner) ns js := by
  rw [(recognizes_readValue room).reads_iff] at hj
  cases r with
  | array rs =>
    obtain ⟨_, _, _, _, heq⟩ := hj
    cases heq
  | object ms =>
    obtain ⟨inner, ns, js, hroom, hns, hjs, ⟨⟩⟩ := hj
    exact ⟨inner, ms, ns, hroom, rfl, hns, hjs⟩
  | _ =>
    obtain ⟨got, -, heq⟩ := hj
    cases got <;> cases heq

/-- Brackets are read as brackets. -/
theorem isBracket_eq_false_of_reads {room : Nat} {r : Raw} {j : Json}
    (hj : Json.Reads (readValue room) r j) (harray : j.found ≠ .array)
    (hobject : j.found ≠ .object) : r.isBracket = false := by
  rw [(recognizes_readValue room).reads_iff] at hj
  cases r with
  | array rs =>
    obtain ⟨_, js, -, -, rfl⟩ := hj
    exact absurd rfl harray
  | object ms =>
    obtain ⟨_, _, js, -, -, -, rfl⟩ := hj
    exact absurd rfl hobject
  | _ => rfl

/-- Nothing with brackets is read from a tree. -/
def RefusesTrees (c : Codec α) : Prop :=
  ∀ ⦃j : Json⦄ ⦃a : α⦄, c.ofJson .text j = .ok a → j.found ≠ .array ∧ j.found ≠ .object

theorem RefusesBrackets.found_ne {accept : Found → Except Mismatch α} (h : RefusesBrackets accept)
    {j : Json} {a : α} (ha : accept j.found = .ok a) : j.found ≠ .array ∧ j.found ≠ .object :=
  ⟨fun hfound ↦ (h a).1 (hfound ▸ ha), fun hfound ↦ (h a).2 (hfound ▸ ha)⟩

/-- A scalar codec finds nothing in an array or an object. -/
theorem refusesTrees_scalar {write : α → Json} {accept : Found → Except Mismatch α}
    (h : RefusesBrackets accept) : (scalar write accept).RefusesTrees :=
  fun _ _ ↦ h.found_ne

theorem refusesTrees_string : string.RefusesTrees := by
  refine refusesTrees_scalar ?_
  exact .of_error rfl rfl

theorem refusesTrees_literal : literal.RefusesTrees := by
  have hbrackets : RefusesBrackets literalOfFound := .of_error rfl rfl
  exact fun _ _ ↦ hbrackets.found_ne

/-- A codec that finds nothing in brackets has every shape. -/
theorem RefusesTrees.hasTreeShape {c : Codec α} (h : c.RefusesTrees) (s : Shape) :
    c.HasTreeShape s := by
  refine fun room ↦ covers_of_not_isBracket ?_ s
  rintro r a ⟨j, hj, ha⟩
  exact isBracket_eq_false_of_reads hj (h ha).1 (h ha).2

/-- No value is read from a `null` that is put aside. -/
theorem readsAside_option_iff {c : Codec α} {room : Nat} {r : Raw} {o : Option α} :
    (option c).ReadsAside room r o ↔
      (r = .null ∧ o = none) ∨ (r ≠ .null ∧ ∃ a, c.ReadsAside room r a ∧ o = some a) := by
  have hnull : Json.Reads (readValue room) .null .null :=
    (recognizes_readValue room).reads_iff.2 ⟨.null, rfl, rfl⟩
  have hoption {j : Json} (hj : j ≠ .null) :
      (option c).ofJson .text j = (c.ofJson .text j).map some := by
    cases j with
    | null => exact absurd rfl hj
    | _ => rfl
  by_cases hr : r = .null
  · subst hr
    rw [readsAside_iff hnull]
    simp [option, eq_comm]
  · simp only [hr, false_and, false_or, ne_eq, not_false_eq_true, true_and]
    constructor
    · rintro ⟨j, hj, ho⟩
      rw [hoption fun heq ↦ hr (eq_null_of_reads (heq ▸ hj))] at ho
      obtain ⟨a, ha, rfl⟩ := map_eq_ok_iff.1 ho
      exact ⟨a, ⟨j, hj, ha⟩, rfl⟩
    · rintro ⟨a, ⟨j, hj, ha⟩, rfl⟩
      refine ⟨j, hj, ?_⟩
      rw [hoption fun heq ↦ hr (eq_null_of_reads (heq ▸ hj)), ha]
      rfl

/-- A value that may be missing has the shape of the value, in trees too. -/
theorem hasTreeShape_option {c : Codec α} {s : Shape} (h : c.HasTreeShape s) :
    (option c).HasTreeShape s := by
  intro room
  simp only [readsAside_option_iff]
  exact covers_option (h room)

theorem hasTreeShape_names {name : σ → String} {values : List σ} :
    (names name values).HasTreeShape (.choice (values.map name)) := by
  rintro room r a ⟨j, hj, ha⟩
  rw [Shape.prune_choice]
  refine ⟨?_, j, hj, ha⟩
  match j with
  | .string key =>
    exact Shape.knows_of_not_isBracket _ (isBracket_eq_false_of_reads hj nofun nofun)
  | .object [(key, k)] =>
    obtain ⟨v, hv, -⟩ := bind_eq_ok_iff.1 ha
    obtain ⟨inner, ms, ns, -, rfl, hns, hjs⟩ := exists_members_of_reads hj
    cases hjs with
    | cons hn htail =>
      cases htail
      cases hns with
      | @cons m _ _ _ hm htail =>
        cases htail
        exact knows_choice_of_find (hm.1.trans (congrArg some hn.1.symm)) hv m.2
  | .object [] | .object (_ :: _ :: _) | .null | .bool _ | .int _ | .double _ | .array _ => cases ha

/-! ### Records in trees -/

namespace Fields

/-- Members that are put aside are taken as their trees are. -/
theorem run_takes_aside_iff {fields : Fields αs} {strict : Bool} {room : Nat}
    {ns : List (String × Raw)} {js : List (String × Json)}
    (hjs : ReadsMembers (readValue room) ns js) {slots slots' : Slots αs} :
    Run (fields.Takes (fun c j a ↦ c.ofJson .text j = .ok a) strict) slots js slots' ↔
      Run (fields.Takes (fun c r a ↦ c.ReadsAside room r a) strict) slots ns slots' := by
  induction hjs generalizing slots with
  | nil => rfl
  | @cons n m ns js hm hjs ih =>
    obtain ⟨name, r⟩ := n
    obtain ⟨name', j⟩ := m
    obtain ⟨rfl, hj⟩ := hm
    simp only [Run, ih]
    refine exists_congr fun mid ↦ and_congr_left fun _ ↦ ⟨.imp ?_, .imp ?_⟩
    · exact fields.all_of_forall fun c a ↦ (readsAside_iff hj).2
    · exact fields.all_of_forall fun c a ↦ (readsAside_iff hj).1

/-- A member that fills a slot is read by a codec. -/
theorem exists_accepts_of_takes {V : Type} {accepts : ∀ {α : Type}, Codec α → V → α → Prop}
    {strict : Bool} {fields : Fields αs} {slots slots' : Slots αs} {name : String} {v : V}
    (h : fields.Takes accepts strict slots name v slots') (hname : name ∈ fields.names) :
    ∃ (α : Type) (c : Codec α) (a : α), accepts c v a := by
  induction fields with
  | nil => cases hname
  | cons f fs ih =>
    obtain ⟨slot, slots⟩ := slots
    obtain ⟨slot', slots'⟩ := slots'
    rcases h with ⟨-, -, -, a, ha, -⟩ | ⟨hne, -, hrest⟩
    · exact ⟨_, f.codec, a, ha⟩
    · refine ih hrest ?_
      simpa [names, Ne.symm hne] using hname

/-- Members that fields can take can be put aside, so that there are trees to take them from. -/
theorem exists_readsMembers_of_run {fields : Fields αs} {strict : Bool} {room : Nat}
    {ns : List (String × Raw)} (hnames : ∀ n ∈ ns, n.1 ∈ fields.names) {slots slots' : Slots αs}
    (h : Run (fields.Takes (fun c r a ↦ c.ReadsAside room r a) strict) slots ns slots') :
    ∃ js, ReadsMembers (readValue room) ns js := by
  induction ns generalizing slots with
  | nil => exact ⟨[], .nil⟩
  | cons n ns ih =>
    obtain ⟨name, r⟩ := n
    obtain ⟨hname, hnames⟩ := List.forall_mem_cons.1 hnames
    obtain ⟨mid, hstep, hrun⟩ := h
    obtain ⟨α, c, a, j, hj, -⟩ := exists_accepts_of_takes hstep hname
    obtain ⟨js, hjs⟩ := ih hnames hrun
    exact ⟨(name, j) :: js, .cons ⟨rfl, hj⟩ hjs⟩

variable {fields : Fields αs} {shapes : List (String × Shape)}

theorem Have.coveredAside (h : fields.Have HasTreeShape shapes) (room : Nat) :
    fields.Covered (fun c r a ↦ c.ReadsAside room r a) shapes :=
  h.imp fun hc ↦ hc room

/-- A record that is matched in an object has the shape of its fields. -/
theorem Have.covers_ofObject (h : fields.Have HasTreeShape shapes) (strict : Bool)
    (room : Nat) : (Shape.record strict shapes).Covers fun r row ↦
      ∃ js, Json.Reads (readValue room) r (.object js) ∧
        fields.ofObject strict .text js = .ok row := by
  rintro r row ⟨js, hj, hrow⟩
  obtain ⟨inner, ms, ns, rfl, rfl, hns, hjs⟩ := exists_members_of_reads hj
  obtain ⟨slots, hrun, hfinish⟩ := ofObject_eq_ok_iff.1 hrow
  obtain ⟨hknows, ns', hns', hnames, hrun'⟩ :=
    (h.coveredAside inner).run hns ((run_takes_aside_iff hjs).1 hrun)
  -- The codecs of the fields have read what is left, so it can be put aside as a tree again.
  obtain ⟨js', hjs'⟩ := exists_readsMembers_of_run hnames hrun'
  rw [Shape.prune_object]
  refine ⟨hknows, js', (recognizes_readValue _).reads_iff.2 ⟨inner, ns', js', rfl, hns', hjs', rfl⟩,
    ofObject_eq_ok_iff.2 ⟨slots, (run_takes_aside_iff hjs').2 hrun', hfinish⟩⟩

/-- Items that are put aside are taken as their trees are. -/
theorem takesItems_aside_iff {room : Nat} {rs : List Raw} {js : List Json}
    (hjs : List.Forall₂ (Json.Reads (readValue room)) rs js) {row : Row αs} :
    fields.TakesItems (fun c j a ↦ c.ofJson .text j = .ok a) js row ↔
      fields.TakesItems (fun c r a ↦ c.ReadsAside room r a) rs row := by
  constructor
  · intro h
    refine h.imp (R := fun j r ↦ Json.Reads (readValue room) r j) ?_ hjs.flip
    exact fields.all_of_forall fun c j r a hj ↦ (readsAside_iff hj).2
  · intro h
    refine h.imp (R := Json.Reads (readValue room)) ?_ hjs
    exact fields.all_of_forall fun c r j a hj ↦ (readsAside_iff hj).1

theorem exists_reads_of_takesItems {room : Nat} {rs : List Raw} {row : Row αs}
    (h : fields.TakesItems (fun c r a ↦ c.ReadsAside room r a) rs row) :
    ∃ js, List.Forall₂ (Json.Reads (readValue room)) rs js := by
  induction fields generalizing rs with
  | nil =>
    obtain rfl : rs = [] := h
    exact ⟨[], .nil⟩
  | cons f fs ih =>
    obtain ⟨a, row⟩ := row
    cases rs with
    | nil => exact ⟨[], .nil⟩
    | cons r rs =>
      obtain ⟨⟨j, hj, -⟩, hrest⟩ := h
      obtain ⟨js, hjs⟩ := ih hrest
      exact ⟨j :: js, .cons hj hjs⟩

/-- A record that is matched in an array has the shape of its fields. -/
theorem Have.covers_ofArray (h : fields.Have HasTreeShape shapes) (strict : Bool)
    (type : String) (room : Nat) : (Shape.record strict shapes).Covers fun r row ↦
      ∃ js, Json.Reads (readValue room) r (.array js) ∧ fields.ofArray .text type js = .ok row := by
  rintro r row ⟨js, hj, hrow⟩
  obtain ⟨inner, rs, rfl, rfl, hjs⟩ := exists_items_of_reads hj
  obtain ⟨hknows, htakes⟩ :=
    (h.coveredAside inner).takesItems ((takesItems_aside_iff hjs).1 (ofArray_eq_ok_iff.1 hrow))
  obtain ⟨js', hjs'⟩ := exists_reads_of_takesItems htakes
  rw [Shape.knows_items, Shape.prune_items]
  exact ⟨hknows, js', (recognizes_readValue _).reads_iff.2 ⟨inner, js', rfl, hjs', rfl⟩,
    ofArray_eq_ok_iff.2 ((takesItems_aside_iff hjs').2 htakes)⟩

end Fields

/-- **A record has the shape of its fields, in trees too.** -/
theorem hasTreeShape_record {name : String} {strict : Bool} {fields : Fields αs}
    {toRow : σ → Row αs} {ofRow : Row αs → σ} {shapes : List (String × Shape)}
    (h : fields.Have HasTreeShape shapes) :
    (record name strict fields toRow ofRow).HasTreeShape (.record strict shapes) := by
  rintro room r a ⟨j, hj, ha⟩
  cases j with
  | object js =>
    obtain ⟨row, hrow, rfl⟩ := map_eq_ok_iff.1 ha
    obtain ⟨hknows, js', hj', hrow'⟩ := h.covers_ofObject strict room ⟨js, hj, hrow⟩
    exact ⟨hknows, .object js', hj', map_eq_ok_iff.2 ⟨row, hrow', rfl⟩⟩
  | array js =>
    obtain ⟨row, hrow, rfl⟩ := map_eq_ok_iff.1 ha
    obtain ⟨hknows, js', hj', hrow'⟩ := h.covers_ofArray strict _ room ⟨js, hj, hrow⟩
    exact ⟨hknows, .array js', hj', map_eq_ok_iff.2 ⟨row, hrow', rfl⟩⟩
  | _ => cases ha

end Codec
end Pipework
