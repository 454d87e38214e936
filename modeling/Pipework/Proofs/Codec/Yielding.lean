import Pipework.Proofs.Codec.Restoring

/-!
# What readers can return

Some properties hold of everything that a codec reads, whatever the text. Such a property of the
items of a list, of the entries of a dictionary, of the contents of a choice or of the fields of a
record follows from that of the codec by which they are read. For objects it is an invariant of the
state that goes from member to member (`members_invariant`).
-/

namespace Pipework

namespace Json

variable {α σ : Type}

/-- The items of an array are read one by one, so that each has what the reader of items
guarantees. -/
theorem items_forall {item : List Char → Except Fault (Read α)} {p : α → Prop}
    (h : ∀ {s a t}, item s = .ok (a, t) → p a) {fuel : Nat} {first : Bool} {s t : List Char}
    {as : List α} (hitems : items item fuel first s = .ok (as, t)) : ∀ a ∈ as, p a := by
  induction fuel generalizing first s as with
  | zero => cases hitems
  | succ fuel ih =>
    rw [items] at hitems
    split at hitems
    · cases hitems
    · cases hitems
      exact List.forall_mem_nil _
    · split at hitems
      · cases hitems
      next a u ha =>
        split at hitems
        · cases hitems
        next bs v hbs =>
          cases hitems
          exact List.forall_mem_cons.2 ⟨h ha, ih hbs⟩

/-- What every member preserves, an object preserves. -/
theorem members_invariant {member : σ → String → List Char → Except Fault (Read σ)}
    (inv : σ → Prop)
    (h : ∀ {state key s state' t}, inv state → member state key s = .ok (state', t) → inv state')
    {fuel : Nat} {first : Bool} {state state' : σ} {s t : List Char} (hstate : inv state)
    (hmembers : members member fuel first state s = .ok (state', t)) : inv state' := by
  induction fuel generalizing first state s with
  | zero => cases hmembers
  | succ fuel ih =>
    rw [members] at hmembers
    split at hmembers
    · cases hmembers
    · cases hmembers
      exact hstate
    · split at hmembers
      · cases hmembers
      · split at hmembers
        · cases hmembers
        next mid u hmid => exact ih (h hstate hmid) hmembers

end Json

namespace Codec

open Json

variable {α β σ : Type} {αs : List Type}

/-- Whatever is read has the property. -/
def Yields (c : Codec α) (p : α → Prop) : Prop :=
  ∀ ⦃room : Nat⦄ ⦃s : List Char⦄ ⦃a : α⦄ ⦃t : List Char⦄, c.read room s = .ok (a, t) → p a

/-- **What a parsed value has** is what the codec yields. -/
theorem Yields.of_parse {c : Codec α} {p : α → Prop} (h : c.Yields p) {text : String} {a : α}
    (hparse : c.parse text = .ok a) : p a := by
  obtain ⟨⟨b, t⟩, hread, hend⟩ := bind_eq_ok_iff.1 hparse
  simp only at hend
  split at hend
  · cases hend
    exact h hread
  · cases hend

/-- A scalar codec yields what holds of all that it accepts. -/
theorem yields_scalar {write : α → Json} {accept : Found → Except Mismatch α} {p : α → Prop}
    (h : ∀ {s got t a}, readFound s = .ok (got, t) → accept got = .ok a → p a) :
    (scalar write accept).Yields p := by
  intro room s a t hread
  obtain ⟨u, -, hread⟩ := bind_eq_ok_iff.1 hread
  obtain ⟨⟨got, v⟩, hfound, hread⟩ := bind_eq_ok_iff.1 hread
  obtain ⟨b, haccept, heq⟩ := bind_eq_ok_iff.1 hread
  cases heq
  exact h hfound (orFault_eq_ok_iff.1 haccept)

theorem yields_via {c : Codec α} {forward : β → α} {back : α → β} {p : β → Prop}
    (h : ∀ a, p (back a)) : (c.via forward back).Yields p := by
  intro room s b t hread
  obtain ⟨⟨a, u⟩, -, heq⟩ := map_eq_ok_iff.1 hread
  cases heq
  exact h a

theorem yields_option {c : Codec α} {p : α → Prop} (h : c.Yields p) :
    (option c).Yields fun o ↦ ∀ a ∈ o, p a := by
  intro room s o t hread
  simp only [option] at hread
  split at hread
  · obtain ⟨u, -, heq⟩ := map_eq_ok_iff.1 hread
    cases heq
    exact fun a ha ↦ absurd ha (Option.not_mem_none a)
  · obtain ⟨⟨a, u⟩, ha, heq⟩ := map_eq_ok_iff.1 hread
    cases heq
    exact fun b hb ↦ Option.mem_some_iff.1 hb ▸ h ha

/-- The items of a list have what the codec of items yields. -/
theorem yields_list {c : Codec α} {p : α → Prop} (h : c.Yields p) :
    (list c).Yields fun as ↦ ∀ a ∈ as, p a := by
  intro room s as t hread
  obtain ⟨u, -, hread⟩ := bind_eq_ok_iff.1 hread
  split at hread
  · obtain ⟨inner, -, hread⟩ := bind_eq_ok_iff.1 hread
    obtain ⟨⟨bs, v⟩, hitems, hread⟩ := bind_eq_ok_iff.1 hread
    obtain ⟨w, -, heq⟩ := bind_eq_ok_iff.1 hread
    cases heq
    exact items_forall (fun ha ↦ h ha) hitems
  · cases hread

/-- The values of a dictionary have what their codec yields. Adding an entry keeps this. -/
theorem yields_dict {repetition : Repetition} {c : Codec α} {p : α → Prop} (h : c.Yields p) :
    (dict repetition c).Yields fun d ↦ ∀ e ∈ d.entries, p e.2 := by
  intro room s d t hread
  obtain ⟨u, -, hread⟩ := bind_eq_ok_iff.1 hread
  simp only at hread
  split at hread
  · obtain ⟨inner, -, hread⟩ := bind_eq_ok_iff.1 hread
    refine members_invariant (fun d ↦ ∀ e ∈ d.entries, p e.2) ?_ nofun hread
    intro d key s d' t hd hmember
    obtain ⟨v, -, hmember⟩ := bind_eq_ok_iff.1 hmember
    obtain ⟨⟨a, w⟩, ha, hmember⟩ := bind_eq_ok_iff.1 hmember
    obtain ⟨d'', hadd, heq⟩ := bind_eq_ok_iff.1 hmember
    cases heq
    have hadd := orFault_eq_ok_iff.1 hadd
    rw [addEntry] at hadd
    split at hadd
    · cases hadd
    · cases hadd
      intro e he
      rcases Dict.eq_or_mem_of_mem_insertEntry he with rfl | he
      · exact h ha
      · exact hd e he
  · cases hread

/-! ### Choices -/

/-- Whatever is read as the variant has the property. -/
structure Variant.Yields (v : Variant σ) (p : σ → Prop) : Prop where
  bare : ∀ {a}, v.bare = .ok a → p a
  read : ∀ {room s a t}, v.read room s = .ok (a, t) → p a

theorem Variant.yields_holding {name : String} {c : Codec α} {make : α → σ} {p : σ → Prop}
    (h : c.Yields fun a ↦ p (make a)) : (Variant.holding name c make).Yields p where
  bare := nofun
  read hread := by
    obtain ⟨⟨a, t⟩, ha, heq⟩ := map_eq_ok_iff.1 hread
    cases heq
    exact h ha

/-- A choice yields what all its variants do. -/
theorem yields_choice {variants : List (Variant σ)} {write : σ → Json} {p : σ → Prop}
    (h : ∀ v ∈ variants, v.Yields p) : (choice variants write).Yields p := by
  intro room s a t hread
  obtain ⟨u, -, hread⟩ := bind_eq_ok_iff.1 hread
  split at hread
  · obtain ⟨⟨name, w⟩, -, hread⟩ := bind_eq_ok_iff.1 hread
    obtain ⟨v, hv, hread⟩ := bind_eq_ok_iff.1 hread
    obtain ⟨b, hb, heq⟩ := bind_eq_ok_iff.1 hread
    cases heq
    exact (h v (Variant.mem_of_find (orFault_eq_ok_iff.1 hv))).bare (orFault_eq_ok_iff.1 hb)
  · obtain ⟨inner, -, hread⟩ := bind_eq_ok_iff.1 hread
    obtain ⟨⟨name, w⟩, -, hread⟩ := bind_eq_ok_iff.1 hread
    obtain ⟨v, hv, hread⟩ := bind_eq_ok_iff.1 hread
    obtain ⟨x, -, hread⟩ := bind_eq_ok_iff.1 hread
    obtain ⟨⟨b, y⟩, hb, hread⟩ := bind_eq_ok_iff.1 hread
    obtain ⟨z, -, heq⟩ := bind_eq_ok_iff.1 hread
    cases heq
    exact (h v (Variant.mem_of_find (orFault_eq_ok_iff.1 hv))).read hb
  · cases hread

/-! ### Records -/

/-- The value that stands for a missing field has the property. -/
def Missing.All (p : α → Prop) : Missing α → Prop
  | .refused => True
  | .inObject a | .anywhere a => p a

/-- Whatever is read for the fields, together with the values that stand for missing ones, has the
property. Fields about which nothing is said are passed over. -/
inductive Fields.Yields : {αs : List Type} → Fields αs → (Row αs → Prop) → Prop
  | any {αs : List Type} {fields : Fields αs} : fields.Yields fun _ ↦ True
  | pass {α : Type} {αs : List Type} {f : Field α} {fs : Fields αs} {q : Row αs → Prop}
    (hrest : fs.Yields q) : Fields.Yields (.cons f fs) fun row ↦ q row.2
  | cons {α : Type} {αs : List Type} {f : Field α} {fs : Fields αs} {p : α → Prop}
    {q : Row αs → Prop} (h : f.codec.Yields p) (hmissing : f.missing.All p)
    (hrest : fs.Yields q) : Fields.Yields (.cons f fs) fun row ↦ p row.1 ∧ q row.2

namespace Fields

/-- A member goes into the slot of the first field or to the other fields, and changes no other
slot. -/
theorem readMember_cons_cases {α : Type} {f : Field α} {fs : Fields αs} {room : Nat}
    {slots slots' : Slots (α :: αs)} {key : String} {s t : List Char}
    (h : (Fields.cons f fs).readMember room slots key s = .ok (some (slots', t))) :
    (slots'.2 = slots.2 ∧ ∃ u a, f.codec.read room u = .ok (a, t) ∧ slots'.1 = some a) ∨
      (slots'.1 = slots.1 ∧ fs.readMember room slots.2 key s = .ok (some (slots'.2, t))) := by
  obtain ⟨slot, slots⟩ := slots
  rw [readMember.eq_def] at h
  simp only at h
  split at h
  · cases slot with
    | some a => cases h
    | none =>
      obtain ⟨u, -, h⟩ := bind_eq_ok_iff.1 h
      obtain ⟨⟨a, v⟩, ha, heq⟩ := bind_eq_ok_iff.1 h
      cases heq
      exact .inl ⟨rfl, u, a, ha, rfl⟩
  · obtain ⟨o, ho, heq⟩ := bind_eq_ok_iff.1 h
    cases o with
    | none => cases heq
    | some r =>
      cases heq
      exact .inr ⟨rfl, ho⟩

/-- The slots have an invariant that gives the property of the row in the end. -/
theorem Yields.exists_invariant {fields : Fields αs} {q : Row αs → Prop} (h : fields.Yields q) :
    ∃ inv : Slots αs → Prop, inv fields.empty ∧
      (∀ {room slots key s slots' t}, inv slots →
        fields.readMember room slots key s = .ok (some (slots', t)) → inv slots') ∧
      ∀ {slots row}, inv slots → fields.finish slots = .ok row → q row := by
  induction h with
  | any => exact ⟨fun _ ↦ True, trivial, fun _ _ ↦ trivial, fun _ _ ↦ trivial⟩
  | pass hrest ih =>
    obtain ⟨inv, hempty, hmember, hfinish⟩ := ih
    refine ⟨fun slots ↦ inv slots.2, hempty, fun hinv hread ↦ ?_, fun hinv hrow ↦ ?_⟩
    · rcases readMember_cons_cases hread with ⟨heq, -⟩ | ⟨-, hread⟩
      · rwa [heq]
      · exact hmember hinv hread
    · exact hfinish hinv (finish_cons_iff.1 hrow).2
  | @cons _ _ _ _ p _ h hmissing hrest ih =>
    obtain ⟨inv, hempty, hmember, hfinish⟩ := ih
    refine ⟨fun slots ↦ (∀ a, slots.1 = some a → p a) ∧ inv slots.2, ⟨nofun, hempty⟩,
      fun hinv hread ↦ ?_, fun hinv hrow ↦ ?_⟩
    · rcases readMember_cons_cases hread with ⟨heq, u, a, ha, hslot⟩ | ⟨heq, hread⟩
      · refine ⟨fun b hb ↦ ?_, heq ▸ hinv.2⟩
        rw [hslot] at hb
        cases hb
        exact h ha
      · exact ⟨heq ▸ hinv.1, hmember hinv.2 hread⟩
    · obtain ⟨hslot | ⟨-, hdefault | hdefault⟩, hrow⟩ := finish_cons_iff.1 hrow
      · exact ⟨hinv.1 _ hslot, hfinish hinv.2 hrow⟩
      · exact ⟨by rwa [hdefault] at hmissing, hfinish hinv.2 hrow⟩
      · exact ⟨by rwa [hdefault] at hmissing, hfinish hinv.2 hrow⟩

/-- The first field is read from the first item or gets its default value. -/
theorem readItems_cons_cases {α : Type} {f : Field α} {fs : Fields αs} {room index : Nat}
    {wanted : String} {s t : List Char} {row : Row (α :: αs)}
    (h : (Fields.cons f fs).readItems room wanted index s = .ok (row, t)) :
    (f.missing = .anywhere row.1 ∨ ∃ u v, f.codec.read room u = .ok (row.1, v)) ∧
      ∃ u, fs.readItems room wanted (index + 1) u = .ok (row.2, t) := by
  rw [readItems] at h
  obtain ⟨o, -, h⟩ := bind_eq_ok_iff.1 h
  cases o with
  | some u =>
    obtain ⟨⟨a, v⟩, ha, h⟩ := bind_eq_ok_iff.1 h
    obtain ⟨⟨row', w⟩, hrow, heq⟩ := bind_eq_ok_iff.1 h
    cases heq
    exact ⟨.inr ⟨u, v, ha⟩, v, hrow⟩
  | none =>
    simp only at h
    split at h
    next a hmissing =>
      obtain ⟨⟨row', w⟩, hrow, heq⟩ := bind_eq_ok_iff.1 h
      cases heq
      exact ⟨.inl hmissing, s, hrow⟩
    next => cases h

/-- A row that is read from an array has what the fields yield. -/
theorem Yields.readItems {fields : Fields αs} {q : Row αs → Prop} (h : fields.Yields q)
    {room index : Nat} {wanted : String} {s t : List Char} {row : Row αs}
    (hread : fields.readItems room wanted index s = .ok (row, t)) : q row := by
  induction h generalizing index s with
  | any => trivial
  | pass hrest ih =>
    obtain ⟨-, u, hrow⟩ := readItems_cons_cases hread
    exact ih hrow
  | cons h hmissing hrest ih =>
    obtain ⟨hfirst, u, hrow⟩ := readItems_cons_cases hread
    refine ⟨?_, ih hrow⟩
    rcases hfirst with hdefault | ⟨v, w, ha⟩
    · rwa [hdefault] at hmissing
    · exact h ha

end Fields

/-- **A record yields what its fields do**, whether it is read from an object or an array. -/
theorem yields_record {name : String} {strict : Bool} {fields : Fields αs} {toRow : σ → Row αs}
    {ofRow : Row αs → σ} {q : Row αs → Prop} {p : σ → Prop} (h : fields.Yields q)
    (hrow : ∀ row, q row → p (ofRow row)) :
    (record name strict fields toRow ofRow).Yields p := by
  intro room s a t hread
  obtain ⟨u, -, hread⟩ := bind_eq_ok_iff.1 hread
  simp only at hread
  split at hread
  · obtain ⟨inv, hempty, hmember, hfinish⟩ := h.exists_invariant
    obtain ⟨inner, -, hread⟩ := bind_eq_ok_iff.1 hread
    obtain ⟨⟨slots, v⟩, hobject, hread⟩ := bind_eq_ok_iff.1 hread
    obtain ⟨row, hfinished, heq⟩ := bind_eq_ok_iff.1 hread
    cases heq
    refine hrow row (hfinish (members_invariant inv ?_ hempty hobject)
      (orFault_eq_ok_iff.1 hfinished))
    intro slots key s slots' t hinv hread
    obtain ⟨o, ho, hread⟩ := bind_eq_ok_iff.1 hread
    cases o with
    | some r =>
      cases hread
      exact hmember hinv ho
    | none =>
      -- A member that is no field is passed over.
      simp only at hread
      split at hread
      · cases hread
      · obtain ⟨x, -, hread⟩ := bind_eq_ok_iff.1 hread
        obtain ⟨y, -, heq⟩ := bind_eq_ok_iff.1 hread
        cases heq
        exact hinv
  · obtain ⟨inner, -, hread⟩ := bind_eq_ok_iff.1 hread
    obtain ⟨⟨row, v⟩, hitems, hread⟩ := bind_eq_ok_iff.1 hread
    obtain ⟨w, -, heq⟩ := bind_eq_ok_iff.1 hread
    cases heq
    exact hrow row (h.readItems hitems)
  · cases hread

end Codec
end Pipework
