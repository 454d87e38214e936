import Pipework.Proofs.Codec.Restoring

/-!
# What codecs write they find again in a tree

Some values are first read as a tree, whatever they are, and then matched with the forms that their
type has. For these the text goes through a tree in between, and a codec has to match the tree
instead of reading the text. As before, what was written is matched exactly if it is rereadable;
options and records match what their parts match.
-/

namespace Pipework.Codec

open Json

variable {α : Type} {αs : List Type}

/-- What is written for the value, read as a tree first, is matched as the value, exactly if it is
rereadable. -/
def MatchesAt (c : Codec α) (a : α) : Prop :=
  ∀ room, (∃ j, Json.Reads (readValue room) (c.write a).toRaw j ∧ c.ofJson .text j = .ok a) ↔
    Rereadable room (c.write a)

/-- A value that is written exactly is matched if it is found in what is written. -/
theorem matchesAt_of_exact {c : Codec α} {a : α} (h : Exact (c.write a))
    (hmatch : c.ofJson .text (c.write a) = .ok a) : c.MatchesAt a := by
  intro room
  rw [← reads_toRaw_iff _ h.1]
  constructor
  · rintro ⟨j, hread, -⟩
    rwa [h.2 room j hread] at hread
  · intro hread
    exact ⟨_, hread, hmatch⟩

/-- Only `null` is read as `null`. -/
theorem eq_null_of_reads {room : Nat} {r : Raw} (h : Json.Reads (readValue room) r .null) :
    r = .null := by
  rw [(recognizes_readValue room).reads_iff] at h
  cases r with
  | null => rfl
  | bool b => simp [ReadsTree, Raw.found?, Found.toJson] at h
  | number n =>
    obtain ⟨got, hgot, heq⟩ := h
    obtain ⟨v, -, rfl⟩ := Option.map_eq_some_iff.1 hgot
    cases v <;> cases heq
  | string k =>
    obtain ⟨got, hgot, heq⟩ := h
    obtain ⟨s, -, rfl⟩ := Option.map_eq_some_iff.1 hgot
    cases heq
  | array rs => simp [ReadsTree] at h
  | object ms => simp [ReadsTree] at h

/-- An optional value is matched if `null` stands for no value. -/
theorem matchesAt_option {c : Codec α} {o : Option α}
    (hc : ∀ a ∈ o, c.MatchesAt a ∧ c.write a ≠ .null) : (option c).MatchesAt o := by
  cases o with
  | none => exact matchesAt_of_exact exact_null rfl
  | some a =>
    obtain ⟨hmatches, hnull⟩ := hc a rfl
    have hsome {j : Json} : (option c).ofJson .text j = .ok (some a) ↔
        j ≠ .null ∧ c.ofJson .text j = .ok a := by
      cases j <;> simp [option, map_eq_ok_iff]
    intro room
    show (∃ j, Json.Reads (readValue room) (c.write a).toRaw j ∧ _) ↔ Rereadable room (c.write a)
    simp only [hsome]
    constructor
    · rintro ⟨j, hread, -, hmatch⟩
      exact (hmatches room).1 ⟨j, hread, hmatch⟩
    · intro hrereadable
      obtain ⟨j, hread, hmatch⟩ := (hmatches room).2 hrereadable
      refine ⟨j, hread, ?_, hmatch⟩
      rintro rfl
      exact toRaw_ne_null hrereadable hnull (eq_null_of_reads hread)

/-! ### Records -/

/-- Every field of a row is matched, and none is left out. -/
def Fields.MatchesAt : {αs : List Type} → Fields αs → Row αs → Prop
  | _, .nil, _ => True
  | _, .cons f fs, (a, row) => (f.codec.MatchesAt a ∧ f.omitted a = false) ∧ fs.MatchesAt row

/-- An object is read with a member for each of its own ones, one level deeper. -/
theorem reads_object_iff {room : Nat} {ms : List (String × Json)} {j : Json} :
    Json.Reads (readValue room) (Json.object ms).toRaw j ↔ ∃ inner js, room = inner + 1 ∧
      ReadsMembers (readValue inner) (ms.map fun m ↦ (m.1, m.2.toRaw)) js ∧ j = .object js := by
  rw [(recognizes_readValue room).reads_iff, toRaw]
  simp only [ReadsTree, named_rawMembers_iff]
  constructor
  · rintro ⟨inner, ns, js, hroom, rfl, hjs, hj⟩
    exact ⟨inner, js, hroom, hjs, hj⟩
  · rintro ⟨inner, js, hroom, hjs, hj⟩
    exact ⟨inner, _, js, hroom, rfl, hjs, hj⟩

/-- The members written for a row, read as trees first, are matched as the row exactly if each of
them is rereadable. The induction is on the fields, as for members that are read at once. -/
theorem Fields.matches_write_iff {fields : Fields αs} (hnames : fields.names.Nodup)
    {row : Row αs} (hrow : fields.MatchesAt row) (strict : Bool) (room : Nat) :
    (∃ js, ReadsMembers (readValue room) ((fields.write row).map fun m ↦ (m.1, m.2.toRaw)) js ∧
        fields.ofObject strict .text js = .ok row) ↔
      ∀ m ∈ fields.write row, Rereadable room m.2 := by
  simp only [ofObject_eq_ok_iff]
  induction fields with
  | nil => exact iff_of_true ⟨[], .nil, (), rfl, rfl⟩ fun m hm ↦ nomatch hm
  | cons f fs ih =>
    obtain ⟨a, row⟩ := row
    obtain ⟨⟨hfield, hwritten⟩, hrest⟩ := hrow
    obtain ⟨hname, hnames⟩ := List.nodup_cons.1 hnames
    -- No later member has the name of the first field, so that its slot stays as it is.
    have hother {js : List (String × Json)} (hjs : ReadsMembers (readValue room)
        ((fs.write row).map fun m ↦ (m.1, m.2.toRaw)) js) : ∀ n ∈ js, f.name ≠ n.1 := by
      intro n hn heq
      obtain ⟨r, hr, hnr, -⟩ := exists_mem_of_forall₂_right hjs hn
      obtain ⟨m, hm, rfl⟩ := List.mem_map.1 hr
      exact hname (heq ▸ hnr ▸ name_mem_names hm)
    rw [write, hwritten, if_neg Bool.false_ne_true, List.forall_mem_cons, ← ih hnames hrest,
      ← hfield room, List.map_cons]
    constructor
    · rintro ⟨_, hjs, ⟨slot, slots⟩, hrun, hfinish⟩
      cases hjs with
      | @cons _ n _ js hn hjs =>
        obtain ⟨name, j⟩ := n
        obtain ⟨rfl, hread⟩ := hn
        obtain ⟨⟨mid, mids⟩, htakes, hlater⟩ := hrun
        obtain ⟨rfl, hrun⟩ := (run_takes_cons_iff (hother hjs)).1 hlater
        obtain ⟨hslot, hrow⟩ := finish_cons_iff.1 hfinish
        rcases htakes with ⟨-, -, rfl, b, hb, rfl⟩ | ⟨hne, -⟩
        · obtain rfl : b = a := by simpa using hslot
          exact ⟨⟨j, hread, hb⟩, js, hjs, slots, hrun, hrow⟩
        · exact absurd rfl hne
    · rintro ⟨⟨j, hread, hmatch⟩, js, hjs, slots, hrun, hfinish⟩
      exact ⟨(f.name, j) :: js, .cons ⟨rfl, hread⟩ hjs, (some a, slots), ⟨(some a, fs.empty),
        .inl ⟨rfl, rfl, rfl, a, hmatch, rfl⟩, (run_takes_cons_iff (hother hjs)).2 ⟨rfl, hrun⟩⟩,
        finish_cons_iff.2 ⟨.inl rfl, hfinish⟩⟩

/-- **A record is matched** if each of its fields is. -/
theorem matchesAt_record {name : String} {strict : Bool} {fields : Fields αs}
    {toRow : α → Row αs} {ofRow : Row αs → α} (hnames : fields.names.Nodup)
    (hleft : Function.LeftInverse ofRow toRow) (hright : Function.RightInverse ofRow toRow) {a : α}
    (hfields : fields.MatchesAt (toRow a)) :
    (record name strict fields toRow ofRow).MatchesAt a := by
  intro room
  show (∃ j, Json.Reads (readValue room) (Json.object (fields.write (toRow a))).toRaw j ∧ _) ↔
    Rereadable room (.object (fields.write (toRow a)))
  simp only [rereadable_object_iff, reads_object_iff,
    ← Fields.matches_write_iff hnames hfields strict]
  constructor
  · rintro ⟨_, ⟨inner, js, hroom, hjs, rfl⟩, hmatch⟩
    obtain ⟨row, hrow, rfl⟩ := map_eq_ok_iff.1 hmatch
    exact ⟨inner, hroom, js, hjs, by rwa [hright]⟩
  · rintro ⟨inner, hroom, js, hjs, hmatch⟩
    exact ⟨.object js, ⟨inner, js, hroom, hjs, rfl⟩, map_eq_ok_iff.2 ⟨_, hmatch, (hleft a).symm⟩⟩

end Pipework.Codec
