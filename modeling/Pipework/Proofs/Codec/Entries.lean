import Pipework.Proofs.Codec.Room

/-!
# Where entries and fields come from

A dictionary that refuses repetitions has one entry for each member of the object from which it is
read, and names occur once (`keeps_of_reads`). A field of a record has the only value that is held
for it, by an object or by an array in the order of the fields, or else its default
(`Fields.filled_of_reads`).
-/

namespace Pipework

/-! ### Dictionaries -/

/-- A new entry stands beside the old ones, wherever that is. -/
theorem Dict.perm_insert {β : Type} {d : Dict β} {key : String} (h : d.contains key ≠ true)
    (value : β) : (d.insert key value).entries.Perm ((key, value) :: d.entries) := by
  have hkeys : ∀ e ∈ d.entries, e.1 ≠ key := by
    intro e he heq
    exact h (contains_iff_mem_keys.2 (heq ▸ List.mem_map_of_mem he))
  show (insertEntry key value d.entries).Perm _
  generalize d.entries = es at hkeys
  induction es with
  | nil => exact .rfl
  | cons e es ih =>
    obtain ⟨k, v⟩ := e
    obtain ⟨hk, hes⟩ := List.forall_mem_cons.1 hkeys
    rw [insertEntry]
    split
    next => exact .rfl
    next =>
      rw [if_neg (Ne.symm hk)]
      exact ((ih hes).cons _).trans (.swap _ _ _)

/-- Every key of a dictionary stands in it once. -/
theorem Dict.nodup_keys {β : Type} (d : Dict β) : d.keys.Nodup :=
  List.pairwise_map.2 (d.sorted.imp fun h ↦ String.ne_of_lt h)

/-- The value is held for a field: by a member with the name of the field, or at its place. -/
def Json.Raw.Holds (names : List String) : Raw → String → Raw → Prop
  | .object ms, name, v => ∃ k, (k, v) ∈ ms ∧ k.decode? = some name
  | .array rs, name, v => ∃ i : Nat, names[i]? = some name ∧ rs[i]? = some v
  | _, _, _ => False

namespace Codec

open Json

variable {α σ V : Type} {αs : List Type}

/-- The entries are those of the members: names are distinct once they are decoded, and each has the
value that its member has as a text of its own. -/
structure Keeps (c : Codec α) (ms : List (StringSpelling × Raw)) (d : Dict α) : Prop where
  distinct : (ms.map (·.1.decode?)).Nodup
  entries : ∃ es, es.Perm d.entries ∧ List.Forall₂ (fun m e ↦ m.1.decode? = some e.1 ∧
    ∀ text, m.2.IsText text → c.parse text = .ok e.2) ms es

/-- Entries that are added to a dictionary stay as they are. -/
theorem exists_entries_of_run {c : Codec α} {room : Nat} {ns : List (String × Raw)} {d d' : Dict α}
    (h : Run (AddsEntry .refused c room) d ns d') :
    ∃ es, List.Forall₂ (fun n e ↦ e.1 = n.1 ∧ c.Reads room n.2 e.2) ns es ∧
      (es ++ d.entries).Perm d'.entries := by
  induction ns generalizing d with
  | nil =>
    obtain rfl : d' = d := h
    exact ⟨[], .nil, .rfl⟩
  | cons n ns ih =>
    obtain ⟨name, r⟩ := n
    obtain ⟨mid, ⟨a, ha, hadd⟩, hrun⟩ := h
    obtain ⟨hnew, rfl⟩ := addEntry_eq_ok_iff.1 hadd
    obtain ⟨es, hes, hperm⟩ := ih hrun
    refine ⟨(name, a) :: es, .cons ⟨rfl, ha⟩ hes, .trans ?_ hperm⟩
    exact (List.perm_middle.symm).trans
      (.append_left es (Dict.perm_insert (fun hold ↦ hnew ⟨rfl, hold⟩) a).symm)

/-- **No entry is lost and none is overwritten.** -/
theorem keeps_of_reads {c : Codec α} (hc : c.Roomy) {room : Nat} (hle : room ≤ maxDepth) {r : Raw}
    {d : Dict α} (h : (dict .refused c).Reads room r d) : ∃ ms, r = .object ms ∧ c.Keeps ms d := by
  obtain ⟨inner, ms, ns, rfl, rfl, hns, hrun⟩ :=
    (recognizes_dict hc.uniform room).reads_iff.1 h
  obtain ⟨es, hes, hperm⟩ := exists_entries_of_run hrun
  replace hperm : es.Perm d.entries := by simpa [Dict.empty] using hperm
  have hentries :
      List.Forall₂ (fun m e ↦ m.1.decode? = some e.1 ∧ c.Reads inner m.2 e.2) ms es := by
    refine (forall₂_of_left hns.flip hes).imp fun m e he ↦ ?_
    obtain ⟨n, ⟨hname, hvalue⟩, hkey, ha⟩ := he
    exact ⟨hkey ▸ hname, hvalue ▸ ha⟩
  -- The keys of a dictionary are distinct, and the names are the keys.
  have hnames : ms.map (·.1.decode?) = es.map fun e ↦ some e.1 :=
    map_eq_of_forall₂ hentries fun _ _ he ↦ he.1
  refine ⟨ms, rfl, ?_, es, hperm, hentries.imp fun m e he ↦ ⟨he.1, fun text ht ↦ ?_⟩⟩
  · have hnodup : (es.map Prod.fst).Nodup := (hperm.map Prod.fst).nodup_iff.2 d.nodup_keys
    rw [hnames]
    exact List.pairwise_map.2 ((List.pairwise_map.1 hnodup).imp fun hne heq ↦
      hne (Option.some.inj heq))
  · exact hc.parse_eq_ok (by omega) he.2 ht

/-! ### Records -/

/-- The field has the only value that is held for it, or its default if there is none. -/
def Field.Filled (f : Field α) (holds : V → Prop) (accepts : V → α → Prop) (a : α) : Prop :=
  (∃ v, (∀ w, holds w ↔ w = v) ∧ accepts v a) ∨
    ((∀ w, ¬ holds w) ∧ (f.missing = .inObject a ∨ f.missing = .anywhere a))

/-- Whether a field is filled depends on the values that it holds and not on how they are found. -/
theorem Field.Filled.congr {f : Field α} {holds holds' : V → Prop} {accepts : V → α → Prop} {a : α}
    (h : f.Filled holds accepts a) (hholds : ∀ w, holds' w ↔ holds w) :
    f.Filled holds' accepts a := by
  obtain rfl : holds = holds' := funext fun w ↦ propext (hholds w).symm
  exact h

namespace Fields

/-- Every field and its value in a row have the property. -/
def Each (p : ∀ {α : Type}, Field α → α → Prop) : {αs : List Type} → Fields αs → Row αs → Prop
  | _, .nil, _ => True
  | _, .cons f fs, (a, row) => p f a ∧ fs.Each p row

theorem Each.imp {p q : ∀ {α : Type}, Field α → α → Prop} {fields : Fields αs} {row : Row αs}
    (hpq : ∀ {α : Type} {f : Field α} {a : α}, f.name ∈ fields.names → p f a → q f a)
    (h : fields.Each p row) : fields.Each q row := by
  induction fields with
  | nil => trivial
  | cons f fs ih =>
    obtain ⟨a, row⟩ := row
    refine ⟨hpq List.mem_cons_self h.1, ih ?_ h.2⟩
    intro β g b hg
    exact hpq (List.mem_cons_of_mem _ hg)

variable {accepts : ∀ {α : Type}, Codec α → V → α → Prop}

/-- The slot of the first field is filled at most once, and the other members go to the others. -/
theorem run_takes_cons {strict : Bool} {f : Field α} {fs : Fields αs} {ns : List (String × V)}
    {slot slot' : Option α} {slots slots' : Slots αs}
    (h : Run ((Fields.cons f fs).Takes accepts strict) (slot, slots) ns (slot', slots')) :
    Run (fs.Takes accepts strict) slots (ns.filter (·.1 ≠ f.name)) slots' ∧
      ((∃ v a, (∀ w, (f.name, w) ∈ ns ↔ w = v) ∧ slot = none ∧ accepts f.codec v a ∧
          slot' = some a) ∨
        ((∀ w, (f.name, w) ∉ ns) ∧ slot' = slot)) := by
  induction ns generalizing slot slots with
  | nil =>
    obtain ⟨rfl, rfl⟩ := Prod.mk.inj h
    exact ⟨rfl, .inr ⟨fun w ↦ List.not_mem_nil, rfl⟩⟩
  | cons n ns ih =>
    obtain ⟨name, v⟩ := n
    obtain ⟨⟨mid, mids⟩, hstep, hrun⟩ := h
    obtain ⟨hrest, hslot⟩ := ih hrun
    rcases hstep with ⟨rfl, rfl, rfl, a, ha, rfl⟩ | ⟨hname, rfl, htakes⟩
    · -- A second member for the field would need its slot to be empty.
      rcases hslot with ⟨_, _, -, hnone, -⟩ | ⟨hlater, rfl⟩
      · cases hnone
      · refine ⟨by simpa using hrest, .inl ⟨v, a, fun w ↦ ?_, rfl, ha, rfl⟩⟩
        simp [hlater w]
    · refine ⟨?_, ?_⟩
      · rw [List.filter_cons_of_pos (by simpa using Ne.symm hname)]
        exact ⟨mids, htakes, hrest⟩
      · simpa [hname] using hslot

/-- **Members fill the fields** of their names. -/
theorem filled_of_run {strict : Bool} {fields : Fields αs} (hnames : fields.names.Nodup)
    {ns : List (String × V)} {slots : Slots αs} {row : Row αs}
    (hrun : Run (fields.Takes accepts strict) fields.empty ns slots)
    (hfinish : fields.finish slots = .ok row) :
    fields.Each (fun f a ↦ f.Filled (fun v ↦ (f.name, v) ∈ ns) (accepts f.codec) a) row := by
  induction fields generalizing ns with
  | nil => trivial
  | cons f fs ih =>
    obtain ⟨slot, slots⟩ := slots
    obtain ⟨a, row⟩ := row
    obtain ⟨hf, hnames⟩ := List.nodup_cons.1 hnames
    obtain ⟨hslot, hfinish⟩ := finish_cons_iff.1 hfinish
    obtain ⟨hrest, hfirst⟩ := run_takes_cons hrun
    refine ⟨?_, (ih hnames hrest hfinish).imp fun {β g b} hg hfilled ↦ hfilled.congr fun w ↦ ?_⟩
    · rcases hfirst with ⟨v, b, hv, -, hb, rfl⟩ | ⟨hnone, rfl⟩
      · obtain rfl : b = a := by simpa using hslot
        exact .inl ⟨v, hv, hb⟩
      · exact .inr ⟨hnone, by simpa using hslot⟩
    · -- The members for the first field are no longer there, but they are not for another one.
      have hne : g.name ≠ f.name := fun heq ↦ hf (heq ▸ hg)
      simp [hne]

/-- The places of another name are those in the rest of the list. -/
theorem exists_getElem?_cons_iff {names : List String} {n name : String} (h : n ≠ name)
    {vs : List V} {w : V} :
    (∃ i : Nat, (n :: names)[i]? = some name ∧ vs[i]? = some w) ↔
      ∃ i : Nat, names[i]? = some name ∧ vs.tail[i]? = some w := by
  constructor
  · rintro ⟨i, hname, hw⟩
    cases i with
    | zero => exact absurd (Option.some.inj hname) h
    | succ i => exact ⟨i, hname, by rwa [List.getElem?_tail]⟩
  · rintro ⟨i, hname, hw⟩
    exact ⟨i + 1, hname, by rwa [List.getElem?_tail] at hw⟩

/-- **Items fill the fields** at their places. -/
theorem filled_of_takesItems {fields : Fields αs} (hnames : fields.names.Nodup) {vs : List V}
    {row : Row αs} (h : fields.TakesItems accepts vs row) :
    fields.Each (fun f a ↦ f.Filled
      (fun v ↦ ∃ i : Nat, fields.names[i]? = some f.name ∧ vs[i]? = some v)
      (accepts f.codec) a) row := by
  induction fields generalizing vs with
  | nil => trivial
  | cons f fs ih =>
    obtain ⟨a, row⟩ := row
    obtain ⟨hf, hnames⟩ := List.nodup_cons.1 hnames
    have htail : fs.TakesItems accepts vs.tail row := by
      cases vs with
      | nil => exact h.2
      | cons v vs => exact h.2
    refine ⟨?_, (ih hnames htail).imp fun {β g b} hg hfilled ↦ hfilled.congr fun w ↦
      exists_getElem?_cons_iff fun (heq : f.name = g.name) ↦ hf (heq ▸ hg)⟩
    cases vs with
    | nil => exact .inr ⟨by simp, .inr h.1⟩
    | cons v vs =>
      refine .inl ⟨v, fun w ↦ ⟨?_, ?_⟩, h.1⟩
      · rintro ⟨i, hi, hw⟩
        cases i with
        | zero => exact (Option.some.inj hw).symm
        | succ i => exact absurd (List.mem_of_getElem? (l := fs.names) hi) hf
      · rintro rfl
        exact ⟨0, rfl, rfl⟩

/-- **The fields of a record are filled** from the value that stands for it. -/
theorem filled_of_reads {name : String} {strict : Bool} {fields : Fields αs} {toRow : σ → Row αs}
    {ofRow : Row αs → σ} {room : Nat} {r : Raw} {a : σ}
    (h : (record name strict fields toRow ofRow).Reads room r a) (huniform : fields.All Uniform)
    (hnames : fields.names.Nodup) :
    ∃ inner row, room = inner + 1 ∧ a = ofRow row ∧ fields.Each (fun f b ↦
      f.Filled (r.Holds fields.names f.name) (f.codec.Reads inner) b) row := by
  rcases (recognizes_record huniform room).reads_iff.1 h with
    ⟨inner, ms, ns, slots, row, hroom, rfl, hns, hrun, hfinish, rfl⟩ |
    ⟨inner, rs, row, hroom, rfl, htakes, rfl⟩
  · refine ⟨inner, row, hroom, rfl, (filled_of_run hnames hrun hfinish).imp
      fun {β f b} _ hfilled ↦ hfilled.congr fun w ↦ ⟨?_, ?_⟩⟩
    · rintro ⟨k, hk, hname⟩
      obtain ⟨⟨name, v⟩, hmem, hdecode, rfl⟩ := exists_mem_of_forall₂ hns hk
      obtain rfl := Option.some.inj (hdecode.symm.trans hname)
      exact hmem
    · intro hmem
      obtain ⟨⟨k, v⟩, hk, hdecode, rfl⟩ := exists_mem_of_forall₂_right hns hmem
      exact ⟨k, hk, hdecode⟩
  · exact ⟨inner, row, hroom, rfl, filled_of_takesItems hnames htakes⟩

end Fields

end Codec
end Pipework
