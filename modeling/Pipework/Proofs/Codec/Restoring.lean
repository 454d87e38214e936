import Pipework.Proofs.Codec.Reading
import Pipework.Proofs.Json.Printing

/-!
# What codecs write they read back

A codec restores a value if, however much room there is, the text written for the value is read as
the value again exactly when the written tree is `Rereadable`: its brackets fit into the room and
its doubles are read back. Lists, dictionaries, choices and records restore what their parts
restore. A record that leaves a field out when it has a certain value must also give the field that
value when it is missing.
-/

namespace Pipework.Codec

open Json

variable {α β σ : Type} {αs : List Type}

/-- What is written for the value is read back as the value, exactly if it is rereadable. -/
def RestoresAt (c : Codec α) (a : α) : Prop :=
  ∀ room, c.Reads room (c.write a).toRaw a ↔ Rereadable room (c.write a)

/-- The codec is uniform and restores the values with a property. -/
structure Restores (c : Codec α) (p : α → Prop) : Prop where
  uniform : c.Uniform
  restoresAt : ∀ a, p a → c.RestoresAt a

/-- If there is no condition, every value is restored. -/
theorem Restores.always {c : Codec α} (h : c.Restores fun _ ↦ True) (a : α) : c.RestoresAt a :=
  h.restoresAt a trivial

/-- **A text of a value that is restored**: it is read as the value exactly if it is rereadable. -/
theorem Restores.parse_eq_ok_iff {c : Codec α} {p : α → Prop} (h : c.Restores p) {a : α}
    (ha : p a) {text : String} (htext : (c.write a).toRaw.IsText text) :
    c.parse text = .ok a ↔ Rereadable maxDepth (c.write a) := by
  rw [h.uniform.parse_eq_ok_iff htext, h.restoresAt a ha]

/-- A value without brackets and doubles is read back in any room. -/
theorem rereadable_of_scalar {room : Nat} {j : Json} (hdepth : j.depth = 0)
    (hdoubles : j.doubles = []) : Rereadable room j := by
  rw [Rereadable, hdepth, hdoubles]
  exact ⟨Nat.zero_le _, fun x hx ↦ nomatch hx⟩

/-! ### Scalar values -/

theorem uniform_scalar {write : α → Json} {accept : Found → Except Mismatch α}
    (h : RefusesBrackets accept) : (scalar write accept).Uniform :=
  fun room ↦ (recognizes_scalar h room).uniform

/-- The scalar codec reads what it accepts. -/
theorem reads_scalar_iff {write : α → Json} {accept : Found → Except Mismatch α}
    (h : RefusesBrackets accept) {room : Nat} {r : Raw} {a : α} :
    (scalar write accept).Reads room r a ↔ ReadsScalar accept r a :=
  (recognizes_scalar h room).reads_iff

/-- A scalar value is restored if what is written of it is accepted as itself. -/
theorem restoresAt_scalar {write : α → Json} {accept : Found → Except Mismatch α}
    (h : RefusesBrackets accept) {a : α} {got : Found}
    (hbracket : (write a).toRaw.isBracket = false)
    (hgot : (write a).toRaw.found? = some got) (haccept : accept got = .ok a)
    (hdepth : (write a).depth = 0) (hdoubles : (write a).doubles = []) :
    (scalar write accept).RestoresAt a := by
  intro room
  rw [reads_scalar_iff h]
  exact iff_of_true ⟨hbracket, got, hgot, haccept⟩ (rereadable_of_scalar hdepth hdoubles)

/-- A string is read from any of its spellings. -/
theorem reads_string_iff {room : Nat} {r : Raw} {s : String} :
    string.Reads room r s ↔ ∃ k, r = .string k ∧ k.decode? = some s := by
  refine (reads_scalar_iff ?_).trans ?_
  · exact .of_error rfl rfl
  constructor
  · rintro ⟨-, got, hgot, haccept⟩
    cases r with
    | string k =>
      obtain ⟨t, ht, rfl⟩ := Option.map_eq_some_iff.1 hgot
      cases haccept
      exact ⟨k, rfl, ht⟩
    | number n =>
      obtain ⟨v, -, rfl⟩ := Option.map_eq_some_iff.1 hgot
      cases v <;> cases haccept
    | null => cases hgot; cases haccept
    | bool b => cases hgot; cases haccept
    | array rs => cases hgot; cases haccept
    | object ms => cases hgot; cases haccept
  · rintro ⟨k, rfl, hk⟩
    exact ⟨rfl, .string s, by rw [Raw.found?, hk]; rfl, rfl⟩

theorem uniform_string : string.Uniform :=
  uniform_scalar (.of_error rfl rfl)

theorem restores_string : string.Restores fun _ ↦ True where
  uniform := uniform_string
  restoresAt s _ := by
    have hfound : (Json.string s).toRaw.found? = some (.string s) := by
      rw [toRaw, Raw.found?, decode?_ofString]
      rfl
    refine restoresAt_scalar ?_ rfl hfound rfl rfl rfl
    exact .of_error rfl rfl

theorem restores_bool : bool.Restores fun _ ↦ True where
  uniform := uniform_scalar (.of_error rfl rfl)
  restoresAt _ _ := by
    refine restoresAt_scalar ?_ rfl rfl rfl rfl rfl
    exact .of_error rfl rfl

/-- An integer of 64 bits is found as itself. -/
theorem found?_toRaw_int {n : Int} (h : fitsWord n = true) :
    (Json.int n).toRaw.found? = some (.int n) := by
  rw [toRaw, Raw.found?, value?_ofInt h]
  rfl

theorem restores_uint32 : uint32.Restores fun _ ↦ True where
  uniform := uniform_scalar (.of_error rfl rfl)
  restoresAt n _ := by
    have hlt := n.toNat_lt
    refine restoresAt_scalar ?_ rfl (found?_toRaw_int ?_) ?_ rfl rfl
    · exact .of_error rfl rfl
    · rw [fitsWord, Bool.and_eq_true, decide_eq_true_eq, decide_eq_true_eq,
        show Int64.minValue.toInt = -2 ^ 63 by decide, show UInt64.size = 2 ^ 64 by decide]
      omega
    · rw [show UInt32.size = 2 ^ 32 by decide]
      simp only
      rw [if_pos (by omega), Int.toNat_natCast, UInt32.ofNat_toNat]

/-- Signed words fit into the integers of a tree. -/
theorem fitsWord_toInt (n : Int64) : fitsWord n.toInt = true := by
  have hlower := n.le_toInt
  have hupper := n.toInt_lt
  rw [fitsWord, Bool.and_eq_true, decide_eq_true_eq, decide_eq_true_eq,
    show Int64.minValue.toInt = -2 ^ 63 by decide, show UInt64.size = 2 ^ 64 by decide]
  omega

theorem restores_int64 : int64.Restores fun _ ↦ True where
  uniform := uniform_scalar (.of_error rfl rfl)
  restoresAt n _ := by
    have hlower := n.le_toInt
    have hupper := n.toInt_lt
    refine restoresAt_scalar ?_ rfl (found?_toRaw_int (fitsWord_toInt n)) ?_ rfl rfl
    · exact .of_error rfl rfl
    · rw [show Int64.minValue.toInt = -2 ^ 63 by decide,
        show Int64.maxValue.toInt = 2 ^ 63 - 1 by decide]
      simp only
      rw [if_pos (by omega), Int64.ofInt_toInt]

/-- A double is read back if its text is, infinite and undefined ones never. -/
theorem restores_double : double.Restores fun _ ↦ True where
  uniform := uniform_scalar (.of_error rfl rfl)
  restoresAt x _ room := by
    have hrereadable : Rereadable room (double.write x) ↔ x.Rereads := by
      simp [double, scalar, Rereadable, depth, doubles]
    rw [hrereadable]
    refine (reads_scalar_iff ?_).trans ?_
    · exact .of_error rfl rfl
    show ReadsScalar _ (Json.double x).toRaw x ↔ _
    by_cases hx : x.isFinite
    · rw [rereads_iff hx, toRaw, if_pos hx]
      constructor
      · rintro ⟨-, got, hgot, haccept⟩
        obtain ⟨v, hv, rfl⟩ := Option.map_eq_some_iff.1 hgot
        cases v with
        | int n => exact absurd hv (value?_ofDouble_ne_int x n)
        | double y =>
          cases haccept
          exact hv
      · intro hv
        exact ⟨rfl, .double x, by rw [Raw.found?, hv]; rfl, rfl⟩
    · refine iff_of_false ?_ fun hreads ↦ hx hreads.isFinite
      rw [toRaw, if_neg hx]
      rintro ⟨-, got, hgot, haccept⟩
      cases hgot
      cases haccept

/-! ### Options and lists -/

theorem uniform_option {c : Codec α} (h : c.Uniform) : (option c).Uniform :=
  fun room ↦ (recognizes_option h room).uniform

/-- A tree that is rereadable has the text `null` only if it is `null`: doubles for which `null`
is written are not read back. -/
theorem toRaw_ne_null {room : Nat} {j : Json} (h : Rereadable room j) (hj : j ≠ .null) :
    j.toRaw ≠ .null := by
  cases j with
  | null => exact absurd rfl hj
  | double x =>
    have hx : x.Rereads := h.2 x (by simp [doubles])
    rw [toRaw, if_pos hx.isFinite]
    nofun
  | _ => nofun

/-- An optional value is restored if it is not written as `null`, which would be read as no
value. -/
theorem restoresAt_option {c : Codec α} (h : c.Uniform) {o : Option α}
    (hc : ∀ a ∈ o, c.RestoresAt a ∧ c.write a ≠ .null) : (option c).RestoresAt o := by
  intro room
  rw [Reads, (recognizes_option h room).reads_iff]
  cases o with
  | none => exact iff_of_true (.inl ⟨rfl, rfl⟩) (rereadable_of_scalar rfl rfl)
  | some a =>
    obtain ⟨hrestores, hnull⟩ := hc a rfl
    show ReadsOption c room (c.write a).toRaw (some a) ↔ Rereadable room (c.write a)
    constructor
    · rintro (⟨-, ⟨⟩⟩ | ⟨-, b, hread, heq⟩)
      cases heq
      exact (hrestores room).1 hread
    · intro hrereadable
      exact .inr ⟨toRaw_ne_null hrereadable hnull, a, (hrestores room).2 hrereadable, rfl⟩

theorem uniform_list {c : Codec α} (h : c.Uniform) : (list c).Uniform :=
  fun room ↦ (recognizes_list h room).uniform

/-- **A list is restored** if its items are. -/
theorem restores_list {c : Codec α} {p : α → Prop} (h : c.Restores p) :
    (list c).Restores fun as ↦ ∀ a ∈ as, p a where
  uniform := uniform_list h.uniform
  restoresAt as has room := by
    rw [Reads, (recognizes_list h.uniform room).reads_iff]
    show ReadsList c room (Json.array (as.map c.write)).toRaw as ↔
      Rereadable room (.array (as.map c.write))
    have hitems (inner : Nat) : List.Forall₂ (c.Reads inner) ((as.map c.write).map toRaw) as ↔
        ∀ j ∈ as.map c.write, Rereadable inner j := by
      rw [List.map_map, List.forall₂_map_left_iff, List.forall₂_same, List.forall_mem_map]
      exact forall₂_congr fun a ha ↦ h.restoresAt a (has a ha) inner
    rw [rereadable_array_iff, toRaw, rawItems_eq_map]
    simp only [ReadsList, Raw.array.injEq, ← hitems]
    constructor
    · rintro ⟨inner, rs, hroom, rfl, hread⟩
      exact ⟨inner, hroom, hread⟩
    · rintro ⟨inner, hroom, hread⟩
      exact ⟨inner, _, hroom, rfl, hread⟩

/-! ### Dictionaries -/

/-- **Entries in key order are added at the end.** The induction is on the members; the keys of the
entries so far come before all names that are left. -/
theorem run_addsEntry_iff {repetition : Repetition} {c : Codec α} {room : Nat}
    {ns : List (String × Raw)} {d d' : Dict α}
    (h : (d.entries.map Prod.fst ++ ns.map Prod.fst).Pairwise (· < ·)) :
    Run (AddsEntry repetition c room) d ns d' ↔
      ∃ es, List.Forall₂ (fun n e ↦ e.1 = n.1 ∧ c.Reads room n.2 e.2) ns es ∧
        d'.entries = d.entries ++ es := by
  -- Entries come in key order, so that each is inserted at the end and none replaces another.
  induction ns generalizing d with
  | nil =>
    constructor
    · intro hrun
      exact ⟨[], .nil, by rw [show d' = d from hrun, List.append_nil]⟩
    · rintro ⟨es, ⟨⟩, hd⟩
      exact Dict.ext_entries (by simpa using hd)
  | cons n ns ih =>
    obtain ⟨name, r⟩ := n
    obtain ⟨-, -, hlt⟩ := List.pairwise_append.1 h
    have hbefore : ∀ e ∈ d.entries, e.1 < name := fun e he ↦
      hlt e.1 (List.mem_map_of_mem he) name (by simp)
    have hadd (a : α) : addEntry repetition d name a = .ok (d.insert name a) := by
      have hnew : d.contains name = false := by
        rw [← Bool.not_eq_true, Dict.contains_iff_mem_keys, Dict.keys, List.mem_map]
        rintro ⟨e, he, rfl⟩
        exact String.lt_irrefl _ (hbefore e he)
      simp [addEntry, hnew]
    have hentries (a : α) : (d.insert name a).entries = d.entries ++ [(name, a)] :=
      Dict.insertEntry_of_forall_lt hbefore
    have hnext (a : α) :
        ((d.insert name a).entries.map Prod.fst ++ ns.map Prod.fst).Pairwise (· < ·) := by
      simpa [hentries] using h
    constructor
    · rintro ⟨mid, ⟨a, ha, hmid⟩, hrun⟩
      rw [hadd] at hmid
      cases hmid
      obtain ⟨es, hes, hd'⟩ := (ih (hnext a)).1 hrun
      exact ⟨(name, a) :: es, .cons ⟨rfl, ha⟩ hes, by rw [hd', hentries]; simp⟩
    · rintro ⟨es, hes, hd'⟩
      cases hes with
      | @cons _ e _ es he hes =>
        obtain ⟨k, a⟩ := e
        obtain ⟨rfl, ha⟩ := he
        exact ⟨d.insert _ a, ⟨a, ha, hadd a⟩,
          (ih (hnext a)).2 ⟨es, hes, by rw [hd', hentries]; simp⟩⟩

theorem uniform_dict {repetition : Repetition} {c : Codec α} (h : c.Uniform) :
    (dict repetition c).Uniform :=
  fun room ↦ (recognizes_dict h room).uniform

/-- **A dictionary is restored** if its values are. Its keys are distinct, so that repetition does
not matter. -/
theorem restores_dict {repetition : Repetition} {c : Codec α} {p : α → Prop} (h : c.Restores p) :
    (dict repetition c).Restores fun d ↦ ∀ e ∈ d.entries, p e.2 where
  uniform := uniform_dict h.uniform
  restoresAt d hd room := by
    rw [Reads, (recognizes_dict h.uniform room).reads_iff]
    show ReadsDict repetition c room
      (Json.object (d.entries.map fun e ↦ (e.1, c.write e.2))).toRaw d
      ↔ Rereadable room (.object (d.entries.map fun e ↦ (e.1, c.write e.2)))
    have hentries (inner : Nat) : Run (AddsEntry repetition c inner) .empty
        (d.entries.map fun e ↦ (e.1, (c.write e.2).toRaw)) d ↔
          ∀ e ∈ d.entries, Rereadable inner (c.write e.2) := by
      rw [run_addsEntry_iff (by
        simpa [Dict.empty, List.pairwise_map] using d.sorted)]
      simp only [Dict.empty, List.nil_append, exists_eq_right', List.forall₂_map_left_iff,
        List.forall₂_same, true_and]
      exact forall₂_congr fun e he ↦ h.restoresAt e.2 (hd e he) inner
    rw [rereadable_object_iff, toRaw]
    simp only [ReadsDict, Raw.object.injEq, List.forall_mem_map, ← hentries]
    constructor
    · rintro ⟨inner, ms, ns, hroom, rfl, hns, hrun⟩
      rw [named_rawMembers_iff.1 hns, List.map_map] at hrun
      exact ⟨inner, hroom, hrun⟩
    · rintro ⟨inner, hroom, hrun⟩
      exact ⟨inner, _, _, hroom, rfl, named_rawMembers_iff.2 rfl, by rwa [List.map_map]⟩

theorem Config.ext_members {c c' : Config} (h : c.members = c'.members) : c = c' := by
  cases c
  cases c'
  cases h
  rfl

theorem uniform_config : config.Uniform :=
  fun room ↦ (recognizes_config room).uniform

/-- An object is read as a configuration if it is read as a tree. -/
theorem reads_config_iff {room : Nat} {ms : List (StringSpelling × Raw)} {c : Config} :
    config.Reads room (.object ms) c ↔
      ∃ js, Json.Reads (readValue room) (.object ms) (.object js) ∧ c = Config.ofMembers js := by
  rw [Reads, (recognizes_config room).reads_iff, ReadsConfig]
  simp only [(recognizes_readValue room).reads_iff, ReadsTree, Raw.object.injEq, Json.object.injEq]
  constructor
  · rintro ⟨inner, ms', ns, js, hroom, rfl, hns, hjs, rfl⟩
    exact ⟨js, ⟨inner, ns, js, hroom, hns, hjs, rfl⟩, rfl⟩
  · rintro ⟨js, ⟨inner, ns, js', hroom, hns, hjs, rfl⟩, rfl⟩
    exact ⟨inner, ms, ns, js, hroom, rfl, hns, hjs, rfl⟩

/-- **A configuration is restored**: its members are in normal form. -/
theorem restores_config : config.Restores fun _ ↦ True where
  uniform := uniform_config
  restoresAt c _ room := by
    show config.Reads room (.object (rawMembers c.members)) c ↔ Rereadable room (.object c.members)
    rw [reads_config_iff, ← reads_toRaw_iff _ c.normal, toRaw]
    constructor
    · rintro ⟨js, hread, hc⟩
      have hnormal : Json.normalize (.object js) = .object c.members := by rw [hc]; rfl
      rwa [eq_of_normalize_eq (.object c.members) c.normal hread hnormal] at hread
    · intro hread
      refine ⟨c.members, hread, ?_⟩
      have hnormal := normalize_of_isNormal _ c.normal
      rw [Json.normalize, Json.object.injEq] at hnormal
      exact Config.ext_members hnormal.symm

/-! ### Choices -/

/-- Whether a choice is uniform depends on the contents of its variants. -/
theorem uniform_choice {variants : List (Variant σ)} {write : σ → Json}
    (h : ∀ v ∈ variants, ∀ room, Json.Uniform (v.read room)) : (choice variants write).Uniform :=
  fun room ↦ (recognizes_choice h room).uniform

theorem uniform_names {name : σ → String} {values : List σ} : (names name values).Uniform := by
  refine uniform_choice fun v hv room ↦ ?_
  obtain ⟨a, -, rfl⟩ := List.mem_map.1 hv
  exact (recognizes_named room).uniform

/-- A choice between names restores every name that is found again. -/
theorem restores_names {name : σ → String} {values : List σ}
    (h : ∀ a, Variant.find (values.map fun a ↦ .named (name a) a) (name a) =
      .ok (.named (name a) a)) : (names name values).Restores fun _ ↦ True where
  uniform := uniform_names
  restoresAt a _ room := by
    refine iff_of_true ?_ (rereadable_of_scalar rfl rfl)
    rw [Reads, names, (recognizes_choice (fun v hv room ↦ ?_) room).reads_iff]
    · exact .inl ⟨.ofString (name a), name a, _, rfl, decode?_ofString _, h a, rfl⟩
    · obtain ⟨a, -, rfl⟩ := List.mem_map.1 hv
      exact (recognizes_named room).uniform

/-- **A choice restores a value that a variant holds**, if what it holds is restored and determines
it. -/
theorem restoresAt_holding {variants : List (Variant σ)} {write : σ → Json}
    (h : ∀ v ∈ variants, ∀ room, Json.Uniform (v.read room)) {name : String} {c : Codec α}
    {of : α → σ} (hc : c.Uniform) (hof : Function.Injective of)
    (hfind : Variant.find variants name = .ok (.holding name c of)) {a : α}
    (hwrite : write (of a) = .object [(name, c.write a)]) (ha : c.RestoresAt a) :
    (choice variants write).RestoresAt (of a) := by
  intro room
  show (choice variants write).Reads room (write (of a)).toRaw (of a) ↔
    Rereadable room (write (of a))
  rw [hwrite, rereadable_object_iff, Reads, (recognizes_choice h room).reads_iff, toRaw, rawMembers,
    rawMembers]
  simp only [List.forall_mem_singleton, ← ha _]
  constructor
  · rintro (⟨_, _, _, heq, _⟩ | ⟨inner, k, r, name', v, hroom, heq, hname, hv, hread⟩)
    · cases heq
    · cases heq
      obtain rfl : name = name' := Option.some.inj ((decode?_ofString name).symm.trans hname)
      cases hfind.symm.trans hv
      obtain ⟨b, hb, heq⟩ := (recognizes_holding hc inner).reads_iff.1 hread
      obtain rfl := hof heq
      exact ⟨inner, hroom, hb⟩
  · rintro ⟨inner, hroom, hread⟩
    exact .inr ⟨inner, _, _, name, _, hroom, rfl, decode?_ofString name, hfind,
      (recognizes_holding hc inner).reads_iff.2 ⟨a, hread, rfl⟩⟩

/-! ### Records -/

/-- The field is restored, and if it is left out then missing means its value. -/
def Field.RestoresAt (f : Field α) (a : α) : Prop :=
  f.codec.RestoresAt a ∧
    (f.omitted a = true → f.missing = .inObject a ∨ f.missing = .anywhere a)

theorem Field.RestoresAt.required {name : String} {c : Codec α} {a : α} (h : c.RestoresAt a) :
    (Field.required name c).RestoresAt a :=
  ⟨h, nofun⟩

theorem Field.RestoresAt.defaulting {name : String} {c : Codec α} {value a : α}
    (h : c.RestoresAt a) : (Field.defaulting name c value).RestoresAt a :=
  ⟨h, nofun⟩

/-- An optional field is restored, also where it is left out. -/
theorem Field.RestoresAt.optional {name : String} {c : Codec α} (h : c.Uniform) {o : Option α}
    (ho : ∀ a ∈ o, c.RestoresAt a ∧ c.write a ≠ .null) : (Field.optional name c).RestoresAt o := by
  refine ⟨restoresAt_option h ho, fun hnone ↦ .inl ?_⟩
  rw [Option.isNone_iff_eq_none.1 hnone]
  rfl

namespace Fields

/-- Every field of a row is restored. -/
def RestoresAt : {αs : List Type} → Fields αs → Row αs → Prop
  | _, .nil, _ => True
  | _, .cons f fs, (a, row) => f.RestoresAt a ∧ fs.RestoresAt row

/-- Only fields are written. -/
theorem name_mem_names {fields : Fields αs} {row : Row αs} {m : String × Json}
    (h : m ∈ fields.write row) : m.1 ∈ fields.names := by
  induction fields with
  | nil => cases h
  | cons f fs ih =>
    obtain ⟨a, row⟩ := row
    rw [write] at h
    split at h
    · exact List.mem_cons_of_mem _ (ih h)
    · rcases List.mem_cons.1 h with rfl | h
      · exact List.mem_cons_self
      · exact List.mem_cons_of_mem _ (ih h)

/-- Members with other names leave the slot of the first field alone. -/
theorem run_takes_cons_iff {V : Type} {accepts : ∀ {α : Type}, Codec α → V → α → Prop}
    {strict : Bool} {f : Field α} {fs : Fields αs} {ns : List (String × V)}
    (h : ∀ n ∈ ns, f.name ≠ n.1) {slot slot' : Option α} {slots slots' : Slots αs} :
    Run ((Fields.cons f fs).Takes accepts strict) (slot, slots) ns (slot', slots') ↔
      slot' = slot ∧ Run (fs.Takes accepts strict) slots ns slots' := by
  induction ns generalizing slot slots with
  | nil => simp [Run]
  | cons n ns ih =>
    obtain ⟨name, v⟩ := n
    obtain ⟨hname, hns⟩ := List.forall_mem_cons.1 h
    constructor
    · rintro ⟨⟨mid, mids⟩, ⟨heq, -⟩ | ⟨-, rfl, htakes⟩, hrun⟩
      · exact absurd heq hname
      · obtain ⟨rfl, hrest⟩ := (ih hns).1 hrun
        exact ⟨rfl, mids, htakes, hrest⟩
    · rintro ⟨rfl, mids, htakes, hrest⟩
      exact ⟨(slot', mids), .inr ⟨hname, rfl, htakes⟩, (ih hns).2 ⟨rfl, hrest⟩⟩

/-- A record is finished if each slot is filled or may be left out. -/
theorem finish_cons_iff {f : Field α} {fs : Fields αs} {slot : Option α} {slots : Slots αs} {a : α}
    {row : Row αs} :
    (Fields.cons f fs).finish (slot, slots) = .ok (a, row) ↔
      (slot = some a ∨ (slot = none ∧ (f.missing = .inObject a ∨ f.missing = .anywhere a))) ∧
        fs.finish slots = .ok row := by
  rw [finish.eq_def]
  cases slot with
  | some b =>
    simp [bind_eq_ok_iff, pure, Except.pure, and_comm]
  | none =>
    cases hmissing : f.missing with
    | refused => simp [hmissing, bind, Except.bind]
    | inObject b => simp [hmissing, bind_eq_ok_iff, pure, Except.pure, and_comm]
    | anywhere b => simp [hmissing, bind_eq_ok_iff, pure, Except.pure, and_comm]

/-- **The members written for a row are read back as the row** exactly if each of them is
rereadable. The induction is on the fields: a member fills the slot of its own field, and no later
member touches it. -/
theorem run_takes_write_iff {fields : Fields αs} (hnames : fields.names.Nodup) {row : Row αs}
    (hrow : fields.RestoresAt row) (strict : Bool) (room : Nat) :
    (∃ slots, Run (fields.Takes (fun c r a ↦ c.Reads room r a) strict) fields.empty
        ((fields.write row).map fun m ↦ (m.1, m.2.toRaw)) slots ∧
        fields.finish slots = .ok row) ↔
      ∀ m ∈ fields.write row, Rereadable room m.2 := by
  induction fields with
  | nil => exact iff_of_true ⟨(), rfl, rfl⟩ fun m hm ↦ nomatch hm
  | cons f fs ih =>
    obtain ⟨a, row⟩ := row
    obtain ⟨⟨hfield, hdefault⟩, hrest⟩ := hrow
    obtain ⟨hname, hnames⟩ := List.nodup_cons.1 hnames
    have hother : ∀ n ∈ (fs.write row).map fun m ↦ (m.1, m.2.toRaw), f.name ≠ n.1 := by
      intro n hn heq
      obtain ⟨m, hm, rfl⟩ := List.mem_map.1 hn
      exact hname (heq ▸ name_mem_names hm)
    rw [write]
    -- A field that is left out keeps its slot empty and gets its default value at the end.
    by_cases homitted : f.omitted a = true
    · rw [if_pos homitted, ← ih hnames hrest]
      constructor
      · rintro ⟨⟨slot, slots⟩, hrun, hfinish⟩
        exact ⟨slots, ((run_takes_cons_iff hother).1 hrun).2, (finish_cons_iff.1 hfinish).2⟩
      · rintro ⟨slots, hrun, hfinish⟩
        exact ⟨(none, slots), (run_takes_cons_iff hother).2 ⟨rfl, hrun⟩,
          finish_cons_iff.2 ⟨.inr ⟨rfl, hdefault homitted⟩, hfinish⟩⟩
    · rw [if_neg homitted, List.forall_mem_cons, ← ih hnames hrest, ← hfield room, List.map_cons]
      constructor
      · rintro ⟨⟨slot, slots⟩, ⟨⟨mid, mids⟩, htakes, hrun⟩, hfinish⟩
        obtain ⟨rfl, hlater⟩ := (run_takes_cons_iff hother).1 hrun
        obtain ⟨hslot, hrow⟩ := finish_cons_iff.1 hfinish
        rcases htakes with ⟨-, -, rfl, b, hb, rfl⟩ | ⟨hne, -⟩
        · obtain rfl : b = a := by simpa using hslot
          exact ⟨hb, slots, hlater, hrow⟩
        · exact absurd rfl hne
      · rintro ⟨hread, slots, hrun, hfinish⟩
        exact ⟨(some a, slots), ⟨(some a, fs.empty), .inl ⟨rfl, rfl, rfl, a, hread, rfl⟩,
          (run_takes_cons_iff hother).2 ⟨rfl, hrun⟩⟩, finish_cons_iff.2 ⟨.inl rfl, hfinish⟩⟩

end Fields

/-- A record is uniform if its fields are. -/
theorem uniform_record {name : String} {strict : Bool} {fields : Fields αs} {toRow : σ → Row αs}
    {ofRow : Row αs → σ} (h : fields.All Uniform) :
    (record name strict fields toRow ofRow).Uniform :=
  fun room ↦ (recognizes_record h room).uniform

/-- **A record restores a value whose fields are restored.** -/
theorem restores_record {name : String} {strict : Bool} {fields : Fields αs} {toRow : σ → Row αs}
    {ofRow : Row αs → σ} {p : σ → Prop} (huniform : fields.All Uniform)
    (hnames : fields.names.Nodup) (hleft : Function.LeftInverse ofRow toRow)
    (hright : Function.RightInverse ofRow toRow)
    (hfields : ∀ a, p a → fields.RestoresAt (toRow a)) :
    (record name strict fields toRow ofRow).Restores p where
  uniform := uniform_record huniform
  restoresAt a ha room := by
    show (record name strict fields toRow ofRow).Reads room
      (Json.object (fields.write (toRow a))).toRaw a ↔
        Rereadable room (.object (fields.write (toRow a)))
    rw [rereadable_object_iff, Reads, (recognizes_record huniform room).reads_iff, toRaw]
    simp only [← Fields.run_takes_write_iff hnames (hfields a ha) strict]
    constructor
    · rintro (⟨inner, ms, ns, slots, row, hroom, heq, hns, hrun, hfinish, rfl⟩ |
        ⟨_, _, _, _, heq, _⟩)
      · cases heq
        rw [named_rawMembers_iff.1 hns] at hrun
        exact ⟨inner, hroom, slots, hrun, by rwa [hright]⟩
      · cases heq
    · rintro ⟨inner, hroom, slots, hrun, hfinish⟩
      exact .inl ⟨inner, _, _, slots, toRow a, hroom, rfl, named_rawMembers_iff.2 rfl, hrun,
        hfinish, (hleft a).symm⟩

/-! ### Tagged records -/

/-- Members beside the tag are put aside in order. -/
theorem run_takesTagged_iff {key : String} {forms : List (Form σ)} {room : Nat}
    {ns : List (String × Raw)} (h : ∀ n ∈ ns, n.1 ≠ key) {form form' : Option (Form σ)}
    {done done' : List (String × Json)} :
    Run (TakesTagged key forms room) (form, done) ns (form', done') ↔
      form' = form ∧ ∃ js, ReadsMembers (readValue room) ns js ∧ done' = done ++ js := by
  induction ns generalizing done with
  | nil =>
    constructor
    · intro hrun
      obtain ⟨rfl, rfl⟩ := Prod.mk.inj hrun
      exact ⟨rfl, [], .nil, (List.append_nil _).symm⟩
    · rintro ⟨rfl, js, ⟨⟩, rfl⟩
      rw [List.append_nil]
      rfl
  | cons n ns ih =>
    obtain ⟨name, r⟩ := n
    obtain ⟨hname, hns⟩ := List.forall_mem_cons.1 h
    constructor
    · rintro ⟨⟨mid, mids⟩, ⟨heq, -⟩ | ⟨-, hform, j, hj, hdone⟩, hrun⟩
      · exact absurd heq hname
      · obtain rfl : mid = form := hform
        obtain rfl : mids = done ++ [(name, j)] := hdone
        obtain ⟨rfl, js, hjs, rfl⟩ := (ih hns).1 hrun
        exact ⟨rfl, (name, j) :: js, .cons ⟨rfl, hj⟩ hjs, by simp⟩
    · rintro ⟨rfl, js, hjs, rfl⟩
      cases hjs with
      | @cons _ m _ js hm hjs =>
        obtain ⟨name', j⟩ := m
        obtain ⟨rfl, hj⟩ := hm
        exact ⟨(form', done ++ [(name', j)]), .inr ⟨hname, rfl, j, hj, rfl⟩,
          (ih hns).2 ⟨rfl, js, hjs, by simp⟩⟩

/-- The tree is in normal form, and nothing but the tree is ever read of its text. -/
def Exact (j : Json) : Prop :=
  j.isNormal = true ∧ ∀ room j', Json.Reads (readValue room) j.toRaw j' → j' = j

theorem exact_null : Exact .null := by
  refine ⟨rfl, fun room j hread ↦ ?_⟩
  simpa [(recognizes_readValue room).reads_iff, toRaw, ReadsTree, Raw.found?, Found.toJson]
    using hread

theorem exact_bool (b : Bool) : Exact (.bool b) := by
  refine ⟨rfl, fun room j hread ↦ ?_⟩
  simpa [(recognizes_readValue room).reads_iff, toRaw, ReadsTree, Raw.found?, Found.toJson]
    using hread

/-- Integers are written exactly: nothing else is read from their digits. -/
theorem exact_int (n : Int64) : Exact (.int n.toInt) :=
  ⟨fitsWord_toInt n, fun _ _ ↦ (reads_int_iff (fitsWord_toInt n)).1⟩

theorem exact_string (s : String) : Exact (.string s) :=
  ⟨rfl, fun _ _ ↦ Json.reads_string_iff.1⟩

/-- **A tagged record restores a value** if its members are exact and the form that the tag
announces reads them. -/
theorem restoresAt_tagged {type key tag : String} {forms : List (Form σ)} {write : σ → Json}
    {form : Form σ} (hfind : Form.find forms tag = .ok form) {a : σ} {ms : List (String × Json)}
    (hwrite : write a = .object ((key, .string tag) :: ms)) (hkey : ∀ m ∈ ms, m.1 ≠ key)
    (hexact : ∀ m ∈ ms, Exact m.2) (hform : form.ofObject ms = .ok a) :
    (tagged type key forms write).RestoresAt a := by
  -- What is put aside of the members is what was written, since they are written exactly.
  have hmembers {inner : Nat} {js : List (String × Json)} :
      ReadsMembers (readValue inner) (ms.map fun m ↦ (m.1, m.2.toRaw)) js ↔
        js = ms ∧ ∀ m ∈ ms, Rereadable inner m.2 := by
    have hread := reads_rawMembers_iff ms (haveNormal_iff.2 fun m hm ↦ (hexact m hm).1) inner
    refine ⟨fun hjs ↦ ?_, fun ⟨heq, h⟩ ↦ heq ▸ hread.2 h⟩
    suffices heq : js = ms from ⟨heq, hread.1 (heq ▸ hjs)⟩
    rw [ReadsMembers, List.forall₂_map_left_iff] at hjs
    simpa using (map_eq_of_forall₂ (forall₂_mem hjs) (f := id) (g := id)
      fun m j ⟨hm, _, hname, hj⟩ ↦ Prod.ext hname.symm ((hexact m hm).2 _ _ hj).symm).symm
  have hothers : ∀ n ∈ ms.map fun m ↦ (m.1, m.2.toRaw), n.1 ≠ key := List.forall_mem_map.2 hkey
  have hnamed {ns : List (String × Raw)} :
      Named ((.ofString key, .string (.ofString tag)) :: rawMembers ms) ns ↔
        ns = (key, (Json.string tag).toRaw) :: ms.map fun m ↦ (m.1, m.2.toRaw) :=
    show Named (rawMembers ((key, .string tag) :: ms)) ns ↔ _ from named_rawMembers_iff
  have htag {inner : Nat} : Rereadable inner (.string tag) := rereadable_of_scalar rfl rfl
  intro room
  show (tagged type key forms write).Reads room (write a).toRaw a ↔ Rereadable room (write a)
  rw [hwrite, rereadable_object_iff, Reads, (recognizes_tagged room).reads_iff, toRaw, rawMembers,
    toRaw]
  simp only [List.forall_mem_cons, htag, true_and]
  constructor
  · rintro (⟨inner, ms', ns, form', js, hroom, heq, hns, hrun, -⟩ | ⟨_, _, _, _, _, _, heq, _⟩)
    · cases heq
      rw [hnamed.1 hns] at hrun
      obtain ⟨⟨mid, mids⟩, -, hrest⟩ := hrun
      obtain ⟨-, js', hjs, -⟩ := (run_takesTagged_iff hothers).1 hrest
      exact ⟨inner, hroom, (hmembers.1 hjs).2⟩
    · cases heq
  · rintro ⟨inner, hroom, hrereadable⟩
    refine .inl ⟨inner, _, _, form, ms, hroom, rfl, hnamed.2 rfl, ?_, hform⟩
    exact ⟨(some form, []),
      .inl ⟨rfl, rfl, rfl, form, ⟨_, tag, rfl, decode?_ofString tag, hfind⟩, rfl⟩,
      (run_takesTagged_iff hothers).2 ⟨rfl, ms, hmembers.2 ⟨rfl, hrereadable⟩, rfl⟩⟩

end Pipework.Codec
