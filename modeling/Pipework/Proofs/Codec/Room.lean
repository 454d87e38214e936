import Pipework.Proofs.Codec.Rearranging

/-!
# Room for more brackets

A value inside a text is read with the room that the brackets around it leave. A codec is `Roomy` if
more room changes nothing for what can be read at all. The value is then read from a text of its own
as it is read where it stands (`Roomy.parse_eq_ok`).
-/

namespace Pipework

namespace Json

variable {σ V : Type}

/-- A run stays one when more steps are allowed. -/
theorem Run.imp {step step' : σ → String → V → σ → Prop}
    (h : ∀ {s name v t}, step s name v t → step' s name v t) {ms : List (String × V)} {s t : σ}
    (hrun : Run step s ms t) : Run step' s ms t := by
  induction ms generalizing s with
  | nil => exact hrun
  | cons m ms ih =>
    obtain ⟨mid, hstep, hrest⟩ := hrun
    exact ⟨mid, h hstep, ih hrest⟩

/-- A value that fits into some room fits into more. -/
theorem reads_readValue_succ {room : Nat} {r : Raw} {j : Json} (h : Reads (readValue room) r j) :
    Reads (readValue (room + 1)) r j := by
  induction room generalizing r j with
  | zero =>
    rw [(recognizes_readValue _).reads_iff] at h ⊢
    cases r with
    | array rs => simp [ReadsTree] at h
    | object ms => simp [ReadsTree] at h
    | _ => exact h
  | succ room ih =>
    rw [(recognizes_readValue _).reads_iff] at h ⊢
    cases r with
    | array rs =>
      obtain ⟨inner, js, ⟨⟩, hjs, rfl⟩ := h
      exact ⟨room + 1, js, rfl, hjs.imp fun _ _ ↦ ih, rfl⟩
    | object ms =>
      obtain ⟨inner, ns, js, ⟨⟩, hns, hjs, rfl⟩ := h
      exact ⟨room + 1, ns, js, rfl, hns, hjs.imp fun _ _ hj ↦ ⟨hj.1, ih hj.2⟩, rfl⟩
    | _ => exact h

end Json

namespace Codec

open Json

variable {α β σ : Type} {αs : List Type}

/-- More room for brackets does not change what is read. -/
structure Roomy (c : Codec α) : Prop where
  uniform : c.Uniform
  succ : ∀ {room : Nat} {r : Raw} {a : α}, c.Reads room r a → c.Reads (room + 1) r a

namespace Roomy

variable {c : Codec α}

/-- A codec is shown to be roomy by what its reader recognizes. -/
theorem of_recognizes {p : Nat → Raw → α → Prop} (h : ∀ room, Recognizes (c.read room) (p room))
    (hp : ∀ {room r a}, p room r a → p (room + 1) r a) : c.Roomy where
  uniform room := (h room).uniform
  succ {_ _ _} ha := (h _).reads_iff.2 (hp ((h _).reads_iff.1 ha))

/-- **What is read in some room is read in any larger one**, with the same result. -/
theorem mono (h : c.Roomy) {room room' : Nat} (hle : room ≤ room') {r : Raw} {a : α}
    (ha : c.Reads room r a) : c.Reads room' r a := by
  induction hle with
  | refl => exact ha
  | step _ ih => exact h.succ ih

/-- What is read inside a text is also read from a text of its own. -/
theorem parse_eq_ok (h : c.Roomy) {room : Nat} (hle : room ≤ maxDepth) {r : Raw} {a : α}
    (ha : c.Reads room r a) {text : String} (ht : r.IsText text) : c.parse text = .ok a :=
  (h.uniform.parse_eq_ok_iff ht).2 (h.mono hle ha)

end Roomy

/-! ### Codecs from codecs -/

theorem roomy_scalar {write : α → Json} {accept : Found → Except Mismatch α}
    (h : RefusesBrackets accept) : (scalar write accept).Roomy :=
  .of_recognizes (recognizes_scalar h) id

theorem roomy_string : string.Roomy := by
  refine roomy_scalar ?_
  exact .of_error rfl rfl

theorem roomy_uint32 : uint32.Roomy := by
  refine roomy_scalar ?_
  exact .of_error rfl rfl

theorem roomy_via {c : Codec α} {forward : β → α} {back : α → β} (h : c.Roomy) :
    (c.via forward back).Roomy :=
  .of_recognizes (recognizes_via h.uniform) fun ⟨a, ha, heq⟩ ↦ ⟨a, h.succ ha, heq⟩

theorem roomy_option {c : Codec α} (h : c.Roomy) : (option c).Roomy := by
  refine .of_recognizes (recognizes_option h.uniform) ?_
  rintro room r o (hnull | ⟨hne, a, ha, heq⟩)
  · exact .inl hnull
  · exact .inr ⟨hne, a, h.succ ha, heq⟩

theorem roomy_buffered {write : α → Json} {match? : Json → Option α} {type : String} :
    (buffered write match? type).Roomy :=
  .of_recognizes recognizes_buffered fun ⟨j, hj, ha⟩ ↦ ⟨j, reads_readValue_succ hj, ha⟩

theorem roomy_payload : payload.Roomy :=
  .of_recognizes recognizes_payload fun ⟨j, hj, ha⟩ ↦ ⟨j, reads_readValue_succ hj, ha⟩

theorem roomy_list {c : Codec α} (h : c.Roomy) : (list c).Roomy := by
  refine .of_recognizes (recognizes_list h.uniform) ?_
  rintro _ _ as ⟨inner, rs, rfl, rfl, has⟩
  exact ⟨inner + 1, rs, rfl, rfl, has.imp fun _ _ ↦ h.succ⟩

theorem roomy_dict {repetition : Repetition} {c : Codec α} (h : c.Roomy) :
    (dict repetition c).Roomy := by
  refine .of_recognizes (recognizes_dict h.uniform) ?_
  rintro _ _ d ⟨inner, ms, ns, rfl, rfl, hns, hrun⟩
  exact ⟨inner + 1, ms, ns, rfl, rfl, hns, hrun.imp fun ⟨a, ha, hadd⟩ ↦ ⟨a, h.succ ha, hadd⟩⟩

theorem roomy_names {name : σ → String} {values : List σ} : (names name values).Roomy := by
  refine .of_recognizes (recognizes_choice fun v hv room ↦ ?_) ?_
  · obtain ⟨b, -, rfl⟩ := List.mem_map.1 hv
    exact (recognizes_named room).uniform
  · rintro _ _ a (hname | ⟨inner, k, r, name, v, rfl, rfl, hk, hv, ha⟩)
    · exact .inl hname
    · obtain ⟨b, -, rfl⟩ := List.mem_map.1 (Variant.mem_of_find hv)
      rw [(recognizes_named inner).reads_iff] at ha
      exact .inr ⟨inner + 1, k, r, name, _, rfl, rfl, hk, hv,
        (recognizes_named (inner + 1)).reads_iff.2 ha⟩

/-! ### Records -/

/-- **Records are roomy**, if their fields are. -/
theorem roomy_record {name : String} {strict : Bool} {fields : Fields αs} {toRow : σ → Row αs}
    {ofRow : Row αs → σ} (h : fields.All Roomy) :
    (record name strict fields toRow ofRow).Roomy := by
  have hsucc (inner : Nat) :
      fields.All fun c ↦ ∀ r a, c.Reads inner r a → c.Reads (inner + 1) r a := by
    refine h.imp ?_
    intro α c hc r a ha
    exact hc.succ ha
  refine .of_recognizes (recognizes_record (h.imp fun hc ↦ hc.uniform)) ?_
  rintro _ _ a (⟨inner, ms, ns, slots, row, rfl, rfl, hns, hrun, hfinish, rfl⟩ |
    ⟨inner, rs, row, rfl, rfl, htakes, rfl⟩)
  · refine .inl ⟨inner + 1, ms, ns, slots, row, rfl, rfl, hns, hrun.imp ?_, hfinish, rfl⟩
    intro s name r t htakes
    exact htakes.imp ((hsucc inner).imp fun hc ↦ hc r)
  · refine .inr ⟨inner + 1, rs, row, rfl, rfl, htakes.imp (R := Eq) ?_ ?_, rfl⟩
    · refine (hsucc inner).imp ?_
      rintro α c hc r _ a rfl
      exact hc r a
    · exact List.forall₂_same.2 fun _ _ ↦ rfl

/-- **Tagged records are roomy.** Their members are put aside as trees, which are. -/
theorem roomy_tagged {type key : String} {forms : List (Form σ)} {write : σ → Json} :
    (tagged type key forms write).Roomy := by
  refine .of_recognizes recognizes_tagged ?_
  rintro _ _ a (⟨inner, ms, ns, form, js, rfl, rfl, hns, hrun, ha⟩ |
    ⟨inner, r, rs, form, js, rfl, rfl, hform, hjs, ha⟩)
  · refine .inl ⟨inner + 1, ms, ns, form, js, rfl, rfl, hns, hrun.imp ?_, ha⟩
    rintro s name r t (htag | ⟨hname, hkeep, j, hj, hdone⟩)
    · exact .inl htag
    · exact .inr ⟨hname, hkeep, j, reads_readValue_succ hj, hdone⟩
  · exact .inr ⟨inner + 1, r, rs, form, js, rfl, rfl, hform,
      hjs.imp fun _ _ ↦ reads_readValue_succ, ha⟩

end Codec
end Pipework
