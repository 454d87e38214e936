import Pipework.Document.Text
import Pipework.Proofs.Codec.Restoring

/-!
# Documents are read back from their texts

Every part of a document is restored by its codec, so a document is restored as a whole
(`restores_document`), with one condition on its contents: an operation of the runtime must not have
the name of an operation that is known, since a name is all that is written. Whatever else is in a
document, strings of any content, absent or present options, empty or filled chains and every kind
of executable, comes back as it was. `ofText_of_rereadable` says so for the compact and for the
indented text.
-/

namespace Pipework

/-- The operation is not one of the runtime under the name of a known one. -/
def ResolverOp.IsPlain : ResolverOp → Prop
  | .custom name => name ≠ "unnest" ∧ name ≠ "skip_if_empty" ∧ name ≠ "latest_artifact"
  | _ => True

instance : DecidablePred ResolverOp.IsPlain
  | .custom _ => inferInstanceAs (Decidable (_ ∧ _ ∧ _))
  | .unnest | .skipIfEmpty | .latestArtifact => inferInstanceAs (Decidable True)

/-- A plain operation is read back from its name. -/
theorem ResolverOp.ofName_name {op : ResolverOp} (h : op.IsPlain) : ofName op.name = op := by
  cases op with
  | custom name =>
    obtain ⟨hunnest, hskip, hlatest⟩ := h
    rw [ResolverOp.name, ofName, if_neg hunnest, if_neg hskip, if_neg hlatest]
  | _ => rfl

/-- Every operation in the document is plain. -/
def Document.PlainOps (d : Document) : Prop :=
  ∀ n ∈ d.nodes, ∀ e ∈ n.inputs.entries, ∀ s ∈ e.2.resolver, s.op.IsPlain

instance (d : Document) : Decidable d.PlainOps :=
  inferInstanceAs (Decidable (∀ n ∈ d.nodes, ∀ e ∈ n.inputs.entries, ∀ s ∈ e.2.resolver,
    s.op.IsPlain))

namespace Codec

open Json

/-! ### Values -/

theorem restores_scalarKind : scalarKind.Restores fun _ ↦ True :=
  restores_names fun a ↦ by cases a <;> rfl

theorem restores_nodeCategory : nodeCategory.Restores fun _ ↦ True :=
  restores_names fun a ↦ by cases a <;> rfl

theorem restores_artifactCategory : artifactCategory.Restores fun _ ↦ True :=
  restores_names fun a ↦ by cases a <;> rfl

theorem restores_executionMode : executionMode.Restores fun _ ↦ True :=
  restores_names fun a ↦ by cases a <;> rfl

theorem uniform_holding {α σ : Type} {name : String} {c : Codec α} {of : α → σ} (h : c.Uniform)
    (room : Nat) : Json.Uniform ((Variant.holding name c of).read room) :=
  (recognizes_holding h room).uniform

/-- **Field values are restored.** A double is restored if its digits are read as the same
double. -/
theorem restores_fieldValue : fieldValue.Restores fun _ ↦ True := by
  have hvariants : ∀ v ∈ ([.holding "int_value" int64 .int, .holding "double_value" double .double,
      .holding "string_value" string .string] : List (Variant FieldValue)),
      ∀ room, Json.Uniform (v.read room) := by
    simp only [List.forall_mem_cons, List.not_mem_nil, IsEmpty.forall_iff, implies_true, and_true]
    exact ⟨uniform_holding restores_int64.uniform, uniform_holding restores_double.uniform,
      uniform_holding restores_string.uniform⟩
  refine ⟨uniform_choice hvariants, fun v _ ↦ ?_⟩
  cases v with
  | int n =>
    exact restoresAt_holding hvariants restores_int64.uniform (fun _ _ ↦ FieldValue.int.inj) rfl rfl
      (restores_int64.always n)
  | double x =>
    exact restoresAt_holding hvariants restores_double.uniform (fun _ _ ↦ FieldValue.double.inj) rfl
      rfl (restores_double.always x)
  | string s =>
    exact restoresAt_holding hvariants restores_string.uniform (fun _ _ ↦ FieldValue.string.inj) rfl
      rfl (restores_string.always s)

/-- Runtime parameters are restored, with a default value or without. -/
theorem restores_runtimeParameter : runtimeParameter.Restores fun _ ↦ True := by
  refine restores_record ⟨restores_string.uniform, restores_scalarKind.uniform,
    uniform_option restores_fieldValue.uniform, trivial⟩ (by decide) (fun _ ↦ rfl) (fun _ ↦ rfl)
    fun p _ ↦ ⟨.required (restores_string.always _), .required (restores_scalarKind.always _),
      .optional restores_fieldValue.uniform fun v _ ↦ ⟨restores_fieldValue.always v, ?_⟩, trivial⟩
  cases v <;> nofun

/-- Values are restored, by the names of their variants. -/
theorem restores_value : value.Restores fun _ ↦ True := by
  have hvariants : ∀ v ∈ ([.holding "field_value" fieldValue .field,
      .holding "runtime_parameter" runtimeParameter .runtime] : List (Variant Value)),
      ∀ room, Json.Uniform (v.read room) := by
    simp only [List.forall_mem_cons, List.not_mem_nil, IsEmpty.forall_iff, implies_true, and_true]
    exact ⟨uniform_holding restores_fieldValue.uniform,
      uniform_holding restores_runtimeParameter.uniform⟩
  refine ⟨uniform_choice hvariants, fun v _ ↦ ?_⟩
  cases v with
  | field v =>
    exact restoresAt_holding hvariants restores_fieldValue.uniform (fun _ _ ↦ Value.field.inj) rfl
      rfl (restores_fieldValue.always v)
  | runtime p =>
    exact restoresAt_holding hvariants restores_runtimeParameter.uniform
      (fun _ _ ↦ Value.runtime.inj) rfl rfl (restores_runtimeParameter.always p)

/-! ### Executables -/

/-- A list of texts is written exactly. -/
theorem exact_strings (ss : List String) : Exact ((list string).write ss) := by
  have hnormal (ss : List String) : areNormal (ss.map Json.string) = true := by
    induction ss with
    | nil => rfl
    | cons s ss ih =>
      rw [List.map_cons, areNormal, ih]
      rfl
  refine ⟨hnormal ss, fun room j hread ↦ ?_⟩
  rw [(recognizes_readValue room).reads_iff] at hread
  obtain ⟨inner, js, -, hjs, rfl⟩ := hread
  rw [rawItems_eq_map, List.map_map, List.forall₂_map_left_iff] at hjs
  have heq := map_eq_of_forall₂ hjs (f := Json.string) (g := id)
    fun s j hj ↦ (Json.reads_string_iff.1 hj).symm
  rw [List.map_id] at heq
  rw [← heq]
  rfl

theorem ofJson_strings (ss : List String) :
    (list string).ofJson .text ((list string).write ss) = .ok ss := by
  show ofItems (string.ofJson .text) (ss.map string.write) = .ok ss
  induction ss with
  | nil => rfl
  | cons s ss ih =>
    rw [List.map_cons, ofItems, ih]
    rfl

/-- **Executables are restored**: the tag names the form, and the rest are texts and lists of
texts. -/
theorem restores_executable : executable.Restores fun _ ↦ True := by
  have hkey {αs : List Type} {fields : Fields αs} (hfields : "kind" ∉ fields.names) {row : Row αs} :
      ∀ m ∈ fields.write row, m.1 ≠ "kind" :=
    fun m hm heq ↦ hfields (heq ▸ Fields.name_mem_names hm)
  refine ⟨fun room ↦ (recognizes_tagged room).uniform, fun e _ ↦ ?_⟩
  cases e with
  | native implementation =>
    exact restoresAt_tagged rfl rfl (hkey (by decide))
      (List.forall_mem_singleton.2 (exact_string implementation)) rfl
  | batch implementation arguments =>
    refine restoresAt_tagged rfl rfl (hkey (by decide)) (List.forall_mem_cons.2
      ⟨exact_string implementation, List.forall_mem_singleton.2 (exact_strings arguments)⟩) ?_
    refine map_eq_ok_iff.2 ⟨(implementation, arguments, ()), Fields.ofObject_eq_ok_iff.2
      ⟨(some implementation, some arguments, ()), ?_, rfl⟩, rfl⟩
    exact ⟨(some implementation, none, ()), .inl ⟨rfl, rfl, rfl, implementation, rfl, rfl⟩,
      _, .inr ⟨by decide, rfl, .inl ⟨rfl, rfl, rfl, arguments, ofJson_strings arguments, rfl⟩⟩, rfl⟩
  | container image command arguments =>
    refine restoresAt_tagged rfl rfl (hkey (by decide)) (List.forall_mem_cons.2 ⟨exact_string image,
      List.forall_mem_cons.2 ⟨exact_strings command,
        List.forall_mem_singleton.2 (exact_strings arguments)⟩⟩) ?_
    refine map_eq_ok_iff.2 ⟨(image, command, arguments, ()), Fields.ofObject_eq_ok_iff.2
      ⟨(some image, some command, some arguments, ()), ?_, rfl⟩, rfl⟩
    exact ⟨(some image, none, none, ()), .inl ⟨rfl, rfl, rfl, image, rfl, rfl⟩,
      (some image, some command, none, ()),
      .inr ⟨by decide, rfl, .inl ⟨rfl, rfl, rfl, command, ofJson_strings command, rfl⟩⟩,
      _, .inr ⟨by decide, rfl, .inr ⟨by decide, rfl,
        .inl ⟨rfl, rfl, rfl, arguments, ofJson_strings arguments, rfl⟩⟩⟩, rfl⟩

theorem restores_deploymentEntry : deploymentEntry.Restores fun _ ↦ True := by
  refine restores_record ⟨restores_executable.uniform, uniform_option restores_executable.uniform,
    trivial⟩ (by decide) (fun _ ↦ rfl) (fun _ ↦ rfl) fun e _ ↦
    ⟨.required (restores_executable.always _),
      .optional restores_executable.uniform fun d _ ↦ ⟨restores_executable.always d, ?_⟩, trivial⟩
  cases d <;> nofun

/-! ### Types and channels -/

/-- A record with one field is restored if the field is. -/
theorem restores_wrapped {α : Type} {name field : String} {c : Codec α} {p : α → Prop}
    (h : c.Restores p) : (wrapped name field c).Restores p :=
  restores_record ⟨h.uniform, trivial⟩ (List.pairwise_singleton _ _) (fun _ ↦ rfl) (fun _ ↦ rfl)
    fun a ha ↦ ⟨.required (h.restoresAt a ha), trivial⟩

theorem restores_nodeType : nodeType.Restores fun _ ↦ True :=
  restores_record ⟨restores_string.uniform, uniform_option restores_nodeCategory.uniform, trivial⟩
    (by decide) (fun _ ↦ rfl) (fun _ ↦ rfl) fun _ _ ↦ ⟨.required (restores_string.always _),
      .optional restores_nodeCategory.uniform fun c _ ↦ ⟨restores_nodeCategory.always c, nofun⟩,
      trivial⟩

theorem restores_artifactRef : artifactRef.Restores fun _ ↦ True :=
  restores_record
    ⟨restores_string.uniform, uniform_option restores_artifactCategory.uniform, trivial⟩
    (by decide) (fun _ ↦ rfl) (fun _ ↦ rfl) fun _ _ ↦ ⟨.required (restores_string.always _),
      .optional restores_artifactCategory.uniform fun c _ ↦
        ⟨restores_artifactCategory.always c, nofun⟩, trivial⟩

theorem restores_artifactType : artifactType.Restores fun _ ↦ True :=
  restores_record ⟨restores_string.uniform, uniform_option restores_artifactCategory.uniform,
      uniform_dict restores_scalarKind.uniform, trivial⟩
    (by decide) (fun _ ↦ rfl) (fun _ ↦ rfl) fun _ _ ↦ ⟨.required (restores_string.always _),
      .optional restores_artifactCategory.uniform fun c _ ↦
        ⟨restores_artifactCategory.always c, nofun⟩,
      .defaulting ((restores_dict restores_scalarKind).restoresAt _ fun _ _ ↦ trivial), trivial⟩

/-- An output is restored, with the name of its type and its category. -/
theorem restores_output : output.Restores fun _ ↦ True :=
  restores_wrapped (restores_wrapped restores_artifactType)

theorem restores_context : context.Restores fun _ ↦ True :=
  restores_record ⟨(restores_wrapped restores_string).uniform, restores_value.uniform, trivial⟩
    (by decide) (fun _ ↦ rfl) (fun _ ↦ rfl) fun _ _ ↦
      ⟨.required ((restores_wrapped restores_string).always _), .required (restores_value.always _),
        trivial⟩

theorem restores_contexts : (list context).Restores fun _ ↦ True :=
  ⟨(restores_list restores_context).uniform, fun cs _ ↦
    (restores_list restores_context).restoresAt cs fun _ _ ↦ trivial⟩

/-- A channel is restored with the contexts of its query. -/
theorem restores_channel : channel.Restores fun _ ↦ True :=
  restores_record ⟨(restores_wrapped restores_string).uniform, restores_contexts.uniform,
      (restores_wrapped restores_artifactRef).uniform, restores_string.uniform, trivial⟩
    (by decide) (fun _ ↦ rfl) (fun _ ↦ rfl) fun _ _ ↦
      ⟨.required ((restores_wrapped restores_string).always _),
        .required (restores_contexts.always _),
        .required ((restores_wrapped restores_artifactRef).always _),
        .required (restores_string.always _), trivial⟩

/-! ### Inputs -/

/-- **An operation is restored if it is plain**: a custom one with the name of another is read as
that. -/
theorem restores_resolverOp : resolverOp.Restores ResolverOp.IsPlain where
  uniform room := (recognizes_via uniform_string room).uniform
  restoresAt op hop room := by
    refine iff_of_true ?_ (rereadable_of_scalar rfl rfl)
    refine (recognizes_via uniform_string room).reads_iff.2 ⟨op.name, ?_, ?_⟩
    · exact reads_string_iff.2 ⟨_, rfl, decode?_ofString _⟩
    · exact (ResolverOp.ofName_name hop).symm

theorem restores_step : step.Restores fun s ↦ s.op.IsPlain :=
  restores_record ⟨restores_resolverOp.uniform, restores_config.uniform, trivial⟩
    (by decide) (fun _ ↦ rfl) (fun _ ↦ rfl) fun s hs ↦
      ⟨.required (restores_resolverOp.restoresAt _ hs), .required (restores_config.always _),
        trivial⟩

/-- An input is restored if the operations of its steps are plain. -/
theorem restores_input : input.Restores fun i ↦ ∀ s ∈ i.resolver, s.op.IsPlain := by
  refine restores_record ⟨(restores_list restores_channel).uniform,
      (restores_list restores_step).uniform, uniform_option restores_uint32.uniform, trivial⟩
    (by decide) (fun _ ↦ rfl) (fun _ ↦ rfl) fun i hi ↦
      ⟨.required ((restores_list restores_channel).restoresAt _ fun _ _ ↦ trivial),
        ⟨(restores_list restores_step).restoresAt _ hi, fun hempty ↦ .inr ?_⟩,
        .optional restores_uint32.uniform fun n _ ↦ ⟨restores_uint32.always n, nofun⟩, trivial⟩
  rw [List.isEmpty_iff.1 hempty]

/-! ### Nodes and documents -/

theorem restores_strings : (list string).Restores fun _ ↦ True :=
  ⟨(restores_list restores_string).uniform, fun ss _ ↦
    (restores_list restores_string).restoresAt ss fun _ _ ↦ trivial⟩

theorem restores_nodeInfo : nodeInfo.Restores fun _ ↦ True :=
  restores_record ⟨restores_nodeType.uniform, restores_string.uniform, trivial⟩
    (by decide) (fun _ ↦ rfl) (fun _ ↦ rfl) fun _ _ ↦
      ⟨.required (restores_nodeType.always _), .required (restores_string.always _), trivial⟩

theorem restores_executionOptions : executionOptions.Restores fun _ ↦ True :=
  restores_record ⟨restores_bool.uniform, uniform_option restores_uint32.uniform, trivial⟩
    (by decide) (fun _ ↦ rfl) (fun _ ↦ rfl) fun _ _ ↦ ⟨.required (restores_bool.always _),
      .optional restores_uint32.uniform fun n _ ↦ ⟨restores_uint32.always n, nofun⟩, trivial⟩

/-- A node is restored if the operations in it are plain. -/
theorem restores_node :
    node.Restores fun n ↦ ∀ e ∈ n.inputs.entries, ∀ s ∈ e.2.resolver, s.op.IsPlain :=
  restores_record ⟨restores_nodeInfo.uniform, restores_contexts.uniform,
      (restores_dict restores_input).uniform, (restores_dict restores_output).uniform,
      (restores_dict restores_value).uniform, restores_strings.uniform, restores_strings.uniform,
      restores_executionOptions.uniform, trivial⟩
    (by decide) (fun _ ↦ rfl) (fun _ ↦ rfl) fun n hn ↦
      ⟨.required (restores_nodeInfo.always _), .required (restores_contexts.always _),
        .required ((restores_dict restores_input).restoresAt _ hn),
        .required ((restores_dict restores_output).restoresAt _ fun _ _ ↦ trivial),
        .required ((restores_dict restores_value).restoresAt _ fun _ _ ↦ trivial),
        .required (restores_strings.always _), .required (restores_strings.always _),
        .required (restores_executionOptions.always _), trivial⟩

theorem restores_runtimeSpec : runtimeSpec.Restores fun _ ↦ True :=
  restores_record ⟨restores_runtimeParameter.uniform, restores_runtimeParameter.uniform, trivial⟩
    (by decide) (fun _ ↦ rfl) (fun _ ↦ rfl) fun _ _ ↦
      ⟨.required (restores_runtimeParameter.always _),
        .required (restores_runtimeParameter.always _), trivial⟩

/-- **A document with plain operations is restored.** -/
theorem restores_document : document.Restores Document.PlainOps :=
  restores_record ⟨restores_uint32.uniform, (restores_wrapped restores_string).uniform,
      (restores_list restores_node).uniform, restores_runtimeSpec.uniform,
      restores_executionMode.uniform, (restores_dict restores_deploymentEntry).uniform, trivial⟩
    (by decide) (fun _ ↦ rfl) (fun _ ↦ rfl) fun d hd ↦
      ⟨.required (restores_uint32.always _),
        .required ((restores_wrapped restores_string).always _),
        .required ((restores_list restores_node).restoresAt _ hd),
        .required (restores_runtimeSpec.always _), .required (restores_executionMode.always _),
        .required ((restores_dict restores_deploymentEntry).restoresAt _ fun _ _ ↦ trivial),
        trivial⟩

end Codec

namespace Document

/-- A document is read by its codec, and then its version is checked. -/
theorem ofText_eq_ok_iff_parse {text : String} {d : Document} :
    ofText text = .ok d ↔ Codec.document.parse text = .ok d ∧ d.version = currentVersion := by
  rw [ofText, bind_eq_ok_iff]
  constructor
  · rintro ⟨d', hparse, hd⟩
    split at hd
    next hversion =>
      cases hd
      exact ⟨mapError_eq_ok_iff.1 hparse, hversion⟩
    next => cases hd
  · rintro ⟨hparse, hversion⟩
    exact ⟨d, mapError_eq_ok_iff.2 hparse, if_pos hversion⟩

/-- A text of a document of the current version is read as the document exactly if the tree is
rereadable. -/
theorem ofText_eq_ok_iff {d : Document} (hversion : d.version = currentVersion)
    (hops : d.PlainOps) {text : String} (htext : d.toJson.toRaw.IsText text) :
    ofText text = .ok d ↔ Json.Rereadable Json.maxDepth d.toJson := by
  rw [toJson, ← Codec.restores_document.parse_eq_ok_iff hops htext, ofText_eq_ok_iff_parse]
  exact and_iff_left hversion

/-- **Documents are read back from their texts**, compact or indented. -/
theorem ofText_of_rereadable {d : Document} (hversion : d.version = currentVersion)
    (hfinite : d.checkFinite = .ok ()) (hops : d.PlainOps)
    (hdepth : d.toJson.depth ≤ Json.maxDepth) (hdoubles : ∀ x ∈ d.toJson.doubles, x.Rereads) :
    (∃ text, d.canonicalText = .ok text ∧ ofText text = .ok d) ∧
      ∃ text, d.prettyText = .ok text ∧ ofText text = .ok d := by
  constructor
  · refine ⟨d.toJson.compact, by rw [canonicalText, hfinite]; rfl, ?_⟩
    exact (ofText_eq_ok_iff hversion hops (Json.isText_compact _)).2 ⟨hdepth, hdoubles⟩
  · refine ⟨d.toJson.pretty, by rw [prettyText, hfinite]; rfl, ?_⟩
    exact (ofText_eq_ok_iff hversion hops (Json.isText_pretty _)).2 ⟨hdepth, hdoubles⟩

/-- A document with values of every kind: texts with characters that are escaped, a default that is
a double, the least integer, a configuration with numbers in it and every kind of executable. -/
def assorted : Document where
  version := 1
  id := "p\"\\\n\x01é"
  nodes :=
    [{ type := ⟨"Load", some .ingest⟩
       id := "load"
       contexts := [⟨"pipeline", .text "p"⟩, ⟨"rate", .runtime ⟨"rate", .double,
         some (.double ⟨0x3FB999999999999A⟩)⟩⟩]
       inputs := .empty
       outputs := .ofList [("rows", ⟨"Rows", some .dataset, .ofList [("size", .int)]⟩)]
       parameters := .ofList [("least", .field (.int Int64.minValue))]
       dependencies := []
       dependents := ["train"]
       options := ⟨true, some 3⟩ },
      { type := ⟨"Train", none⟩
        id := "train"
        contexts := []
        inputs := .ofList [("rows", ⟨[⟨"load", [], ⟨"Rows", none⟩, "rows"⟩],
          [⟨.latestArtifact, .ofMembers [("scale", .double ⟨0xC004000000000000⟩),
            ("limit", .array [.int 5, .null])]⟩, ⟨.custom "mine", .empty⟩], some 1⟩)]
        outputs := .empty
        parameters := .empty
        dependencies := ["load"]
        dependents := []
        options := ⟨false, none⟩ }]
  runtime := ⟨.text "root", .text "run"⟩
  mode := .async
  deployment := .ofList
    [("load", ⟨.native "load", some (.batch "drive" ["x", ""])⟩),
      ("train", ⟨.container "image" [] ["--fast"], none⟩)]

/-- A document with every kind of value is read back from both texts. -/
theorem ofText_of_rereadable_assorted :
    (∃ text, assorted.canonicalText = .ok text ∧ ofText text = .ok assorted) ∧
      ∃ text, assorted.prettyText = .ok text ∧ ofText text = .ok assorted :=
  ofText_of_rereadable rfl (by decide +kernel) (by decide +kernel) (by decide +kernel)
    (by decide +kernel)

end Document
end Pipework
