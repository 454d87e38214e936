import Pipework.Proofs.Compile.ReadBack
import Pipework.Proofs.Compile.Values
import Pipework.Proofs.Declaration.RoundTrip

/-!
# Doubles that cannot be written

In place of an infinite or undefined double stands `null`, and a text with such a `null` cannot be
read back. So a document is checked before it is written. The check is made for the values of the
document itself (`checkFinite_eq_ok_iff`), while those of queries are written, too
(`writable_iff`).

Queries are meant to repeat the contexts of nodes, and then the check is enough
(`writable_iff_checkFinite`); so it is for all that is compiled (`writable_of_compile`), and for
what is read, even if it is changed outside its queries (`writable_iff_checkFinite_of_ofText`). A
document that is put together in another way can pass the check and still be written with a `null`
(`checkFinite_stray`).
-/

namespace Pipework

namespace Json

mutual

/-- The doubles of a tree in normal form are finite. -/
theorem isFinite_of_isNormal : (j : Json) → isNormal j = true → ∀ x ∈ j.doubles, x.isFinite = true
  | .null, _ => by simp [doubles]
  | .bool _, _ => by simp [doubles]
  | .int _, _ => by simp [doubles]
  | .double x, h => List.forall_mem_singleton.2 h
  | .string _, _ => by simp [doubles]
  | .array js, h => isFinite_of_areNormal js h
  | .object ms, h => by
    obtain ⟨hvalues, -⟩ := isNormal_object_iff.1 h
    exact isFinite_of_haveNormal ms hvalues

theorem isFinite_of_areNormal : (js : List Json) → areNormal js = true →
    ∀ x ∈ itemDoubles js, x.isFinite = true
  | [], _ => by simp [itemDoubles]
  | j :: js, h => by
    obtain ⟨hj, hjs⟩ := areNormal_cons_iff.1 h
    exact List.forall_mem_append.2 ⟨isFinite_of_isNormal j hj, isFinite_of_areNormal js hjs⟩

theorem isFinite_of_haveNormal : (ms : List (String × Json)) → haveNormal ms = true →
    ∀ x ∈ memberDoubles ms, x.isFinite = true
  | [], _ => by simp [memberDoubles]
  | (_, j) :: ms, h => by
    obtain ⟨hj, hms⟩ := haveNormal_cons_iff.1 h
    exact List.forall_mem_append.2 ⟨isFinite_of_isNormal j hj, isFinite_of_haveNormal ms hms⟩

end

end Json

/-! ### What is written without a `null` -/

namespace Codec

open Json

variable {α σ : Type} {αs : List Type}

/-- No double of the value is replaced when it is written. -/
def Writable (c : Codec α) (a : α) : Prop :=
  ∀ x ∈ (c.write a).doubles, x.isFinite = true

/-- No double of the row is replaced when it is written. -/
def Fields.Writable (fields : Fields αs) (row : Row αs) : Prop :=
  ∀ x ∈ memberDoubles (fields.write row), x.isFinite = true

/-- A list is written without a `null` if its items are. -/
@[simp] theorem writable_list {c : Codec α} {as : List α} :
    (list c).Writable as ↔ ∀ a ∈ as, c.Writable a := by
  show (∀ x ∈ itemDoubles (as.map c.write), _) ↔ _
  simp only [mem_itemDoubles, List.mem_map, Writable]
  constructor
  · intro h a ha x hx
    exact h x ⟨_, ⟨a, ha, rfl⟩, hx⟩
  · rintro h x ⟨_, ⟨a, ha, rfl⟩, hx⟩
    exact h a ha x hx

/-- A dictionary is written without a `null` if its values are. -/
@[simp] theorem writable_dict {repetition : Repetition} {c : Codec α} {d : Dict α} :
    (dict repetition c).Writable d ↔ ∀ a ∈ d.values, c.Writable a := by
  show (∀ x ∈ memberDoubles (d.entries.map fun e ↦ (e.1, c.write e.2)), _) ↔ _
  simp only [mem_memberDoubles, List.mem_map, Writable, Dict.values]
  constructor
  · rintro h _ ⟨e, he, rfl⟩ x hx
    exact h x ⟨_, ⟨e, he, rfl⟩, hx⟩
  · rintro h x ⟨_, ⟨e, he, rfl⟩, hx⟩
    exact h e.2 ⟨e, he, rfl⟩ x hx

@[simp] theorem writable_record {name : String} {strict : Bool} {fields : Fields αs}
    {toRow : σ → Row αs} {ofRow : Row αs → σ} {a : σ} :
    (record name strict fields toRow ofRow).Writable a ↔ fields.Writable (toRow a) :=
  .rfl

@[simp] theorem Fields.writable_nil {row : Row []} : Fields.nil.Writable row := by
  simp [Fields.Writable, Fields.write, memberDoubles]

/-- A record is written without a `null` if its fields are, apart from those that are left out. -/
theorem Fields.writable_cons {f : Field α} {fs : Fields αs} {row : Row (α :: αs)} :
    (Fields.cons f fs).Writable row ↔
      (f.omitted row.1 = false → f.codec.Writable row.1) ∧ fs.Writable row.2 := by
  rw [Fields.Writable, Fields.write]
  rcases f.omitted row.1 with - | -
  · simp [memberDoubles, Codec.Writable, Fields.Writable, or_imp, forall_and]
  · simp [Fields.Writable]

@[simp] theorem Fields.writable_required {name : String} {c : Codec α} {fs : Fields αs}
    {row : Row (α :: αs)} :
    (Fields.cons (.required name c) fs).Writable row ↔ c.Writable row.1 ∧ fs.Writable row.2 := by
  rw [Fields.writable_cons]
  exact and_congr_left fun _ ↦ forall_prop_of_true rfl

@[simp] theorem Fields.writable_defaulting {name : String} {c : Codec α} {value : α}
    {fs : Fields αs} {row : Row (α :: αs)} :
    (Fields.cons (.defaulting name c value) fs).Writable row ↔
      c.Writable row.1 ∧ fs.Writable row.2 := by
  rw [Fields.writable_cons]
  exact and_congr_left fun _ ↦ forall_prop_of_true rfl

/-- An optional field that has no value is left out and not written as `null`. -/
@[simp] theorem Fields.writable_optional {name : String} {c : Codec α} {fs : Fields αs}
    {row : Row (Option α :: αs)} :
    (Fields.cons (.optional name c) fs).Writable row ↔
      (∀ a ∈ row.1, c.Writable a) ∧ fs.Writable row.2 := by
  rw [Fields.writable_cons]
  refine and_congr_left fun _ ↦ ?_
  obtain ⟨o, row⟩ := row
  rcases o with - | a
  · simp [Field.optional]
  · simp [Field.optional, Codec.Writable, option]

/-- A value in which there are no doubles is written without a `null`. -/
theorem writable_of_doubles {c : Codec α} {a : α} (h : (c.write a).doubles = []) :
    c.Writable a := by
  simp [Writable, h]

/-! ### Values and documents -/

@[simp] theorem writable_string (s : String) : string.Writable s :=
  writable_of_doubles rfl

@[simp] theorem writable_uint32 (n : UInt32) : uint32.Writable n :=
  writable_of_doubles rfl

@[simp] theorem writable_bool (b : Bool) : bool.Writable b :=
  writable_of_doubles rfl

@[simp] theorem writable_names {name : σ → String} {values : List σ} (a : σ) :
    (names name values).Writable a :=
  writable_of_doubles rfl

@[simp] theorem writable_resolverOp (op : ResolverOp) : resolverOp.Writable op :=
  writable_of_doubles rfl

/-- The doubles of a configuration are finite, since it is in normal form. -/
@[simp] theorem writable_config (c : Config) : config.Writable c :=
  isFinite_of_isNormal _ c.normal

/-- **A field value is written without a `null` if it is no infinite or undefined double.** -/
@[simp] theorem writable_fieldValue (v : FieldValue) :
    fieldValue.Writable v ↔ v.isFinite = true := by
  rcases v with n | x | s
  · exact iff_of_true (writable_of_doubles rfl) rfl
  · exact List.forall_mem_singleton
  · exact iff_of_true (writable_of_doubles rfl) rfl

@[simp] theorem writable_runtimeParameter (p : RuntimeParameter) :
    runtimeParameter.Writable p ↔ p.isFinite = true := by
  simp [runtimeParameter, scalarKind, RuntimeParameter.isFinite, Option.all_eq_true]

@[simp] theorem writable_value (v : Value) : value.Writable v ↔ v.isFinite = true := by
  rcases v with v | p
  · rw [Value.isFinite, ← writable_fieldValue]
    simp [Writable, value, choice, doubles, memberDoubles]
  · rw [Value.isFinite, ← writable_runtimeParameter]
    simp [Writable, value, choice, doubles, memberDoubles]

@[simp] theorem writable_context (c : Document.Context) :
    context.Writable c ↔ c.value.isFinite = true := by
  simp [context, wrapped]

@[simp] theorem writable_artifactRef (t : ArtifactRef) : artifactRef.Writable t := by
  simp [artifactRef, artifactCategory]

/-- A channel is written with the contexts of its query, and so with the doubles in these. -/
@[simp] theorem writable_channel (c : Document.Channel) :
    channel.Writable c ↔ ∀ x ∈ c.contexts, x.value.isFinite = true := by
  simp [channel, wrapped]

@[simp] theorem writable_step (s : Document.Step) : step.Writable s := by
  simp [step]

/-- Only the queries of an input have doubles. -/
@[simp] theorem writable_input (i : Document.Input) :
    input.Writable i ↔ ∀ c ∈ i.channels, ∀ x ∈ c.contexts, x.value.isFinite = true := by
  -- An empty resolver chain is left out, so its field is none of the three kinds above.
  rw [input, writable_record, Fields.writable_required, Fields.writable_cons]
  simp

theorem writable_nodeInfo (info : NodeType × NodeId) : nodeInfo.Writable info := by
  simp [nodeInfo, nodeType, nodeCategory]

theorem writable_output (t : ArtifactType) : output.Writable t := by
  simp [output, wrapped, artifactType, artifactCategory, scalarKind]

theorem writable_executionOptions (o : Document.ExecutionOptions) :
    executionOptions.Writable o := by
  simp [executionOptions]

/-- The doubles of a node are those of its values. -/
@[simp] theorem writable_node (n : Document.Node) :
    node.Writable n ↔ ∀ v ∈ n.ownValues ++ n.queryValues, v.isFinite = true := by
  have hparts : node.Writable n ↔ (∀ x ∈ n.contexts, x.value.isFinite = true) ∧
      (∀ i ∈ n.inputs.values, ∀ c ∈ i.channels, ∀ x ∈ c.contexts, x.value.isFinite = true) ∧
      ∀ v ∈ n.parameters.values, v.isFinite = true := by
    simp [node, writable_nodeInfo, writable_output, writable_executionOptions]
  rw [hparts]
  simp only [Document.Node.ownValues, Document.Node.queryValues, List.forall_mem_append,
    List.forall_mem_map, List.forall_mem_flatMap]
  tauto

theorem writable_deploymentEntry (e : DeploymentEntry) : deploymentEntry.Writable e :=
  fun x hx ↦ ((rereadable_deploymentEntry 0 e).2 x hx).isFinite

/-! ### What is read can be written -/

/-- Numerals are read as finite doubles, and too large ones are refused. -/
theorem yields_double : double.Yields fun x ↦ x.isFinite = true := by
  refine yields_scalar fun {s got t x} hfound haccept ↦ ?_
  have hnormal := isNormal_of_readFound hfound
  cases got with
  | int n =>
    cases haccept
    exact isFinite_ofInt_of_fitsWord hnormal
  | double y =>
    cases haccept
    exact hnormal
  | _ => cases haccept

/-- Field values that are read are finite. -/
theorem yields_fieldValue : fieldValue.Yields fun v ↦ v.isFinite = true := by
  refine yields_choice fun v hv ↦ ?_
  simp only [List.mem_cons, List.not_mem_nil, or_false] at hv
  rcases hv with rfl | rfl | rfl
  · exact Variant.yields_holding fun _ _ _ _ _ ↦ rfl
  · exact Variant.yields_holding yields_double
  · exact Variant.yields_holding fun _ _ _ _ _ ↦ rfl

theorem yields_runtimeParameter : runtimeParameter.Yields fun p ↦ p.isFinite = true :=
  yields_record (.pass (.pass (.cons (yields_option yields_fieldValue) nofun .any)))
    fun _ h ↦ (Option.all_eq_true _ _).2 h.1

/-- Values that are read are finite, and so are default values of runtime parameters. -/
theorem yields_value : value.Yields fun v ↦ v.isFinite = true := by
  refine yields_choice fun v hv ↦ ?_
  simp only [List.mem_cons, List.not_mem_nil, or_false] at hv
  rcases hv with rfl | rfl
  · exact Variant.yields_holding yields_fieldValue
  · exact Variant.yields_holding yields_runtimeParameter

theorem yields_context : context.Yields fun c ↦ c.value.isFinite = true :=
  yields_record (.pass (.cons yields_value trivial .any)) fun _ h ↦ h.1

/-- The contexts of queries are read as contexts are. -/
theorem yields_channel : channel.Yields fun c ↦ ∀ x ∈ c.contexts, x.value.isFinite = true :=
  yields_record (.pass (.cons (yields_list yields_context) trivial .any)) fun _ h ↦ h.1

theorem yields_channels :
    input.Yields fun i ↦ ∀ c ∈ i.channels, ∀ x ∈ c.contexts, x.value.isFinite = true :=
  yields_record (.cons (yields_list yields_channel) trivial .any) fun _ h ↦ h.1

/-- The values of a node that is read are finite, in its queries too. -/
theorem yields_nodeValues :
    node.Yields fun n ↦ ∀ v ∈ n.ownValues ++ n.queryValues, v.isFinite = true := by
  refine yields_record
    (.pass (.cons (yields_list yields_context) trivial
      (.cons (yields_dict yields_channels) trivial
        (.pass (.cons (yields_dict yields_value) trivial .any))))) fun row h ↦ ?_
  obtain ⟨hcontexts, hinputs, hparameters, -⟩ := h
  simp only [Document.Node.ownValues, Document.Node.queryValues, Dict.values,
    List.forall_mem_append, List.forall_mem_map, List.forall_mem_flatMap]
  exact ⟨⟨hparameters, hcontexts⟩, hinputs⟩

theorem yields_runtimeSpec :
    runtimeSpec.Yields fun r ↦ r.root.isFinite = true ∧ r.runId.isFinite = true :=
  yields_record (.cons yields_runtimeParameter trivial (.cons yields_runtimeParameter trivial .any))
    fun _ h ↦ ⟨h.1, h.2.1⟩

/-- **All values of a document that is read are finite.** -/
theorem yields_documentValues : document.Yields fun d ↦ ∀ v ∈ d.values, v.isFinite = true := by
  refine yields_record
    (.pass (.pass (.cons (yields_list yields_nodeValues) trivial
      (.cons yields_runtimeSpec trivial .any)))) fun row h ↦ ?_
  obtain ⟨hnodes, hruntime, -⟩ := h
  simp only [Document.values, Document.ownValues, Document.queryValues, List.forall_mem_append,
    List.forall_mem_cons, List.forall_mem_flatMap] at hnodes ⊢
  exact ⟨⟨hruntime.1, hruntime.2, fun n hn ↦ (hnodes n hn).1⟩, fun n hn ↦ (hnodes n hn).2⟩

end Codec

namespace Document

variable {d : Document}

/-- **What is written without a `null`**: the documents whose values are all finite. -/
theorem writable_iff : Codec.document.Writable d ↔ ∀ v ∈ d.values, v.isFinite = true := by
  have hparts : Codec.document.Writable d ↔
      (∀ n ∈ d.nodes, ∀ v ∈ n.ownValues ++ n.queryValues, v.isFinite = true) ∧
        d.runtime.root.isFinite = true ∧ d.runtime.runId.isFinite = true := by
    simp [Codec.document, Codec.wrapped, Codec.runtimeSpec, Codec.executionMode,
      Codec.writable_deploymentEntry]
  rw [hparts]
  simp only [values, ownValues, queryValues, List.forall_mem_append, List.forall_mem_cons,
    List.forall_mem_flatMap, forall_and, Value.isFinite]
  tauto

/-- The check finds nothing in a node whose own values are finite. It does not look at queries. -/
theorem Node.nonFiniteSites_eq_nil_iff {n : Node} :
    n.nonFiniteSites = [] ↔ ∀ v ∈ n.ownValues, v.isFinite = true := by
  simp only [nonFiniteSites, ownValues, Dict.values, List.append_eq_nil_iff, List.map_eq_nil_iff,
    List.filter_eq_nil_iff, List.forall_mem_append, List.forall_mem_map, Bool.not_eq_true',
    Bool.not_eq_false]

/-- **What the check is about**: the values of the document itself. -/
theorem checkFinite_eq_ok_iff : d.checkFinite = .ok () ↔ ∀ v ∈ d.ownValues, v.isFinite = true := by
  have hsites : d.checkFinite = .ok () ↔ d.nonFiniteSites = [] := by
    rw [checkFinite]
    rcases d.nonFiniteSites with - | ⟨site, sites⟩
    · simp
    · simp
  rw [hsites, nonFiniteSites]
  simp only [List.append_eq_nil_iff, List.flatMap_eq_nil_iff, Node.nonFiniteSites_eq_nil_iff,
    ite_eq_left_iff, List.cons_ne_nil, imp_false, not_not, ownValues, List.forall_mem_cons,
    List.forall_mem_flatMap, and_assoc]
  rfl

/-- **When the check is enough**: if queries hold nothing that cannot be written unless the document
itself does. -/
theorem writable_iff_checkFinite :
    (Codec.document.Writable d ↔ d.checkFinite = .ok ()) ↔
      ((∀ v ∈ d.ownValues, v.isFinite = true) → ∀ v ∈ d.queryValues, v.isFinite = true) := by
  rw [writable_iff, checkFinite_eq_ok_iff, values, List.forall_mem_append]
  exact and_iff_left_iff_imp

/-- **Documents that were read are written without a `null`.** -/
theorem writable_of_ofText {text : String} (h : ofText text = .ok d) :
    Codec.document.Writable d := by
  obtain ⟨hparse, -⟩ := ofText_eq_ok_iff_parse.1 h
  exact writable_iff.2 (Codec.yields_documentValues.of_parse hparse)

/-- A document that was read may be changed, but for its queries, and the check is enough. -/
theorem writable_iff_checkFinite_of_ofText {text : String} {d' : Document}
    (h : ofText text = .ok d) (hqueries : ∀ v ∈ d'.queryValues, v ∈ d.queryValues) :
    Codec.document.Writable d' ↔ d'.checkFinite = .ok () := by
  refine writable_iff_checkFinite.2 fun _ v hv ↦ ?_
  exact writable_iff.1 (writable_of_ofText h) v (List.mem_append_right _ (hqueries v hv))

/-- A text with a `null` in place of a double is not read as the document. -/
theorem not_rereadFrom_of_not_writable (hversion : d.version = currentVersion)
    (hfinite : d.checkFinite = .ok ()) (hops : d.PlainOps) (h : ¬ Codec.document.Writable d)
    {text : String} (htext : d.toJson.toRaw.IsText text) : ¬ d.RereadFrom text := by
  intro hread
  have hrereadable := (rereadFrom_iff hversion hfinite hops htext).1 hread
  exact h fun x hx ↦ (hrereadable.2 x hx).isFinite

/-- A document with one node that reads from itself under a context that is no number. -/
def stray : Document where
  version := 1
  id := "p"
  nodes :=
    [{ type := ⟨"x", none⟩
       id := "A"
       contexts := []
       inputs := .ofList [("in",
         ⟨[⟨"A", [⟨"k", .field (.double ⟨0x7FF8000000000000⟩)⟩], ⟨"x", none⟩, "out"⟩], [], none⟩)]
       outputs := .empty
       parameters := .empty
       dependencies := []
       dependents := []
       options := ⟨true, none⟩ }]
  runtime := ⟨.text "root", .text "run"⟩
  mode := .sync
  deployment := .empty

/-- **The check is not always enough**: this document passes it and is not read back. -/
theorem checkFinite_stray : stray.checkFinite = .ok () ∧ ¬ Codec.document.Writable stray ∧
    ∃ text, stray.canonicalText = .ok text ∧ ¬ stray.RereadFrom text := by
  have hfinite : stray.checkFinite = .ok () := by decide +kernel
  have hwritable : ¬ Codec.document.Writable stray := by
    rw [writable_iff]
    decide +kernel
  have hops : stray.PlainOps := by decide +kernel
  exact ⟨hfinite, hwritable, _, canonicalText_of_checkFinite hfinite,
    not_rereadFrom_of_not_writable rfl hfinite hops hwritable (Json.isText_compact _)⟩

end Document

/-- **Compiled documents are written without a `null`.** -/
theorem Declaration.writable_of_compile {d : Declaration} {m : Deployment}
    {options : CompileOptions} {report : CompileReport} (h : d.compile m options = .ok report) :
    Codec.document.Writable report.document := by
  refine Document.writable_iff_checkFinite.2 (fun _ v hv ↦ ?_) |>.2 (checkFinite_of_compile h)
  obtain ⟨n, hn, hv⟩ := List.mem_flatMap.1 hv
  obtain ⟨c, -, hcompiled⟩ := exists_mem_of_forall₂_right (outcome_of_compile h).nodes hn
  exact hcompiled.forall_queryValues (P := fun v ↦ v.isFinite = true) (fun _ ↦ rfl) (fun _ ↦ rfl)
    v hv

end Pipework
