import Pipework.Proofs.Codec.Shape
import Pipework.Proofs.Declaration.RoundTrip

/-!
# The members of a declaration

Most objects of a declaration refuse members that the format does not define. The types of nodes and
of outputs do not, and neither do the objects that stand for a runtime parameter: what else is
written there is accepted and has no effect (`unknown_members_of_parse`). So a misspelled field can
get lost in four places (`accepts_undefined_members`).
-/

namespace Pipework

open Json

/-! ### The format -/

namespace Shape

/-- Kinds of scalar values. -/
def scalarKind : Shape :=
  .choice ["INT", "DOUBLE", "STRING"]

/-- Types of nodes, which pass over other members. -/
def nodeType : Shape :=
  .record false [("name", scalar),
    ("base_type", .choice ["INGEST", "PROCESS", "TRANSFORM", "TRAIN", "INFRA_VALIDATE", "DEPLOY"])]

/-- Types of artifacts, which pass over other members. -/
def artifactType : Shape :=
  .record false [("name", scalar),
    ("base_type", .choice ["DATASET", "MODEL", "METRICS", "STATISTICS"]),
    ("properties", .map scalarKind)]

/-- Scalar values, or objects that stand for a runtime parameter, which pass over other members. -/
def orRuntime (held : Shape) : Shape :=
  .record false [("runtime_parameter", held)]

/-- Values of parameters. -/
def parameter : Shape :=
  orRuntime (.record true [("name", scalar), ("type", scalarKind), ("default_value", scalar)])

/-- Contexts. -/
def context : Shape :=
  .record true [("type", scalar), ("value", orRuntime scalar)]

/-- Inputs. The configuration of a step is free. -/
def input : Shape :=
  .record true [("channels", .list (.record true [("producer", scalar), ("output", scalar)])),
    ("resolver", .list (.record true [("op", scalar), ("config", .any)])), ("min_count", scalar)]

/-- Nodes. -/
def node : Shape :=
  .record true [("id", scalar), ("node_type", nodeType),
    ("kind", .choice ["component", "resolver", "importer"]), ("contexts", .list context),
    ("inputs", .map input), ("outputs", .map artifactType), ("parameters", .map parameter),
    ("after", .list scalar), ("enable_cache", scalar), ("max_execution_retries", scalar)]

/-- Declarations. -/
def declaration : Shape :=
  .record true [("pipeline_id", scalar), ("pipeline_root", scalar),
    ("execution_mode", .choice ["SYNC", "ASYNC"]), ("nodes", .list node)]

end Shape

namespace Codec

/-! ### Codecs of declarations -/

theorem hasShape_nodeType : nodeType.HasShape .nodeType :=
  hasShape_record ⟨_, _, rfl, hasShape_string _, _, _, rfl, hasShape_option hasShape_names, rfl⟩

theorem hasShape_artifactType : artifactType.HasShape .artifactType :=
  hasShape_record ⟨_, _, rfl, hasShape_string _, _, _, rfl, hasShape_option hasShape_names, _, _,
    rfl, hasShape_dict hasShape_names, rfl⟩

/-- A value that is plain or else an object that stands for a runtime parameter. The object is read
as a tree, of which only one member counts. -/
theorem hasShape_orRuntime {α β γ : Type} {plain : Codec β} {held : Codec γ} {write : α → Json}
    {match? : Json → Option α} {type : String} {s : Shape} (hplain : plain.RefusesTrees)
    (hheld : held.HasTreeShape s) (ofHeld : γ → α)
    (herror : ∀ j e, plain.ofJson .text j = .error e →
      match? j = (runtimeOfJson? held j).map ofHeld) :
    (buffered write match? type).HasShape (.orRuntime s) := by
  have hfields : (runtimeField held).Have HasTreeShape [("runtime_parameter", s)] :=
    ⟨s, [], rfl, hheld, rfl⟩
  refine .of_recognizes recognizes_buffered ?_
  rintro room r a ⟨j, hj, hmatch⟩
  rcases hliteral : plain.ofJson .text j with e | b
  · rw [herror j e hliteral] at hmatch
    obtain ⟨c, hc, rfl⟩ := Option.map_eq_some_iff.1 hmatch
    obtain ⟨js, rfl, hrow⟩ := exists_of_runtimeOfJson? hc
    obtain ⟨hknows, js', hj', hrow'⟩ := hfields.covers_ofObject false room ⟨js, hj, hrow⟩
    refine ⟨hknows, .object js', hj', ?_⟩
    -- What is left is an object, so it is not taken for a plain value either.
    rcases hobject : plain.ofJson .text (.object js') with e' | b
    · rw [herror _ e' hobject, runtimeOfJson?, hrow']
      rfl
    · exact absurd rfl (hplain hobject).2
  · have hr := isBracket_eq_false_of_reads hj (hplain hliteral).1 (hplain hliteral).2
    rw [Shape.prune_of_not_isBracket _ hr]
    exact ⟨Shape.knows_of_not_isBracket _ hr, j, hj, hmatch⟩

/-- A runtime parameter is strict, so that no member of it is passed over. -/
theorem hasTreeShape_declaredRuntimeParameter : declaredRuntimeParameter.HasTreeShape
    (.record true [("name", .scalar), ("type", .scalarKind), ("default_value", .scalar)]) :=
  hasTreeShape_record ⟨_, _, rfl, refusesTrees_string.hasTreeShape _, _, _, rfl, hasTreeShape_names,
    _, _, rfl, hasTreeShape_option (refusesTrees_literal.hasTreeShape _), rfl⟩

/-- Beside the runtime parameter an object may have other members, which are passed over. -/
theorem hasShape_parameter : parameter.HasShape .parameter := by
  refine hasShape_orRuntime refusesTrees_literal hasTreeShape_declaredRuntimeParameter .runtime ?_
  intro j e he
  rw [he]

/-- The value of a context has the shape of a parameter. -/
theorem hasShape_contextValue : contextValue.HasShape (.orRuntime .scalar) := by
  refine hasShape_orRuntime refusesTrees_string (refusesTrees_string.hasTreeShape _) .runtime ?_
  intro j e he
  rw [he]

theorem hasShape_declaredContext : declaredContext.HasShape .context :=
  hasShape_record ⟨_, _, rfl, hasShape_string _, _, _, rfl, hasShape_contextValue, rfl⟩

theorem hasShape_declaredChannel :
    declaredChannel.HasShape (.record true [("producer", .scalar), ("output", .scalar)]) :=
  hasShape_record ⟨_, _, rfl, hasShape_string _, _, _, rfl, hasShape_string _, rfl⟩

theorem hasShape_declaredStep :
    declaredStep.HasShape (.record true [("op", .scalar), ("config", .any)]) :=
  hasShape_record ⟨_, _, rfl, hasShape_via (hasShape_string _), _, _, rfl,
    hasShape_option hasShape_payload, rfl⟩

theorem hasShape_declaredInput : declaredInput.HasShape .input :=
  hasShape_record ⟨_, _, rfl, hasShape_list hasShape_declaredChannel, _, _, rfl,
    hasShape_list hasShape_declaredStep, _, _, rfl, hasShape_option (hasShape_uint32 _), rfl⟩

/-- The fields of a node, in the order in which an array would have them. -/
theorem hasShape_declaredNode : declaredNode.HasShape .node :=
  hasShape_record ⟨_, _, rfl, hasShape_string _, _, _, rfl, hasShape_nodeType, _, _, rfl,
    hasShape_names, _, _, rfl, hasShape_list hasShape_declaredContext, _, _, rfl,
    hasShape_dict hasShape_declaredInput, _, _, rfl, hasShape_dict hasShape_artifactType, _, _, rfl,
    hasShape_dict hasShape_parameter, _, _, rfl, hasShape_list (hasShape_string _), _, _, rfl,
    hasShape_bool _, _, _, rfl, hasShape_option (hasShape_uint32 _), rfl⟩

/-- **A declaration has the shape of its format.** -/
theorem hasShape_declaration : declaration.HasShape .declaration :=
  hasShape_record ⟨_, _, rfl, hasShape_string _, _, _, rfl, hasShape_option (hasShape_string _), _,
    _, rfl, hasShape_names, _, _, rfl, hasShape_list hasShape_declaredNode, rfl⟩

end Codec

namespace Declaration

/-- **Members that the format does not define** are refused, except in types and in objects that
stand for a runtime parameter. There they have no effect: without them all names are defined, and
the same declaration is read. -/
theorem unknown_members_of_parse {r : Raw} {text : String} (ht : r.IsText text) :
    (Shape.declaration.knows true r = false → ∃ f, Codec.declaration.parse text = .error f) ∧
      ∀ d, Codec.declaration.parse text = .ok d →
        Shape.declaration.knows false (Shape.declaration.prune r) = true ∧
        (∀ text', (Shape.declaration.prune r).IsText text' →
          Codec.declaration.parse text' = .ok d) ∧
        (Shape.declaration.knows false r = true ↔ Shape.declaration.prune r = r) := by
  have huniform := Codec.hasShape_declaration.uniform
  have hcovers {d : Declaration} (hd : Codec.declaration.parse text = .ok d) :=
    Codec.hasShape_declaration.covers maxDepth ((huniform.parse_eq_ok_iff ht).1 hd)
  refine ⟨fun hunknown ↦ ?_, fun d hd ↦ ?_⟩
  · rcases hparse : Codec.declaration.parse text with f | d
    · exact ⟨f, rfl⟩
    · rw [(hcovers hparse).1] at hunknown
      cases hunknown
  · obtain ⟨hknows, hprune⟩ := hcovers hd
    have hdefined := Shape.knows_prune _ r hknows
    refine ⟨hdefined, fun text' ht' ↦ (huniform.parse_eq_ok_iff ht').2 hprune,
      Shape.prune_eq_self _ r, fun heq ↦ ?_⟩
    rwa [heq] at hdefined

/-! ### Members that get lost -/

/-- A declaration of one node with the given members. -/
def ofNode (members : List (String × Json)) : Json :=
  .object [("pipeline_id", .string "p"),
    ("nodes", .array [.object (("id", .string "A") :: members)])]

/-- The node has a member that is no field, and is refused. -/
def strayInNode : Json :=
  ofNode [("node_type", .object [("name", .string "x")]), ("upstream", .array [])]

/-- The field for the category is misspelled. -/
def strayInNodeType : Json :=
  ofNode [("node_type", .object [("name", .string "x"), ("basetype", .string "TRAIN")])]

/-- The field for the properties is misspelled. -/
def strayInOutput : Json :=
  ofNode [("node_type", .object [("name", .string "x")]), ("outputs", .object [("out", .object
    [("name", .string "T"), ("property", .object [("rows", .string "INT")])])])]

/-- The default stands beside the runtime parameter. -/
def strayInParameter : Json :=
  ofNode [("node_type", .object [("name", .string "x")]), ("parameters", .object [("k", .object
    [("runtime_parameter", .object [("name", .string "r"), ("type", .string "INT")]),
      ("default_value", .int 3)])])]

/-- The default stands beside the name of a runtime parameter, which cannot have one. -/
def strayInContext : Json :=
  ofNode [("node_type", .object [("name", .string "x")]), ("contexts", .array [.object
    [("type", .string "t"), ("value", .object
      [("runtime_parameter", .string "r"), ("default_value", .string "v")])]])]

/-- The text of a tree is accepted although it has members that the format does not define. -/
def AcceptsUndefined (j : Json) : Prop :=
  j.toRaw.IsText j.compact ∧ (∃ d, Codec.declaration.parse j.compact = .ok d) ∧
    Shape.declaration.knows false j.toRaw = false

theorem isSome_parse_strayInParameter :
    (Codec.declaration.parse strayInParameter.compact).toOption.isSome = true := by
  decide +kernel

/-- **A misspelled field gets lost** in each of the four places. -/
theorem accepts_undefined_members : AcceptsUndefined strayInNodeType ∧
    AcceptsUndefined strayInOutput ∧ AcceptsUndefined strayInParameter ∧
    AcceptsUndefined strayInContext :=
  ⟨⟨isText_compact _, ⟨_, eq_ok_get_of_isSome (by decide +kernel)⟩, by decide +kernel⟩,
    ⟨isText_compact _, ⟨_, eq_ok_get_of_isSome (by decide +kernel)⟩, by decide +kernel⟩,
    ⟨isText_compact _, ⟨_, eq_ok_get_of_isSome isSome_parse_strayInParameter⟩, by decide +kernel⟩,
    ⟨isText_compact _, ⟨_, eq_ok_get_of_isSome (by decide +kernel)⟩, by decide +kernel⟩⟩

/-- A member that is not defined is refused in a node, and lost in the value of a parameter. -/
theorem unknown_members_of_parse_stray :
    (∃ f, Codec.declaration.parse strayInNode.compact = .error f) ∧
      ∃ d, Codec.declaration.parse strayInParameter.compact = .ok d ∧
        ∀ text', (Shape.declaration.prune strayInParameter.toRaw).IsText text' →
          Codec.declaration.parse text' = .ok d := by
  have h := eq_ok_get_of_isSome isSome_parse_strayInParameter
  obtain ⟨-, hprune, -⟩ := (unknown_members_of_parse (isText_compact strayInParameter)).2 _ h
  have hrefused := (unknown_members_of_parse (isText_compact strayInNode)).1 (by decide +kernel)
  exact ⟨hrefused, _, h, hprune⟩

end Declaration
end Pipework
