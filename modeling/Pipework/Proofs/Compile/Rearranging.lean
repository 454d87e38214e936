import Pipework.Compile
import Pipework.Proofs.Codec.Rearranging

/-!
# Compiling a text with its members in another order

Neither declarations nor deployments look at the order of members. What is read from a rearranged
text is therefore the same, wherever the members were that changed their places: in a record, in a
dictionary, before or behind a tag, in a value that has one of several forms or deep in a
configuration. The compiled documents then are the same to the last character
(`compile_rearranged`).
-/

namespace Pipework

namespace Codec

open Json

/-! ### Declarations -/

theorem orderless_resolverOp : resolverOp.Orderless :=
  orderless_via orderless_string

theorem orderless_nodeType : nodeType.Orderless :=
  orderless_record ⟨orderless_string, orderless_option orderless_names, trivial⟩

theorem orderless_artifactType : artifactType.Orderless :=
  orderless_record ⟨orderless_string, orderless_option orderless_names,
    orderless_dict orderless_names, trivial⟩

/-- A runtime parameter is orderless as a tree, since it is matched after it has been put aside. -/
theorem orderlessTree_declaredRuntimeParameter : declaredRuntimeParameter.OrderlessTree :=
  orderlessTree_record ⟨orderlessTree_scalar, orderlessTree_names,
    orderlessTree_option orderlessTree_literal, trivial⟩

/-- A value that is supplied later is wrapped into an object with one member. -/
theorem runtimeOfJson?_of_alike {α : Type} {c : Codec α} (h : c.OrderlessTree) {j j' : Json}
    (hj : Alike j j') {a : α} (ha : runtimeOfJson? c j = some a) :
    runtimeOfJson? c j' = some a := by
  rcases hj.cases with rfl | ⟨js, js', rfl, rfl, -⟩ | ⟨ms, ms', rfl, rfl, hnodup, hshuffled⟩
  · exact ha
  · cases ha
  · rw [runtimeOfJson?] at ha ⊢
    split at ha
    next b hb =>
      have hfields : (runtimeField c).All OrderlessTree := ⟨h, trivial⟩
      rw [Fields.ofObject_of_shuffled hfields hnodup hshuffled hb]
      exact ha
    next => cases ha

-- Whether a value is written out shows in what is found, before any member is looked at. So a value
-- that is rearranged keeps its form, for parameters as for contexts.
/-- A parameter is a plain value or a runtime parameter, and both are put aside first. -/
theorem orderless_parameter : parameter.Orderless := by
  refine orderless_buffered ?_
  intro j j' p hj hp
  have hliteral : literal.ofJson .text j' = literal.ofJson .text j :=
    congrArg literalOfFound (found_eq_of_alike hj)
  rw [hliteral]
  split at hp
  next v hv => exact hp
  next e he =>
    obtain ⟨a, ha, rfl⟩ := Option.map_eq_some_iff.1 hp
    rw [runtimeOfJson?_of_alike orderlessTree_declaredRuntimeParameter hj ha]
    rfl

/-- A context has a plain value or a runtime parameter, as a parameter has. -/
theorem orderless_contextValue : contextValue.Orderless := by
  refine orderless_buffered ?_
  intro j j' v hj hv
  have hliteral : string.ofJson .text j' = string.ofJson .text j := by
    simp only [string, scalar, found_eq_of_alike hj]
  rw [hliteral]
  split at hv
  next s hs => exact hv
  next e he =>
    obtain ⟨name, hname, rfl⟩ := Option.map_eq_some_iff.1 hv
    rw [runtimeOfJson?_of_alike (c := string) orderlessTree_scalar hj hname]
    rfl

theorem orderless_declaredContext : declaredContext.Orderless :=
  orderless_record ⟨orderless_string, orderless_contextValue, trivial⟩

theorem orderless_declaredChannel : declaredChannel.Orderless :=
  orderless_record ⟨orderless_string, orderless_string, trivial⟩

theorem orderless_declaredStep : declaredStep.Orderless :=
  orderless_record ⟨orderless_resolverOp, orderless_option orderless_payload, trivial⟩

theorem orderless_declaredInput : declaredInput.Orderless :=
  orderless_record ⟨orderless_list orderless_declaredChannel, orderless_list orderless_declaredStep,
    orderless_option orderless_uint32, trivial⟩

theorem orderless_declaredNode : declaredNode.Orderless :=
  orderless_record ⟨orderless_string, orderless_nodeType, orderless_names,
    orderless_list orderless_declaredContext, orderless_dict orderless_declaredInput,
    orderless_dict orderless_artifactType, orderless_dict orderless_parameter,
    orderless_list orderless_string, orderless_bool, orderless_option orderless_uint32, trivial⟩

/-- **Declarations are orderless.** -/
theorem orderless_declaration : declaration.Orderless :=
  orderless_record ⟨orderless_string, orderless_option orderless_string, orderless_names,
    orderless_list orderless_declaredNode, trivial⟩

/-! ### Deployments -/

/-- An executor may have its tag anywhere among its members. -/
theorem orderless_executable : executable.Orderless := by
  refine orderless_tagged ?_
  simp only [List.forall_mem_cons, List.not_mem_nil, IsEmpty.forall_iff, implies_true, and_true]
  exact ⟨Form.orderless_of ⟨orderlessTree_scalar, trivial⟩,
    Form.orderless_of ⟨orderlessTree_scalar, orderlessTree_list orderlessTree_scalar, trivial⟩,
    Form.orderless_of ⟨orderlessTree_scalar, orderlessTree_list orderlessTree_scalar,
      orderlessTree_list orderlessTree_scalar, trivial⟩⟩

theorem orderless_deploymentEntry : deploymentEntry.Orderless :=
  orderless_record ⟨orderless_executable, orderless_option orderless_executable, trivial⟩

/-- **Deployments are orderless.** -/
theorem orderless_deployment : deployment.Orderless :=
  orderless_dict orderless_deploymentEntry

end Codec

/-! ### Compiling -/

/-- The same texts, layers and sizes, or the same error. -/
def SameResult : Except CompileError CompileReport → Except CompileError CompileReport → Prop
  | .ok report, .ok report' =>
    report'.document.canonicalText = report.document.canonicalText ∧
      report'.document.prettyText = report.document.prettyText ∧
      report'.layers = report.layers ∧ report'.counts = report.counts
  | .error e, .error e' => e' = e
  | _, _ => False

theorem SameResult.refl (x : Except CompileError CompileReport) : SameResult x x := by
  cases x with
  | ok report => exact ⟨rfl, rfl, rfl, rfl⟩
  | error e => rfl

/-- **The order of members and the blanks between words do not matter**, neither in the text of a
declaration nor in that of a deployment, if no object repeats a name. -/
theorem compile_rearranged {r r' : Json.Raw} (h : r.Rearranged r') (hdistinct : r.Distinct)
    {text text' : String} (ht : r.IsText text) (ht' : r'.IsText text') :
    (∀ d, Codec.declaration.parse text = .ok d →
      ∃ d', Codec.declaration.parse text' = .ok d' ∧
        ∀ m options, SameResult (d.compile m options) (d'.compile m options)) ∧
    ∀ m, Codec.deployment.parse text = .ok m →
      ∃ m', Codec.deployment.parse text' = .ok m' ∧
        ∀ (d : Declaration) options, SameResult (d.compile m options) (d.compile m' options) := by
  constructor
  · intro d hd
    exact ⟨d, Codec.orderless_declaration.parse_eq_ok ⟨h, hdistinct⟩ ht ht' hd,
      fun m options ↦ .refl _⟩
  · intro m hm
    exact ⟨m, Codec.orderless_deployment.parse_eq_ok ⟨h, hdistinct⟩ ht ht' hm,
      fun d options ↦ .refl _⟩

/-! ### Members in reverse order -/

namespace Json

mutual

/-- The members of every object in reverse order. -/
def Raw.mirrored : Raw → Raw
  | .array rs => .array (Raw.mirroredItems rs)
  | .object ms => .object (Raw.mirroredMembers ms).reverse
  | r => r

/-- `mirrored` for every item. -/
def Raw.mirroredItems : List Raw → List Raw
  | [] => []
  | r :: rs => r.mirrored :: Raw.mirroredItems rs

/-- `mirrored` for the value of every member. -/
def Raw.mirroredMembers : List (StringSpelling × Raw) → List (StringSpelling × Raw)
  | [] => []
  | (k, r) :: ms => (k, r.mirrored) :: Raw.mirroredMembers ms

end

mutual

/-- Reversing the members of all objects is a rearrangement. -/
theorem Raw.rearranged_mirrored : (r : Raw) → r.Rearranged r.mirrored
  | .array rs => ⟨_, Raw.rearrangedItems_mirrored rs, rfl⟩
  | .object ms => ⟨_, _, Raw.rearrangedMembers_mirrored ms, (List.reverse_perm _).symm, rfl⟩
  | .null | .bool _ | .number _ | .string _ => rfl

theorem Raw.rearrangedItems_mirrored : (rs : List Raw) →
    Raw.RearrangedItems rs (Raw.mirroredItems rs)
  | [] => rfl
  | r :: rs => ⟨_, _, Raw.rearranged_mirrored r, Raw.rearrangedItems_mirrored rs, rfl⟩

theorem Raw.rearrangedMembers_mirrored : (ms : List (StringSpelling × Raw)) →
    Raw.RearrangedMembers ms (Raw.mirroredMembers ms)
  | [] => rfl
  | (_, r) :: ms => ⟨_, _, Raw.rearranged_mirrored r, Raw.rearrangedMembers_mirrored ms, rfl⟩

end

end Json

/-- A declaration with a parameter that is supplied later. -/
def sampler : Json :=
  .object [("pipeline_id", .string "p"), ("nodes", .array [.object
    [("id", .string "A"), ("node_type", .object [("name", .string "x")]),
      ("kind", .string "importer"), ("parameters", .object [("k", .object
        [("runtime_parameter", .object [("name", .string "r"), ("type", .string "INT")])])])]])]

/-- `sampler` from back to front. -/
def samplerMirrored : Json :=
  .object [("nodes", .array [.object
    [("parameters", .object [("k", .object
        [("runtime_parameter", .object [("type", .string "INT"), ("name", .string "r")])])]),
      ("kind", .string "importer"), ("node_type", .object [("name", .string "x")]),
      ("id", .string "A")]]), ("pipeline_id", .string "p")]

/-- A deployment of its node. -/
def samplerDeployment : Json :=
  .object [("A", .object [("executor", .object
    [("kind", .string "native"), ("implementation", .string "i")])])]

/-- `samplerDeployment` from back to front: the tag comes last. -/
def samplerDeploymentMirrored : Json :=
  .object [("A", .object [("executor", .object
    [("implementation", .string "i"), ("kind", .string "native")])])]

theorem sampler_distinct : sampler.toRaw.Distinct ∧ samplerDeployment.toRaw.Distinct := by
  simp [sampler, samplerDeployment, Json.toRaw, Json.rawMembers, Json.rawItems, Json.Raw.Distinct,
    Json.Raw.DistinctItems, Json.Raw.DistinctMembers]

theorem sampler_rearranged : sampler.toRaw.Rearranged samplerMirrored.toRaw :=
  have h : sampler.toRaw.mirrored = samplerMirrored.toRaw := rfl
  h ▸ Json.Raw.rearranged_mirrored _

theorem samplerDeployment_rearranged :
    samplerDeployment.toRaw.Rearranged samplerDeploymentMirrored.toRaw :=
  have h : samplerDeployment.toRaw.mirrored = samplerDeploymentMirrored.toRaw := rfl
  h ▸ Json.Raw.rearranged_mirrored _

/-- The members of a declaration and of its deployment are reversed, and the texts are laid out
otherwise. -/
theorem compile_rearranged_sampler :
    ∃ d d' m m' report, Codec.declaration.parse sampler.compact = .ok d ∧
      Codec.declaration.parse samplerMirrored.pretty = .ok d' ∧
      Codec.deployment.parse samplerDeployment.compact = .ok m ∧
      Codec.deployment.parse samplerDeploymentMirrored.pretty = .ok m' ∧
      d.compile m {} = .ok report ∧ SameResult (.ok report) (d'.compile m {}) ∧
      SameResult (.ok report) (d.compile m' {}) := by
  have hcompiles : ((Codec.declaration.parse sampler.compact).toOption.bind fun d ↦
      (Codec.deployment.parse samplerDeployment.compact).toOption.bind fun m ↦
        (d.compile m {}).toOption).isSome = true := by decide +kernel
  simp only [Option.isSome_iff_exists, Option.bind_eq_some_iff, toOption_eq_some_iff]
    at hcompiles
  obtain ⟨report, d, hd, m, hm, hreport⟩ := hcompiles
  obtain ⟨d', hd', hcompile⟩ := (compile_rearranged sampler_rearranged
    sampler_distinct.1 (Json.isText_compact _) (Json.isText_pretty _)).1 d hd
  obtain ⟨m', hm', hcompile'⟩ := (compile_rearranged samplerDeployment_rearranged
    sampler_distinct.2 (Json.isText_compact _) (Json.isText_pretty _)).2 m hm
  exact ⟨d, d', m, m', report, hd, hd', hm, hm', hreport, hreport ▸ hcompile m {},
    hreport ▸ hcompile' d {}⟩

end Pipework
