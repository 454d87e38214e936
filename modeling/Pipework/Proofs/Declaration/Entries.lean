import Pipework.Proofs.Codec.Entries
import Pipework.Proofs.Compile.Rearranging

/-!
# The entries of a declaration and of a deployment

Inputs, outputs and parameters of a node are objects whose names the author chooses, and so is a
deployment. No name may occur in such an object twice, however it is spelled, and every member
becomes one entry with the value of that member (`entries_of_parse`).
-/

namespace Pipework

open Json

namespace Codec

theorem roomy_declaredInput : declaredInput.Roomy :=
  roomy_record ⟨roomy_list (roomy_record ⟨roomy_string, roomy_string, trivial⟩),
    roomy_list (roomy_record ⟨roomy_via roomy_string, roomy_option roomy_payload, trivial⟩),
    roomy_option roomy_uint32, trivial⟩

theorem roomy_artifactType : artifactType.Roomy :=
  roomy_record ⟨roomy_string, roomy_option roomy_names, roomy_dict roomy_names, trivial⟩

theorem roomy_parameter : parameter.Roomy :=
  roomy_buffered

theorem roomy_deploymentEntry : deploymentEntry.Roomy :=
  roomy_record ⟨roomy_tagged, roomy_option roomy_tagged, trivial⟩

end Codec

namespace Declaration

/-- The fields of a declaration in their order. -/
def fieldNames : List String :=
  ["pipeline_id", "pipeline_root", "execution_mode", "nodes"]

/-- The fields of a node in their order. -/
def Node.fieldNames : List String :=
  ["id", "node_type", "kind", "contexts", "inputs", "outputs", "parameters", "after",
    "enable_cache", "max_execution_retries"]

/-- The dictionary has the entries of the only object that is held for a field of a node, and is
empty if there is none. -/
def Node.KeepsHeld {α : Type} (r : Raw) (field : String) (c : Codec α) (d : Dict α) : Prop :=
  (∃ ms, (∀ v, r.Holds fieldNames field v ↔ v = .object ms) ∧ c.Keeps ms d) ∨
    ((∀ v, ¬ r.Holds fieldNames field v) ∧ d = .empty)

/-- The node has all entries of the value from which it is read. -/
structure Node.KeepsEntries (r : Raw) (n : Node) : Prop where
  inputs : KeepsHeld r "inputs" Codec.declaredInput n.inputs
  outputs : KeepsHeld r "outputs" Codec.artifactType n.outputs
  parameters : KeepsHeld r "parameters" Codec.parameter n.parameters

/-- Every node has all entries of the item from which it is read. -/
def KeepsEntries (r : Raw) (d : Declaration) : Prop :=
  ∃ rs, (∀ v, r.Holds fieldNames "nodes" v ↔ v = .array rs) ∧
    List.Forall₂ Node.KeepsEntries rs d.nodes

/-- Names are repeated in the inputs, the outputs or the parameters of a node. -/
def RepeatsKey (r : Raw) : Prop :=
  ∃ rs node field ms, r.Holds fieldNames "nodes" (.array rs) ∧ node ∈ rs ∧
    field ∈ ["inputs", "outputs", "parameters"] ∧ node.Holds Node.fieldNames field (.object ms) ∧
    ¬ (ms.map (·.1.decode?)).Nodup

/-- A field that is a dictionary keeps what the object holds under its name, or is empty where there
is nothing. -/
theorem Node.keepsHeld_of_filled {α : Type} {c : Codec α} (hc : c.Roomy) {room : Nat}
    (hle : room ≤ maxDepth) {r : Raw} {field : String} {d : Dict α}
    (h : (Codec.Field.defaulting field (.dict .refused c) .empty).Filled (r.Holds fieldNames field)
      (Codec.Reads (.dict .refused c) room) d) : KeepsHeld r field c d := by
  rcases h with ⟨v, hheld, hread⟩ | ⟨hnone, hmissing | hmissing⟩
  · obtain ⟨ms, rfl, hkeeps⟩ := Codec.keeps_of_reads hc hle hread
    exact .inl ⟨ms, hheld, hkeeps⟩
  · cases hmissing
  · cases hmissing
    exact .inr ⟨hnone, rfl⟩

/-- A node keeps the entries of its inputs, outputs and parameters. -/
theorem Node.keepsEntries_of_reads {room : Nat} (hle : room ≤ maxDepth) {r : Raw} {n : Node}
    (h : Codec.declaredNode.Reads room r n) : n.KeepsEntries r := by
  obtain ⟨inner, row, rfl, rfl, hfields⟩ := Codec.Fields.filled_of_reads h
    ⟨Codec.uniform_string, Codec.orderless_nodeType.uniform, Codec.orderless_names.uniform,
      Codec.uniform_list Codec.orderless_declaredContext.uniform,
      Codec.uniform_dict Codec.roomy_declaredInput.uniform,
      Codec.uniform_dict Codec.roomy_artifactType.uniform,
      Codec.uniform_dict Codec.roomy_parameter.uniform, Codec.uniform_list Codec.uniform_string,
      Codec.orderless_bool.uniform, Codec.uniform_option Codec.roomy_uint32.uniform, trivial⟩
    (by decide)
  obtain ⟨-, -, -, -, hinputs, houtputs, hparameters, -⟩ := hfields
  exact ⟨keepsHeld_of_filled Codec.roomy_declaredInput (by omega) hinputs,
    keepsHeld_of_filled Codec.roomy_artifactType (by omega) houtputs,
    keepsHeld_of_filled Codec.roomy_parameter (by omega) hparameters⟩

/-- **A declaration keeps the entries of its nodes**, in every dictionary. -/
theorem keepsEntries_of_reads {r : Raw} {d : Declaration}
    (h : Codec.declaration.Reads maxDepth r d) : d.KeepsEntries r := by
  obtain ⟨inner, row, hroom, rfl, hfields⟩ := Codec.Fields.filled_of_reads h
    ⟨Codec.uniform_string, Codec.uniform_option Codec.uniform_string,
      Codec.orderless_names.uniform, Codec.uniform_list Codec.orderless_declaredNode.uniform,
      trivial⟩ (by decide)
  obtain ⟨-, -, -, hnodes, -⟩ := hfields
  rcases hnodes with ⟨v, hheld, hread⟩ | ⟨-, hmissing | hmissing⟩
  · obtain ⟨room, rs, rfl, rfl, hnodes⟩ :=
      (Codec.recognizes_list Codec.orderless_declaredNode.uniform inner).reads_iff.1 hread
    exact ⟨rs, hheld, hnodes.imp fun _ _ ↦ Node.keepsEntries_of_reads (by omega)⟩
  · cases hmissing
  · cases hmissing

/-- A name that occurs twice in an object is not kept. -/
theorem KeepsEntries.not_repeatsKey {r : Raw} {d : Declaration} (h : d.KeepsEntries r) :
    ¬ RepeatsKey r := by
  rintro ⟨rs, node, field, ms, hnodes, hnode, hfield, hheld, hrepeated⟩
  obtain ⟨rs', hrs, hentries⟩ := h
  obtain rfl : rs = rs' := by simpa using (hrs _).1 hnodes
  obtain ⟨n, -, hn⟩ := exists_mem_of_forall₂ hentries hnode
  have hkept {α : Type} {c : Codec α} {e : Dict α} (he : Node.KeepsHeld node field c e) :
      False := by
    rcases he with ⟨ms', hms, hkeeps⟩ | ⟨hnone, -⟩
    · obtain rfl : ms = ms' := by simpa using (hms _).1 hheld
      exact hrepeated hkeeps.distinct
    · exact hnone _ hheld
  simp only [List.mem_cons, List.not_mem_nil, or_false] at hfield
  rcases hfield with rfl | rfl | rfl
  · exact hkept hn.inputs
  · exact hkept hn.outputs
  · exact hkept hn.parameters

/-- **Every member becomes one entry.** The names of inputs, outputs, parameters and deployment
entries are distinct in every text that is accepted, and a text that repeats one is refused. -/
theorem entries_of_parse {r : Raw} {text : String} (ht : r.IsText text) :
    (∀ d, Codec.declaration.parse text = .ok d → d.KeepsEntries r) ∧
      (∀ m, Codec.deployment.parse text = .ok m →
        ∃ ms, r = .object ms ∧ Codec.deploymentEntry.Keeps ms m) ∧
      (RepeatsKey r → ∃ f, Codec.declaration.parse text = .error f) ∧
      ∀ ms, r = .object ms → ¬ (ms.map (·.1.decode?)).Nodup →
        ∃ f, Codec.deployment.parse text = .error f := by
  have hdeclaration (d : Declaration) (hd : Codec.declaration.parse text = .ok d) :
      d.KeepsEntries r :=
    keepsEntries_of_reads ((Codec.orderless_declaration.uniform.parse_eq_ok_iff ht).1 hd)
  have hdeployment (m : Deployment) (hm : Codec.deployment.parse text = .ok m) :
      ∃ ms, r = .object ms ∧ Codec.deploymentEntry.Keeps ms m :=
    Codec.keeps_of_reads Codec.roomy_deploymentEntry (Nat.le_refl _)
      ((Codec.orderless_deployment.uniform.parse_eq_ok_iff ht).1 hm)
  refine ⟨hdeclaration, hdeployment, fun hrepeats ↦ ?_, fun ms hms hrepeats ↦ ?_⟩
  · cases h : Codec.declaration.parse text with
    | error f => exact ⟨f, rfl⟩
    | ok d => exact absurd hrepeats (hdeclaration d h).not_repeatsKey
  · cases h : Codec.deployment.parse text with
    | error f => exact ⟨f, rfl⟩
    | ok m =>
      obtain ⟨ms', rfl, hkeeps⟩ := hdeployment m h
      cases hms
      exact absurd hkeeps.distinct hrepeats

/-- A name that is spelled with an escape for its only letter. -/
def escapedName : StringSpelling :=
  ⟨['\\', 'u', '0', '0', '6', '1'], .unicode rfl .nil⟩

/-- The parameters of the only node repeat a name in another spelling. -/
def repeating : Raw :=
  .object [(.ofString "pipeline_id", .string (.ofString "p")), (.ofString "nodes", .array [.object
    [(.ofString "id", .string (.ofString "A")),
      (.ofString "node_type", .object [(.ofString "name", .string (.ofString "x"))]),
      (.ofString "parameters", .object [(.ofString "a", .bool true), (.ofString "b", .bool true),
        (escapedName, .bool true)])]])]

/-- A parameter is given twice, by different spellings of its name. -/
theorem repeatsKey_repeating : RepeatsKey repeating := by
  refine ⟨_, _, "parameters", _, ⟨_, List.mem_cons_of_mem _ List.mem_cons_self, decode?_ofString _⟩,
    List.mem_cons_self, by simp, ⟨_, List.mem_cons_of_mem _ (List.mem_cons_of_mem _
    List.mem_cons_self), decode?_ofString _⟩, ?_⟩
  have hescaped : escapedName.decode? = some "a" := rfl
  simp [hescaped]

/-- A repeated key is refused, also where both values are the same, and other texts keep all their
entries. -/
theorem entries_of_parse_repeating :
    (∃ text, repeating.IsText text ∧ RepeatsKey repeating ∧
        ∃ f, Codec.declaration.parse text = .error f) ∧
      ∃ d m, Codec.declaration.parse sampler.compact = .ok d ∧ d.KeepsEntries sampler.toRaw ∧
        Codec.deployment.parse samplerDeployment.compact = .ok m ∧
        ∃ ms, samplerDeployment.toRaw = .object ms ∧ Codec.deploymentEntry.Keeps ms m := by
  obtain ⟨s, hs⟩ := repeating.exists_spelled
  have ht : repeating.IsText (String.ofList s) := ⟨s, [], hs, blank_nil, by simp⟩
  have hd := eq_ok_get_of_isSome (x := Codec.declaration.parse sampler.compact) (by decide +kernel)
  have hm := eq_ok_get_of_isSome (x := Codec.deployment.parse samplerDeployment.compact)
    (by decide +kernel)
  exact ⟨⟨_, ht, repeatsKey_repeating, (entries_of_parse ht).2.2.1 repeatsKey_repeating⟩, _, _, hd,
    (entries_of_parse (isText_compact _)).1 _ hd, hm,
    (entries_of_parse (isText_compact _)).2.1 _ hm⟩

end Declaration
end Pipework
