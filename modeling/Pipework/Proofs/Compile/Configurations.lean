import Pipework.Proofs.Codec.Reading
import Pipework.Proofs.Compile.Independence
import Pipework.Proofs.Json.Encoding

/-!
# Ways to give a configuration

A step of a resolver chain has its configuration as an object or as a text that holds one. Compiling
uses it only through `Pipeline.resolveConfig`, so declarations whose steps have configurations that
are resolved alike (`SameConfigs`) have the same violations and the same outcome
(`compile_eq_of_sameConfigs`).

An object and any of its encodings are resolved alike (`resolveConfig_of_isEncoding`). So it makes
no difference in which of these ways a configuration is given (`compile_withConfig_eq`), and no
configuration is as good as an empty one.
-/

namespace Pipework

/-- Changes the value of a key, if it has one. -/
def Dict.modify {β : Type} (d : Dict β) (key : String) (f : β → β) : Dict β :=
  ⟨d.entries.map fun e ↦ (e.1, if e.1 = key then f e.2 else e.2), by
    rw [List.pairwise_map]
    exact d.sorted⟩

/-- Lists that are changed in one place, in related ways, are related. -/
theorem forall₂_modify {α : Type} {R : α → α → Prop} (hrefl : ∀ a, R a a) {f g : α → α}
    (h : ∀ a, R (f a) (g a)) (as : List α) (i : Nat) :
    List.Forall₂ R (as.modify i f) (as.modify i g) := by
  induction as generalizing i with
  | nil => simp
  | cons a as ih =>
    cases i with
    | zero => exact .cons (h a) (List.forall₂_same.2 fun b _ ↦ hrefl b)
    | succ i => exact .cons (hrefl a) (ih i)

namespace Declaration

open Pipeline (resolveConfig resolveSteps)

variable {d d' : Declaration} {m : Deployment} {options : CompileOptions} {report : CompileReport}

/-! ### Configurations that are resolved alike -/

/-- The same step but for its configuration, which is resolved as that of the other one. -/
structure Step.SameConfig (s s' : Step) : Prop where
  op : s'.op = s.op
  config : resolveConfig s'.config = resolveConfig s.config

/-- The same input but for the configurations of its steps. -/
structure Input.SameConfigs (i i' : Input) : Prop where
  channels : i'.channels = i.channels
  resolver : List.Forall₂ Step.SameConfig i.resolver i'.resolver
  minCount : i'.minCount = i.minCount

/-- The same node but for the configurations in its inputs. -/
structure Node.SameConfigs (c c' : Node) : Prop where
  rest : ∃ inputs, c' = { c with inputs := inputs }
  inputs : List.Forall₂ (fun e e' ↦ e'.1 = e.1 ∧ e.2.SameConfigs e'.2) c.inputs.entries
    c'.inputs.entries

/-- The same declaration but for the configurations of steps, which are resolved alike. -/
structure SameConfigs (d d' : Declaration) : Prop where
  id : d'.id = d.id
  root : d'.root = d.root
  mode : d'.mode = d.mode
  nodes : List.Forall₂ Node.SameConfigs d.nodes d'.nodes

theorem Step.SameConfig.refl (s : Step) : s.SameConfig s :=
  ⟨rfl, rfl⟩

theorem Input.SameConfigs.refl (i : Input) : i.SameConfigs i :=
  ⟨rfl, List.forall₂_same.2 fun s _ ↦ .refl s, rfl⟩

theorem Node.SameConfigs.refl (c : Node) : c.SameConfigs c :=
  ⟨⟨c.inputs, rfl⟩, List.forall₂_same.2 fun e _ ↦ ⟨rfl, .refl e.2⟩⟩

/-- What is wrong with a configuration is found in resolving it. -/
theorem configFault_eq {config config' : Option Json.Payload}
    (h : resolveConfig config' = resolveConfig config) :
    configFault config' = configFault config := by
  have hreports := Pipeline.reports_resolveConfig config
  have hreports' := Pipeline.reports_resolveConfig config'
  rw [h] at hreports'
  rcases hresolved : resolveConfig config with e | c
  · rw [hresolved] at hreports hreports'
    calc
      configFault config' = (configFault config').toList.head? := Option.head?_toList.symm
      _ = some e := hreports'
      _ = (configFault config).toList.head? := Eq.symm hreports
      _ = configFault config := Option.head?_toList
  · rw [hresolved] at hreports hreports'
    exact (Option.toList_eq_nil_iff.1 hreports').trans (Option.toList_eq_nil_iff.1 hreports).symm

/-- Only what configurations are resolved to shows in the steps, and in the error for one of
them. -/
theorem resolveSteps_eq {ss ss' : List Step} (h : List.Forall₂ Step.SameConfig ss ss') (id : NodeId)
    (key : InputKey) (i : Nat) : resolveSteps id key i ss' = resolveSteps id key i ss := by
  induction h generalizing i with
  | nil => rfl
  | cons hs _ ih => rw [resolveSteps, resolveSteps, hs.config, hs.op, ih]

theorem Input.SameConfigs.alike {i i' : Input} (h : i.SameConfigs i') : i.Alike i' :=
  ⟨h.channels, fun id key ↦ resolveSteps_eq h.resolver id key 0, h.minCount⟩

/-- Steps with configurations that are resolved alike have the same violations. -/
theorem stepViolations_eq {ss ss' : List Step} (h : List.Forall₂ Step.SameConfig ss ss')
    (id : NodeId) (key : InputKey) :
    ss'.zipIdx.flatMap (Step.violations id key) = ss.zipIdx.flatMap (Step.violations id key) := by
  refine (flatMap_eq_of_forall₂ (forall₂_zipIdx h 0) fun s s' hs ↦ ?_).symm
  rw [Step.violations, Step.violations, configFault_eq hs.1.config, hs.2]

/-! ### Violations -/

/-- Configurations hold no references to nodes. -/
theorem Node.SameConfigs.references {c c' : Node} (h : c.SameConfigs c') :
    c'.references = c.references := by
  have hinputs : c'.inputs.entries.flatMap (fun e ↦ e.2.channels.map fun x ↦
      (x.producer, ReferenceSite.input e.1)) = c.inputs.entries.flatMap _ :=
    (flatMap_eq_of_forall₂ h.inputs fun e e' he ↦ by rw [he.1, he.2.channels]).symm
  obtain ⟨inputs, rfl⟩ := h.rest
  rw [Node.references, Node.references, hinputs]

theorem Node.SameConfigs.refersTo {c c' : Node} (h : c.SameConfigs c') (x : NodeId) :
    c'.RefersTo x ↔ c.RefersTo x := by
  rw [← Node.mem_references, ← Node.mem_references, h.references]

theorem formViolations_eq {ns ns' : List Node} (h : List.Forall₂ Node.SameConfigs ns ns')
    (earlier : List NodeId) : formViolations earlier ns' = formViolations earlier ns := by
  induction h generalizing earlier with
  | nil => rfl
  | cons hc _ ih =>
    obtain ⟨inputs, rfl⟩ := hc.rest
    rw [formViolations, formViolations, ih]
    rfl

theorem Node.SameConfigs.alike {c c' : Node} (h : c.SameConfigs c') : c.Alike c' := by
  refine ⟨?_, h.inputs.imp fun e e' he ↦ ⟨he.1, he.2.alike⟩, h.refersTo⟩
  obtain ⟨inputs, rfl⟩ := h.rest
  exact ⟨c.after, inputs, rfl⟩

namespace SameConfigs

/-- Only what configurations are resolved to is used of them. -/
theorem alike (h : d.SameConfigs d') : d.Alike d' :=
  ⟨h.id, h.root, h.mode, h.nodes.imp fun _ _ hc ↦ Node.SameConfigs.alike hc⟩

/-- Configurations do not show in the graph. -/
theorem graph (h : d.SameConfigs d') : d'.graph = d.graph := by
  have hnodes : d'.nodes.map (fun n ↦ (n.id, n.references)) =
      d.nodes.map fun n ↦ (n.id, n.references) := by
    refine (map_eq_of_forall₂ h.nodes fun c c' hc ↦ ?_).symm
    rw [hc.references]
    obtain ⟨inputs, rfl⟩ := hc.rest
    rfl
  rw [Declaration.graph, Declaration.graph, hnodes]

/-- References and channels are checked against the same nodes. -/
theorem linkViolations (h : d.SameConfigs d') {c c' : Node} (hc : c.SameConfigs c') :
    d'.linkViolations c' = d.linkViolations c := by
  have hreference (id : NodeId) (site : ReferenceSite) :
      d'.referenceViolations id site = d.referenceViolations id site := by
    funext producer
    rw [referenceViolations, referenceViolations, h.alike.ids]
  have hinputs : c'.inputs.entries.flatMap (fun e ↦ d'.inputViolations c.id e.1 e.2) =
      c.inputs.entries.flatMap fun e ↦ d.inputViolations c.id e.1 e.2 := by
    refine (flatMap_eq_of_forall₂ hc.inputs fun e e' he ↦ ?_).symm
    rw [inputViolations, inputViolations, he.1, he.2.channels]
    simp only [hreference]
  obtain ⟨inputs, rfl⟩ := hc.rest
  rw [Declaration.linkViolations, Declaration.linkViolations, hinputs, hreference]

/-- Outputs are looked up in the same nodes, and configurations are refused alike. -/
theorem channelViolations (h : d.SameConfigs d') {c c' : Node} (hc : c.SameConfigs c') :
    d'.channelViolations c' = d.channelViolations c := by
  have hinputs : c'.inputs.entries.flatMap (fun e ↦ e.2.violations d' c.id e.1) =
      c.inputs.entries.flatMap fun e ↦ e.2.violations d c.id e.1 := by
    refine (flatMap_eq_of_forall₂ hc.inputs fun e e' he ↦ ?_).symm
    rw [Input.violations, Input.violations, he.1, he.2.channels, stepViolations_eq he.2.resolver]
    congr 1
    refine List.flatMap_congr fun x _ ↦ ?_
    rw [Channel.violations, Channel.violations]
    simp only [h.alike.hasOutput_iff]
  obtain ⟨inputs, rfl⟩ := hc.rest
  rw [Declaration.channelViolations, Declaration.channelViolations, hinputs]

/-- **Declarations whose configurations are resolved alike have the same violations.** -/
theorem violations (h : d.SameConfigs d') (m : Deployment) : d'.violations m = d.violations m := by
  have hlinks : d'.nodes.flatMap d'.linkViolations = d.nodes.flatMap d.linkViolations :=
    (flatMap_eq_of_forall₂ h.nodes fun _ _ hc ↦ (h.linkViolations hc).symm).symm
  have hchannels : d'.nodes.flatMap d'.channelViolations = d.nodes.flatMap d.channelViolations :=
    (flatMap_eq_of_forall₂ h.nodes fun _ _ hc ↦ (h.channelViolations hc).symm).symm
  have hcycle : d'.cycleViolations = d.cycleViolations := by
    rw [cycleViolations, cycleViolations, h.graph]
  have hdeployment : d'.deploymentViolations m = d.deploymentViolations m := by
    rw [deploymentViolations, deploymentViolations, h.alike.ids]
    congr 1
    refine (flatMap_eq_of_forall₂ h.nodes fun c c' hc ↦ ?_).symm
    obtain ⟨inputs, rfl⟩ := hc.rest
    rfl
  have hdoubles : d'.nodes.flatMap Node.doubleViolations =
      d.nodes.flatMap Node.doubleViolations := by
    refine (flatMap_eq_of_forall₂ h.nodes fun c c' hc ↦ ?_).symm
    obtain ⟨inputs, rfl⟩ := hc.rest
    rfl
  rw [Declaration.violations, Declaration.violations, h.id, formViolations_eq h.nodes, hlinks,
    hchannels, hcycle, hdeployment, hdoubles]

end SameConfigs

/-! ### Results -/

/-- **Compiling only uses what configurations are resolved to.** -/
theorem compile_eq_of_sameConfigs (hd : d.SameConfigs d') (m : Deployment)
    (options : CompileOptions) : d'.compile m options = d.compile m options := by
  have hreports := reports_compile d m options
  have hreports' := reports_compile d' m options
  rw [hd.violations] at hreports'
  rcases h : d.compile m options with e | report
  · exact hreports'.eq_error_iff.2 (hreports.eq_error_iff.1 h)
  · obtain ⟨report', h'⟩ := hreports'.exists_ok_iff.2 (hreports.exists_ok_iff.1 ⟨report, h⟩)
    rw [h', ((outcome_of_compile h).of_alike hd.alike).unique (outcome_of_compile h')]

/-! ### Another configuration for a step -/

/-- The input with another configuration for the step with the given number. -/
def Input.withConfig (i : Nat) (config : Option Json.Payload) (input : Input) : Input :=
  { input with resolver := input.resolver.modify i fun s ↦ { s with config := config } }

/-- The declaration with another configuration for a step: of the `n`-th node, in the input with the
given key, the `i`-th one. -/
def withConfig (d : Declaration) (n : Nat) (key : InputKey) (i : Nat)
    (config : Option Json.Payload) : Declaration :=
  { d with nodes := d.nodes.modify n fun c ↦
      { c with inputs := c.inputs.modify key (·.withConfig i config) } }

/-- Changing one configuration for another that is resolved alike is all that `SameConfigs`
allows. -/
theorem sameConfigs_withConfig (d : Declaration) (n : Nat) (key : InputKey) (i : Nat)
    {config config' : Option Json.Payload} (h : resolveConfig config' = resolveConfig config) :
    (d.withConfig n key i config).SameConfigs (d.withConfig n key i config') := by
  refine ⟨rfl, rfl, rfl, forall₂_modify .refl (fun c ↦ ⟨⟨_, rfl⟩, ?_⟩) d.nodes n⟩
  refine List.forall₂_map_left_iff.2 (List.forall₂_map_right_iff.2 (List.forall₂_same.2 ?_))
  intro e _
  refine ⟨rfl, ?_⟩
  show (if e.1 = key then e.2.withConfig i config else e.2).SameConfigs
    (if e.1 = key then e.2.withConfig i config' else e.2)
  split
  · exact ⟨rfl, forall₂_modify .refl (fun s ↦ ⟨rfl, h⟩) _ _, rfl⟩
  · exact .refl e.2

end Declaration

/-! ### Objects and texts that hold them -/

/-- The object. -/
def Json.Config.payload (c : Json.Config) : Json.Payload :=
  ⟨.object c.members, c.normal⟩

/-- A text in place of a value. -/
def Json.Payload.text (s : String) : Json.Payload :=
  ⟨.string s, rfl⟩

/-- Only objects are normalized to objects. -/
theorem Json.exists_object_of_normalize_eq {j : Json} {ms : List (String × Json)}
    (h : j.normalize = .object ms) : ∃ ms', j = .object ms' ∧ normalizeMembers [] ms' = ms := by
  cases j with
  | object ms' => exact ⟨ms', rfl, Json.object.inj h⟩
  | int n =>
    rw [normalize] at h
    split at h <;> cases h
  | double x =>
    rw [normalize] at h
    split at h <;> cases h
  | _ => cases h

/-- **A text that holds an object is resolved to the object.** -/
theorem Pipeline.resolveConfig_of_isEncoding {c : Json.Config}
    (hroom : c.payload.json.Rereadable Json.maxDepth) {text : String}
    (htext : c.payload.json.IsEncoding text) :
    resolveConfig (some (.text text)) = resolveConfig (some c.payload) := by
  obtain ⟨j, hj, heq⟩ := Json.exists_parse_of_isEncoding c.normal hroom htext
  obtain ⟨ms, rfl, hms⟩ := Json.exists_object_of_normalize_eq heq
  simp only [Json.Payload.text, Json.Config.payload, resolveConfig, hj]
  obtain ⟨members, normal⟩ := c
  obtain rfl : Json.normalizeMembers [] ms = members := hms
  rfl

/-- A configuration that stands in a declaration is read as the object that is written there. -/
theorem Codec.reads_payload_of_encodes {c : Json.Config} {room : Nat}
    (hroom : c.payload.json.Rereadable room) {r : Json.Raw} (hr : c.payload.json.Encodes r) :
    payload.Reads room r c.payload := by
  obtain ⟨j, hj, heq⟩ := Json.exists_reads_of_encodes _ c.normal hroom hr
  refine (recognizes_payload room).reads_iff.2 ⟨j, hj, ?_⟩
  simp only [Json.toPayload, heq, Json.Config.payload]

namespace Declaration

/-- **It makes no difference how a configuration is given.** An object that is not nested too deep
and whose doubles are read back is read as itself, however it is written in a declaration; and any
text that holds it, such as those that are written for it, leads to the same result as the object,
at any step of any declaration. So do no configuration, `null`, the object without members and the
text of that. -/
theorem compile_withConfig_eq (d : Declaration) (n : Nat) (key : InputKey) (i : Nat)
    (m : Deployment) (options : CompileOptions) :
    (∀ c : Json.Config,
      c.payload.json.IsEncoding c.payload.json.compact ∧
      c.payload.json.IsEncoding c.payload.json.pretty ∧
      (∀ room r, c.payload.json.Rereadable room → c.payload.json.Encodes r →
        Codec.payload.Reads room r c.payload) ∧
      (c.payload.json.Rereadable Json.maxDepth → ∀ text, c.payload.json.IsEncoding text →
        (d.withConfig n key i (some (.text text))).compile m options =
          (d.withConfig n key i (some c.payload)).compile m options)) ∧
    ∀ config ∈ [some ⟨.null, rfl⟩, some Json.Config.empty.payload, some (.text "\x7b\x7d")],
      (d.withConfig n key i config).compile m options =
        (d.withConfig n key i none).compile m options := by
  refine ⟨fun c ↦ ⟨Json.isEncoding_compact c.normal, Json.isEncoding_pretty c.normal,
    fun _ _ hroom hr ↦ Codec.reads_payload_of_encodes hroom hr, fun hroom text htext ↦ ?_⟩,
    fun config hconfig ↦ ?_⟩
  · have hresolved := Pipeline.resolveConfig_of_isEncoding hroom htext
    exact compile_eq_of_sameConfigs (d.sameConfigs_withConfig n key i hresolved) m options
  · refine compile_eq_of_sameConfigs (d.sameConfigs_withConfig n key i ?_) m options
    simp only [List.mem_cons, List.not_mem_nil, or_false] at hconfig
    rcases hconfig with rfl | rfl | rfl
    · rfl
    · rfl
    · rfl

/-- The relay with a chain of two steps for what the sink reads. -/
def relayChain : Declaration :=
  { relay with nodes := relay.nodes.modifyHead fun c ↦
      { c with inputs := c.inputs.modify "in" fun i ↦
          { i with resolver := [⟨.latestArtifact, none⟩, ⟨.custom "mine", none⟩] } } }

/-- Nested members, a double that is not short in binary, and a string that needs escapes. -/
def chainConfig : Json.Config where
  members := [("deep", .array [.int (-1), .object [("x", .null), ("y", .bool true)]]),
    ("rate", .double ⟨0x3FB999999999999A⟩), ("say", .string "\"\\\n")]
  normal := by decide +kernel

/-- The members of `chainConfig` from back to front, with blanks between them. -/
theorem isEncoding_chainConfig :
    chainConfig.payload.json.IsEncoding (Json.object chainConfig.members.reverse).pretty := by
  have hnamed : Json.Named (Json.rawMembers chainConfig.members.reverse)
      (chainConfig.members.map fun m ↦ (m.1, m.2.toRaw)).reverse := by
    rw [← List.map_reverse]
    exact Json.named_rawMembers_iff.2 rfl
  exact ⟨Json.toRaw (.object chainConfig.members.reverse),
    ⟨_, _, _, Json.encodesMembers_map_toRaw chainConfig.members (by decide +kernel),
      (List.reverse_perm _).symm, hnamed, rfl⟩, Json.isText_pretty _⟩

/-- A configuration with its members in another order, given as a pretty text, leads to the same
report. -/
theorem compile_withConfig_eq_relay : ∃ report,
    (relayChain.withConfig 0 "in" 1 (some chainConfig.payload)).compile .relay {} = .ok report ∧
      (relayChain.withConfig 0 "in" 1
        (some (.text (Json.object chainConfig.members.reverse).pretty))).compile .relay {} =
          .ok report := by
  have hnone : (relayChain.withConfig 0 "in" 1 (some chainConfig.payload)).violations .relay =
      [] := by decide +kernel
  have hroom : chainConfig.payload.json.Rereadable Json.maxDepth :=
    ⟨by decide +kernel, by decide +kernel⟩
  obtain ⟨report, h⟩ := (reports_compile _ _ {}).exists_ok_iff.2 hnone
  obtain ⟨-, -, -, hequal⟩ := (compile_withConfig_eq relayChain 0 "in" 1 .relay {}).1 chainConfig
  exact ⟨report, h, (hequal hroom _ isEncoding_chainConfig).trans h⟩

end Declaration
end Pipework
