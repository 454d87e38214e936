import Pipework.Proofs.Codec.Matching
import Pipework.Proofs.Compile.ReadBack
import Pipework.Proofs.Json.Finite

/-!
# Declarations are read back from their texts

What a declaration contains is mostly restored as the parts of a document are. Two things are not.
The values of parameters and contexts bear no tag: a literal stands for itself and an object for a
runtime parameter, and which of the two a text means is found out from the tree (`MatchesAt`). And
the configuration of a step may be any value, while `null` already means that there is none, so an
explicit `null` would not come back. What is read has no such configuration, since a number is never
read as something for which `null` is written (`yields_plainStep`).

`parse_encode` puts this together for declarations, read or built, and for deployments, which have
neither doubles nor deep trees and so come back without any condition.
-/

namespace Pipework

namespace Declaration

/-- The step can be told from its text: its operation is plain, and its configuration is not an
explicit `null`. -/
def Step.IsPlain (s : Step) : Prop :=
  s.op.IsPlain ∧ ∀ p ∈ s.config, p.json ≠ .null

instance (j : Json) : Decidable (j ≠ .null) :=
  match j with
  | .null => .isFalse (· rfl)
  | .bool _ | .int _ | .double _ | .string _ | .array _ | .object _ => .isTrue nofun

instance : DecidablePred Step.IsPlain :=
  fun s ↦ inferInstanceAs (Decidable (s.op.IsPlain ∧ ∀ p ∈ s.config, p.json ≠ .null))

/-- Every step in the declaration can be told from its text. -/
def PlainSteps (d : Declaration) : Prop :=
  ∀ c ∈ d.nodes, ∀ e ∈ c.inputs.entries, ∀ s ∈ e.2.resolver, s.IsPlain

instance (d : Declaration) : Decidable d.PlainSteps :=
  inferInstanceAs (Decidable (∀ c ∈ d.nodes, ∀ e ∈ c.inputs.entries, ∀ s ∈ e.2.resolver,
    s.IsPlain))

end Declaration

namespace Codec

open Json
open Declaration (Literal Parameter ContextValue)

variable {α : Type}

/-! ### Values of parameters and contexts -/

/-- A literal is found in what is written of it. Integers stay integers. -/
theorem matchesAt_literal (v : Literal) : literal.MatchesAt v := by
  cases v with
  | bool b => exact matchesAt_of_exact (exact_bool b) rfl
  | int n =>
    refine matchesAt_of_exact (exact_int n) ?_
    have hlower := n.le_toInt
    have hupper := n.toInt_lt
    show literalOfFound (.int n.toInt) = .ok (.int n)
    rw [literalOfFound, show Int64.minValue.toInt = -2 ^ 63 by decide,
      show Int64.maxValue.toInt = 2 ^ 63 - 1 by decide, if_pos (by omega), Int64.ofInt_toInt]
  | double x =>
    intro room
    show (∃ j, Json.Reads (readValue room) (Json.double x).toRaw j ∧
      literalOfFound (found j) = .ok (.double x)) ↔ Rereadable room (.double x)
    have hrereadable : Rereadable room (.double x) ↔ x.Rereads := by
      simp [Rereadable, depth, doubles]
    rw [hrereadable]
    by_cases hx : x.isFinite
    · simp only [reads_double_iff hx, rereads_iff hx]
      constructor
      · rintro ⟨_, ⟨y, hy, rfl⟩, heq⟩
        cases heq
        exact hy
      · intro hy
        exact ⟨_, ⟨x, hy, rfl⟩, rfl⟩
    · refine iff_of_false ?_ fun hreads ↦ hx hreads.isFinite
      rintro ⟨j, hread, hmatch⟩
      rw [toRaw, if_neg hx] at hread
      rw [exact_null.2 room j hread] at hmatch
      cases hmatch
  | string s => exact matchesAt_of_exact (exact_string s) rfl

theorem matchesAt_scalarKind (k : ScalarKind) : scalarKind.MatchesAt k :=
  matchesAt_of_exact (exact_string k.name) (by cases k <;> rfl)

/-- A runtime parameter is found in what is written of it. -/
theorem matchesAt_declaredRuntimeParameter (p : Declaration.RuntimeParameter) :
    declaredRuntimeParameter.MatchesAt p := by
  refine matchesAt_record (by decide) (fun _ ↦ rfl) (fun _ ↦ rfl)
    ⟨⟨matchesAt_of_exact (exact_string _) rfl, rfl⟩, ⟨matchesAt_scalarKind _, rfl⟩,
      ⟨matchesAt_option fun v _ ↦ ⟨matchesAt_literal v, ?_⟩, rfl⟩, trivial⟩
  cases v <;> nofun

/-- Only an object is matched as a runtime parameter. -/
theorem exists_of_runtimeOfJson? {c : Codec α} {j : Json} {a : α}
    (h : runtimeOfJson? c j = some a) :
    ∃ js, j = .object js ∧ (runtimeField c).ofObject false .text js = .ok (a, ()) := by
  cases j with
  | object js =>
    refine ⟨js, rfl, ?_⟩
    simp only [runtimeOfJson?] at h
    split at h
    next b hb =>
      cases h
      exact hb
    next => cases h
  | _ => cases h

/-- An object that stands for a runtime parameter is matched as the parameter exactly if it is
rereadable. -/
theorem runtimeOfJson?_write_iff {c : Codec α} {a : α} (h : c.MatchesAt a) (room : Nat) :
    (∃ j, Json.Reads (readValue room) (Json.object ((runtimeField c).write (a, ()))).toRaw j ∧
        runtimeOfJson? c j = some a) ↔
      Rereadable room (.object ((runtimeField c).write (a, ()))) := by
  have hnames : (runtimeField c).names.Nodup := List.pairwise_singleton _ _
  have hfields : (runtimeField c).MatchesAt (a, ()) := ⟨⟨h, rfl⟩, trivial⟩
  simp only [rereadable_object_iff, reads_object_iff,
    ← Fields.matches_write_iff hnames hfields false]
  constructor
  · rintro ⟨_, ⟨inner, js, hroom, hjs, rfl⟩, hmatch⟩
    obtain ⟨_, ⟨⟩, hmatch⟩ := exists_of_runtimeOfJson? hmatch
    exact ⟨inner, hroom, js, hjs, hmatch⟩
  · rintro ⟨inner, hroom, js, hjs, hmatch⟩
    exact ⟨.object js, ⟨inner, js, hroom, hjs, rfl⟩, by simp [runtimeOfJson?, hmatch]⟩

/-- **A value that is plain or else an object that stands for a runtime parameter is restored**, if
both are matched and no object is matched as a plain value. -/
theorem restores_plainOrRuntime {β γ : Type} {plain : Codec β} {held : Codec γ} {ofPlain : β → α}
    {ofHeld : γ → α} {write : α → Json} {match? : Json → Option α} {type : String}
    (hok : ∀ j b, plain.ofJson .text j = .ok b → match? j = some (ofPlain b))
    (herror : ∀ j e, plain.ofJson .text j = .error e →
      match? j = (runtimeOfJson? held j).map ofHeld)
    (hplain : ∀ b, plain.MatchesAt b ∧ write (ofPlain b) = plain.write b)
    (hheld : ∀ c, held.MatchesAt c ∧
      write (ofHeld c) = .object ((runtimeField held).write (c, ())))
    (hobject : ∀ ms b, plain.ofJson .text (.object ms) ≠ .ok b)
    (hinjective : Function.Injective ofPlain ∧ Function.Injective ofHeld)
    (hne : ∀ b c, ofPlain b ≠ ofHeld c) (hcases : ∀ a, (∃ b, a = ofPlain b) ∨ ∃ c, a = ofHeld c) :
    (buffered write match? type).Restores fun _ ↦ True where
  uniform room := (recognizes_buffered room).uniform
  restoresAt a _ room := by
    rw [Reads, (recognizes_buffered room).reads_iff]
    show (∃ j, Json.Reads (readValue room) (write a).toRaw j ∧ _) ↔ Rereadable room (write a)
    rcases hcases a with ⟨b, rfl⟩ | ⟨c, rfl⟩
    · rw [(hplain b).2, ← (hplain b).1 room]
      refine exists_congr fun j ↦ and_congr_right fun _ ↦ ?_
      rcases hj : plain.ofJson .text j with e | b'
      · rw [herror j e hj]
        simp [fun c ↦ (hne b c).symm]
      · rw [hok j b' hj]
        simp [hinjective.1.eq_iff]
    · rw [(hheld c).2, ← runtimeOfJson?_write_iff (hheld c).1]
      refine exists_congr fun j ↦ and_congr_right fun _ ↦ ?_
      rcases hj : plain.ofJson .text j with e | b
      · rw [herror j e hj]
        simp [hinjective.2.eq_iff]
      · rw [hok j b hj]
        -- An object would have been matched as a plain value, which is what `hobject` excludes.
        refine iff_of_false (fun heq ↦ hne b c (Option.some.inj heq)) fun hruntime ↦ ?_
        obtain ⟨js, rfl, -⟩ := exists_of_runtimeOfJson? hruntime
        exact hobject js b hj

theorem matchesAt_string (s : String) : string.MatchesAt s :=
  matchesAt_of_exact (exact_string s) rfl

/-- **A parameter is restored**: nothing that is written of a plain value looks like a runtime
parameter. -/
theorem restores_parameter : parameter.Restores fun _ ↦ True := by
  refine restores_plainOrRuntime (fun j v h ↦ ?_) (fun j e h ↦ ?_)
    (fun v ↦ ⟨matchesAt_literal v, rfl⟩) (fun p ↦ ⟨matchesAt_declaredRuntimeParameter p, rfl⟩)
    (fun _ _ ↦ nofun) ⟨fun _ _ ↦ Parameter.literal.inj, fun _ _ ↦ Parameter.runtime.inj⟩
    (fun _ _ ↦ nofun) fun p ↦ ?_
  · rw [h]
  · rw [h]
  · cases p with
    | literal v => exact .inl ⟨v, rfl⟩
    | runtime p => exact .inr ⟨p, rfl⟩

/-- The value of a context is restored for the same reason. -/
theorem restores_contextValue : contextValue.Restores fun _ ↦ True := by
  refine restores_plainOrRuntime (fun j s h ↦ ?_) (fun j e h ↦ ?_)
    (fun s ↦ ⟨matchesAt_string s, rfl⟩) (fun name ↦ ⟨matchesAt_string name, rfl⟩)
    (fun _ _ ↦ nofun) ⟨fun _ _ ↦ ContextValue.literal.inj, fun _ _ ↦ ContextValue.runtime.inj⟩
    (fun _ _ ↦ nofun) fun v ↦ ?_
  · rw [h]
  · rw [h]
  · cases v with
    | literal s => exact .inl ⟨s, rfl⟩
    | runtime name => exact .inr ⟨name, rfl⟩

/-! ### Steps -/

/-- A payload is in normal form already. -/
theorem toPayload_json (p : Payload) : p.json.toPayload = p := by
  obtain ⟨j, hj⟩ := p
  simp only [toPayload, normalize_of_isNormal j hj]

theorem restores_payload : payload.Restores fun _ ↦ True where
  uniform room := (recognizes_payload room).uniform
  restoresAt p _ room := by
    show payload.Reads room p.json.toRaw p ↔ Rereadable room p.json
    rw [Reads, (recognizes_payload room).reads_iff, ← reads_toRaw_iff _ p.normal]
    constructor
    · rintro ⟨j, hread, hp⟩
      have hnormal : j.normalize = p.json := by rw [hp]; rfl
      rwa [eq_of_normalize_eq p.json p.normal hread hnormal] at hread
    · intro hread
      exact ⟨p.json, hread, (toPayload_json p).symm⟩

/-- A step is restored if its operation is plain and its configuration is not `null`. -/
theorem restores_declaredStep : declaredStep.Restores Declaration.Step.IsPlain :=
  restores_record ⟨restores_resolverOp.uniform, uniform_option restores_payload.uniform, trivial⟩
    (by decide) (fun _ ↦ rfl) (fun _ ↦ rfl) fun s hs ↦
      ⟨.required (restores_resolverOp.restoresAt _ hs.1),
        .defaulting (restoresAt_option restores_payload.uniform fun p hp ↦
          ⟨restores_payload.always p, hs.2 p hp⟩), trivial⟩

/-- A `null` is read as no configuration. -/
theorem yields_optionPayload : (option payload).Yields fun o ↦ ∀ p ∈ o, p.json ≠ .null := by
  intro room s o t hread
  simp only [option] at hread
  split at hread
  next =>
    obtain ⟨u, -, heq⟩ := map_eq_ok_iff.1 hread
    cases heq
    simp
  next hs =>
    obtain ⟨⟨p, u⟩, hpayload, heq⟩ := map_eq_ok_iff.1 hread
    cases heq
    obtain ⟨⟨j, u⟩, hvalue, heq⟩ := map_eq_ok_iff.1 hpayload
    cases heq
    rintro _ ⟨⟩
    exact normalize_ne_null hs hvalue

/-- Steps that are read are restored when they are written. -/
theorem yields_plainStep : declaredStep.Yields Declaration.Step.IsPlain :=
  yields_record (.cons yields_resolverOp trivial (.cons yields_optionPayload nofun .any))
    fun _ h ↦ ⟨h.1, h.2.1⟩

/-! ### Declarations -/

theorem restores_nodeKind : nodeKind.Restores fun _ ↦ True :=
  restores_names fun a ↦ by cases a <;> rfl

theorem restores_declaredContext : declaredContext.Restores fun _ ↦ True :=
  restores_record ⟨restores_string.uniform, restores_contextValue.uniform, trivial⟩
    (by decide) (fun _ ↦ rfl) (fun _ ↦ rfl) fun _ _ ↦
      ⟨.required (restores_string.always _), .required (restores_contextValue.always _), trivial⟩

theorem restores_declaredChannel : declaredChannel.Restores fun _ ↦ True :=
  restores_record ⟨restores_string.uniform, restores_string.uniform, trivial⟩
    (by decide) (fun _ ↦ rfl) (fun _ ↦ rfl) fun _ _ ↦
      ⟨.required (restores_string.always _), .required (restores_string.always _), trivial⟩

theorem restoresAt_count (n : Option UInt32) : (option uint32).RestoresAt n :=
  restoresAt_option restores_uint32.uniform fun n _ ↦ ⟨restores_uint32.always n, nofun⟩

/-- An input is restored if its steps are. -/
theorem restores_declaredInput : declaredInput.Restores fun i ↦ ∀ s ∈ i.resolver, s.IsPlain :=
  restores_record ⟨(restores_list restores_declaredChannel).uniform,
      (restores_list restores_declaredStep).uniform, uniform_option restores_uint32.uniform,
      trivial⟩
    (by decide) (fun _ ↦ rfl) (fun _ ↦ rfl) fun _ hi ↦
      ⟨.required ((restores_list restores_declaredChannel).restoresAt _ fun _ _ ↦ trivial),
        .defaulting ((restores_list restores_declaredStep).restoresAt _ hi),
        .defaulting (restoresAt_count _), trivial⟩

/-- A node is restored if its steps are. -/
theorem restores_declaredNode :
    declaredNode.Restores fun c ↦ ∀ e ∈ c.inputs.entries, ∀ s ∈ e.2.resolver, s.IsPlain :=
  restores_record ⟨restores_string.uniform, restores_nodeType.uniform, restores_nodeKind.uniform,
      (restores_list restores_declaredContext).uniform,
      (restores_dict restores_declaredInput).uniform, (restores_dict restores_artifactType).uniform,
      (restores_dict restores_parameter).uniform, restores_strings.uniform, restores_bool.uniform,
      uniform_option restores_uint32.uniform, trivial⟩
    (by decide) (fun _ ↦ rfl) (fun _ ↦ rfl) fun _ hc ↦
      ⟨.required (restores_string.always _), .required (restores_nodeType.always _),
        .defaulting (restores_nodeKind.always _),
        .defaulting ((restores_list restores_declaredContext).restoresAt _ fun _ _ ↦ trivial),
        .defaulting ((restores_dict restores_declaredInput).restoresAt _ hc),
        .defaulting ((restores_dict restores_artifactType).restoresAt _ fun _ _ ↦ trivial),
        .defaulting ((restores_dict restores_parameter).restoresAt _ fun _ _ ↦ trivial),
        .defaulting (restores_strings.always _), .defaulting (restores_bool.always _),
        .defaulting (restoresAt_count _), trivial⟩

/-- **A declaration with plain steps is restored.** -/
theorem restores_declaration : declaration.Restores Declaration.PlainSteps :=
  restores_record ⟨restores_string.uniform, uniform_option restores_string.uniform,
      restores_executionMode.uniform, (restores_list restores_declaredNode).uniform, trivial⟩
    (by decide) (fun _ ↦ rfl) (fun _ ↦ rfl) fun _ hd ↦
      ⟨.required (restores_string.always _),
        .defaulting (restoresAt_option restores_string.uniform fun s _ ↦
          ⟨restores_string.always s, nofun⟩),
        .defaulting (restores_executionMode.always _),
        .required ((restores_list restores_declaredNode).restoresAt _ hd), trivial⟩

/-! ### Deployments -/

/-- **Deployments are restored**, all of them. -/
theorem restores_deployment : deployment.Restores fun _ ↦ True :=
  ⟨(restores_dict restores_deploymentEntry).uniform, fun m _ ↦
    (restores_dict restores_deploymentEntry).restoresAt m fun _ _ ↦ trivial⟩

theorem rereadable_string (room : Nat) (s : String) : Rereadable room (.string s) :=
  rereadable_of_scalar rfl rfl

theorem rereadable_strings (room : Nat) (ss : List String) :
    Rereadable (room + 1) ((list string).write ss) := by
  refine rereadable_array_iff.2 ⟨room, rfl, fun j hj ↦ ?_⟩
  obtain ⟨s, -, rfl⟩ := List.mem_map.1 hj
  exact rereadable_string room s

/-- The executors of a deployment are two levels deep at most. -/
theorem rereadable_executable (room : Nat) (e : Executable) :
    Rereadable (room + 2) (executable.write e) := by
  have hstring := rereadable_string (room + 1)
  have hstrings := rereadable_strings room
  cases e with
  | native implementation =>
    exact rereadable_object_iff.2 ⟨room + 1, rfl, List.forall_mem_cons.2 ⟨hstring "native",
      List.forall_mem_singleton.2 (hstring implementation)⟩⟩
  | batch implementation arguments =>
    exact rereadable_object_iff.2 ⟨room + 1, rfl, List.forall_mem_cons.2 ⟨hstring "batch",
      List.forall_mem_cons.2 ⟨hstring implementation,
        List.forall_mem_singleton.2 (hstrings arguments)⟩⟩⟩
  | container image command arguments =>
    exact rereadable_object_iff.2 ⟨room + 1, rfl, List.forall_mem_cons.2 ⟨hstring "container",
      List.forall_mem_cons.2 ⟨hstring image, List.forall_mem_cons.2 ⟨hstrings command,
        List.forall_mem_singleton.2 (hstrings arguments)⟩⟩⟩⟩

/-- An entry of a deployment is three levels deep at most. -/
theorem rereadable_deploymentEntry (room : Nat) (e : DeploymentEntry) :
    Rereadable (room + 3) (deploymentEntry.write e) := by
  have hexecutable := rereadable_executable room
  obtain ⟨executor, driver⟩ := e
  cases driver with
  | none =>
    exact rereadable_object_iff.2 ⟨room + 2, rfl,
      List.forall_mem_singleton.2 (hexecutable executor)⟩
  | some driver =>
    exact rereadable_object_iff.2 ⟨room + 2, rfl, List.forall_mem_cons.2
      ⟨hexecutable executor, List.forall_mem_singleton.2 (hexecutable driver)⟩⟩

/-- Deployments have no doubles and never nest deep. -/
theorem rereadable_deployment (m : Deployment) : Rereadable maxDepth (deployment.write m) := by
  refine rereadable_object_iff.2 ⟨126, rfl, fun member hmember ↦ ?_⟩
  obtain ⟨e, -, rfl⟩ := List.mem_map.1 hmember
  exact rereadable_deploymentEntry 123 e.2

end Codec

namespace Declaration

/-- **Declarations and deployments are read back from their texts**: a declaration that was read
itself or has plain steps, if its tree is not too deep and its doubles are read as they are written,
and any deployment. So writing what was written and read again gives the same texts, and compiling
it the same result. -/
theorem parse_encode {d : Declaration}
    (hd : (∃ text, Codec.declaration.parse text = .ok d) ∨ d.PlainSteps)
    (hdepth : (Codec.declaration.write d).depth ≤ Json.maxDepth)
    (hdoubles : ∀ x ∈ (Codec.declaration.write d).doubles, x.Rereads) (m : Deployment) :
    Codec.declaration.parse (Codec.declaration.encode d) = .ok d ∧
      Codec.deployment.parse (Codec.deployment.encode m) = .ok m ∧
      ∀ d' m', Codec.declaration.parse (Codec.declaration.encode d) = .ok d' →
        Codec.deployment.parse (Codec.deployment.encode m) = .ok m' →
        Codec.declaration.encode d' = Codec.declaration.encode d ∧
          Codec.deployment.encode m' = Codec.deployment.encode m ∧
          ∀ options, d'.compile m' options = d.compile m options := by
  have hsteps : d.PlainSteps := by
    rcases hd with ⟨text, hparse⟩ | hsteps
    · exact (Codec.yields_steps Codec.yields_plainStep).of_parse hparse
    · exact hsteps
  have hdeclaration : Codec.declaration.parse (Codec.declaration.encode d) = .ok d :=
    (Codec.restores_declaration.parse_eq_ok_iff hsteps (Json.isText_compact _)).2
      ⟨hdepth, hdoubles⟩
  have hdeployment : Codec.deployment.parse (Codec.deployment.encode m) = .ok m :=
    (Codec.restores_deployment.parse_eq_ok_iff trivial (Json.isText_compact _)).2
      (Codec.rereadable_deployment m)
  refine ⟨hdeclaration, hdeployment, fun d' m' hd' hm' ↦ ?_⟩
  obtain rfl : d = d' := Except.ok.inj (hdeclaration.symm.trans hd')
  obtain rfl : m = m' := Except.ok.inj (hdeployment.symm.trans hm')
  exact ⟨rfl, rfl, fun _ ↦ rfl⟩

/-- A declaration with literals of every kind, an integral double among them, values that are known
at run time, and a chain of two steps. -/
def scoring : Declaration where
  id := "p\"\n"
  root := none
  mode := .async
  nodes :=
    [{ id := "score"
       type := ⟨"Score", none⟩
       kind := .resolver
       contexts := [⟨"run", .runtime "run-id"⟩, ⟨"team", .literal "a"⟩]
       inputs := .ofList [("rows", ⟨[⟨"load", "rows"⟩],
         [⟨.latestArtifact,
             some (Json.toPayload (.object [("scale", .double ⟨0xC004000000000000⟩)]))⟩,
           ⟨.custom "mine", none⟩], some 1⟩)]
       outputs := .empty
       parameters := .ofList
         [("flag", .literal (.bool true)), ("least", .literal (.int Int64.minValue)),
           ("rate", .literal (.double ⟨0x3FB999999999999A⟩)),
           ("two", .literal (.double ⟨0x4000000000000000⟩)), ("word", .literal (.string "2.0")),
           ("free", .runtime ⟨"free", .double, none⟩),
           ("window", .runtime ⟨"window", .int, some (.int 7)⟩)]
       after := []
       enableCache := true
       maxRetries := none }]

/-- How the node of the declaration is executed. -/
def scoringDeployment : Deployment :=
  .ofList [("score", ⟨.container "image" [] ["--fast"], some (.native "drive")⟩)]

/-- A declaration with a resolver chain, contexts and runtime parameters, and its deployment. -/
theorem parse_encode_scoring :
    Codec.declaration.parse (Codec.declaration.encode scoring) = .ok scoring ∧
      Codec.deployment.parse (Codec.deployment.encode scoringDeployment) =
        .ok scoringDeployment := by
  have hsteps : scoring.PlainSteps := by decide +kernel
  obtain ⟨hdeclaration, hdeployment, -⟩ := parse_encode (.inr hsteps) (by decide +kernel)
    (by decide +kernel) scoringDeployment
  exact ⟨hdeclaration, hdeployment⟩

-- All fields are written in order, and `null` for what is absent.
example : Codec.declaration.encode ⟨"p", none, .sync, []⟩ =
    "\x7b\"pipeline_id\":\"p\",\"pipeline_root\":null,\"execution_mode\":\"SYNC\"," ++
      "\"nodes\":[]\x7d" := by
  decide +kernel

end Declaration
end Pipework
