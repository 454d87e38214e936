import Pipework.Declaration
import Pipework.Deployment

/-!
# Documents

A document is the compiled form of a pipeline. It stands for itself: every input is a query that
can be answered without the declaration. Documents have one canonical text.
-/

namespace Pipework

namespace Document

/-- A context: a key under which artifacts are found again. -/
structure Context where
  type : String
  value : Value
deriving DecidableEq, BEq, Repr

/-- A query for the artifacts of an output: its producer, the producer's contexts, the type of the
artifacts and the key of the output. -/
structure Channel where
  producer : NodeId
  contexts : List Context
  artifact : ArtifactRef
  output : OutputKey
deriving DecidableEq, BEq, Repr

/-- A step of a resolver chain. -/
structure Step where
  op : ResolverOp
  config : Json.Config
deriving BEq

/-- An input: the union of channels, passed through a resolver chain. -/
structure Input where
  channels : List Channel
  resolver : List Step
  minCount : Option UInt32
deriving BEq

/-- What the runtime may do with a node. -/
structure ExecutionOptions where
  enableCache : Bool
  maxRetries : Option UInt32
deriving DecidableEq, Repr

/-- A node. -/
structure Node where
  type : NodeType
  id : NodeId
  contexts : List Context
  inputs : Dict Input
  outputs : Dict ArtifactType
  parameters : Dict Value
  dependencies : List NodeId
  dependents : List NodeId
  options : ExecutionOptions
deriving BEq

/-- The parameters that every run of a pipeline has. -/
structure RuntimeSpec where
  root : RuntimeParameter
  runId : RuntimeParameter
deriving DecidableEq, BEq, Repr

end Document

/-- A compiled pipeline. -/
structure Document where
  version : UInt32
  id : String
  nodes : List Document.Node
  runtime : Document.RuntimeSpec
  mode : ExecutionMode
  deployment : Deployment
deriving BEq

namespace Codec

open Json
open Document (ExecutionOptions RuntimeSpec)

/-- An object with a single member, read as the value of that member. -/
def wrapped {α : Type} (name field : String) (c : Codec α) : Codec α :=
  record name false (.cons (.required field c) .nil) (fun a ↦ (a, ())) (fun (a, ()) ↦ a)

/-- Contexts. -/
def context : Codec Document.Context :=
  record "ContextSpec" false
    (.cons (.required "type" (wrapped "ContextType" "name" string)) <|
      .cons (.required "name" value) .nil)
    (fun c ↦ (c.type, c.value, ()))
    (fun (type, value, ()) ↦ ⟨type, value⟩)

/-- Channels. -/
def channel : Codec Document.Channel :=
  record "ChannelSpec" false
    (.cons (.required "producer_node_query" (wrapped "ProducerNodeQuery" "id" string)) <|
      .cons (.required "context_queries" (list context)) <|
      .cons (.required "artifact_query" (wrapped "ArtifactQuery" "type" artifactRef)) <|
      .cons (.required "output_key" string) .nil)
    (fun c ↦ (c.producer, c.contexts, c.artifact, c.output, ()))
    (fun (producer, contexts, artifact, output, ()) ↦ ⟨producer, contexts, artifact, output⟩)

/-- Steps of a resolver chain. -/
def step : Codec Document.Step :=
  record "ResolverStep" false
    (.cons (.required "op" resolverOp) <| .cons (.required "config" config) .nil)
    (fun s ↦ (s.op, s.config, ()))
    (fun (op, config, ()) ↦ ⟨op, config⟩)

/-- Inputs; an empty resolver chain is left out. -/
def input : Codec Document.Input :=
  record "InputSpec" false
    (.cons (.required "channels" (list channel)) <|
      .cons ⟨"resolver_chain", list step, .anywhere [], List.isEmpty⟩ <|
      .cons (.optional "min_count" uint32) .nil)
    (fun i ↦ (i.channels, i.resolver, i.minCount, ()))
    (fun (channels, resolver, minCount, ()) ↦ ⟨channels, resolver, minCount⟩)

/-- Outputs. -/
def output : Codec ArtifactType :=
  wrapped "OutputSpec" "artifact_spec" (wrapped "ArtifactSpec" "type" artifactType)

/-- The type and the id of a node. -/
def nodeInfo : Codec (NodeType × NodeId) :=
  record "NodeInfo" false
    (.cons (.required "type" nodeType) <| .cons (.required "id" string) .nil)
    (fun (type, id) ↦ (type, id, ()))
    (fun (type, id, ()) ↦ (type, id))

/-- Execution options. -/
def executionOptions : Codec ExecutionOptions :=
  record "ExecutionOptions" false
    (.cons (.required "enable_cache" bool) <|
      .cons (.optional "max_execution_retries" uint32) .nil)
    (fun o ↦ (o.enableCache, o.maxRetries, ()))
    (fun (enableCache, maxRetries, ()) ↦ ⟨enableCache, maxRetries⟩)

/-- Nodes. -/
def node : Codec Document.Node :=
  record "PipelineNode" false
    (.cons (.required "node_info" nodeInfo) <| .cons (.required "contexts" (list context)) <|
      .cons (.required "inputs" (dict .lastCounts input)) <|
      .cons (.required "outputs" (dict .lastCounts output)) <|
      .cons (.required "parameters" (dict .lastCounts value)) <|
      .cons (.required "upstream_nodes" (list string)) <|
      .cons (.required "downstream_nodes" (list string)) <|
      .cons (.required "execution_options" executionOptions) .nil)
    (fun n ↦ ((n.type, n.id), n.contexts, n.inputs, n.outputs, n.parameters, n.dependencies,
      n.dependents, n.options, ()))
    (fun ((type, id), contexts, inputs, outputs, parameters, dependencies, dependents, options,
        ()) ↦
      ⟨type, id, contexts, inputs, outputs, parameters, dependencies, dependents, options⟩)

/-- The parameters of a run. -/
def runtimeSpec : Codec RuntimeSpec :=
  record "RuntimeSpec" false
    (.cons (.required "pipeline_root" runtimeParameter) <|
      .cons (.required "pipeline_run_id" runtimeParameter) .nil)
    (fun r ↦ (r.root, r.runId, ()))
    (fun (root, runId, ()) ↦ ⟨root, runId⟩)

/-- Documents. -/
def document : Codec Document :=
  record "IrDocument" false
    (.cons (.required "ir_version" uint32) <|
      .cons (.required "pipeline_info" (wrapped "PipelineInfo" "id" string)) <|
      .cons (.required "nodes" (list node)) <| .cons (.required "runtime_spec" runtimeSpec) <|
      .cons (.required "execution_mode" executionMode) <|
      .cons (.required "deployment_config" (dict .lastCounts deploymentEntry)) .nil)
    (fun d ↦ (d.version, d.id, d.nodes, d.runtime, d.mode, d.deployment, ()))
    (fun (version, id, nodes, runtime, mode, deployment, ()) ↦
      ⟨version, id, nodes, runtime, mode, deployment⟩)

end Codec
end Pipework
