import Pipework.Artifact
import Pipework.Resolver

/-!
# Declarations

A declaration describes a pipeline as its author writes it: nodes, the channels from which they
read, and their parameters. Nothing about it has been checked yet.
-/

namespace Pipework

/-- Identifies a node within a pipeline. -/
abbrev NodeId := String

/-- Names an input of a node. -/
abbrev InputKey := String

/-- Names an output of a node. -/
abbrev OutputKey := String

/-- Whether a pipeline runs to its end or goes on. -/
inductive ExecutionMode where
  | sync
  | async
deriving DecidableEq, Repr, Inhabited

/-- The name of a mode. -/
def ExecutionMode.name : ExecutionMode → String
  | .sync => "SYNC"
  | .async => "ASYNC"

/-- What a node is. -/
inductive NodeKind where
  | component
  | resolver
  | importer
deriving DecidableEq, Repr, Inhabited

namespace NodeKind

/-- The name of a kind. -/
def name : NodeKind → String
  | .component => "component"
  | .resolver => "resolver"
  | .importer => "importer"

/-- Whether the deployment has to say how such a node is executed. -/
def needsExecutor : NodeKind → Bool
  | .component => true
  | _ => false

end NodeKind

namespace Declaration

/-- A value written in a declaration. -/
inductive Literal where
  | bool (value : Bool)
  | int (value : Int64)
  | double (value : Double)
  | string (value : String)
deriving DecidableEq, BEq, Repr

/-- The value that a literal denotes; truth values are the integers 0 and 1. -/
def Literal.toField : Literal → FieldValue
  | .bool b => .int (if b then 1 else 0)
  | .int n => .int n
  | .double x => .double x
  | .string s => .string s

/-- A runtime parameter, whose default need not agree with its kind yet. -/
structure RuntimeParameter where
  name : String
  kind : ScalarKind
  default : Option Literal
deriving DecidableEq, Repr

/-- The value of a parameter. -/
inductive Parameter where
  | literal (value : Literal)
  | runtime (parameter : RuntimeParameter)
deriving DecidableEq, Repr

/-- The value of a context: a text or the name of a runtime parameter. -/
inductive ContextValue where
  | literal (value : String)
  | runtime (name : String)
deriving DecidableEq, Repr

/-- A context that a node has beside those that all nodes have. -/
structure Context where
  type : String
  value : ContextValue
deriving DecidableEq, Repr

/-- A reference to an output of a node. -/
structure Channel where
  producer : NodeId
  output : OutputKey
deriving DecidableEq, Repr

/-- A step of a resolver chain. Its configuration is an object, or a text that holds one. -/
structure Step where
  op : ResolverOp
  config : Option Json.Payload

/-- An input of a node: the union of channels, passed through a resolver chain. -/
structure Input where
  channels : List Channel
  resolver : List Step
  minCount : Option UInt32

/-- A node. -/
structure Node where
  id : NodeId
  type : NodeType
  kind : NodeKind
  contexts : List Context
  inputs : Dict Input
  outputs : Dict ArtifactType
  parameters : Dict Parameter
  after : List NodeId
  enableCache : Bool
  maxRetries : Option UInt32

end Declaration

/-- A declared pipeline. -/
structure Declaration where
  id : String
  root : Option String
  mode : ExecutionMode
  nodes : List Declaration.Node

namespace Declaration.Node

/-- A node of which only the id and the name of its type are given. -/
def new (id typeName : String) : Node where
  id := id
  type := ⟨typeName, none⟩
  kind := .component
  contexts := []
  inputs := .empty
  outputs := .empty
  parameters := .empty
  after := []
  enableCache := true
  maxRetries := none

/-- Gives the node an output, in place of one with the same key. -/
def withOutput (n : Node) (key : OutputKey) (typeName : String) : Node :=
  { n with outputs := n.outputs.insert key ⟨typeName, none, .empty⟩ }

/-- Adds a channel to an input, which is created if there is none with that key. -/
def withInput (n : Node) (key : InputKey) (producer : NodeId) (output : OutputKey) : Node :=
  let input := (n.inputs.get? key).getD ⟨[], [], none⟩
  let channels := input.channels ++ [⟨producer, output⟩]
  { n with inputs := n.inputs.insert key { input with channels := channels } }

end Declaration.Node

namespace Codec

open Json
open Declaration (Literal Parameter ContextValue)

/-- Execution modes. -/
def executionMode : Codec ExecutionMode :=
  names ExecutionMode.name [.sync, .async]

/-- Kinds of nodes. -/
def nodeKind : Codec NodeKind :=
  names NodeKind.name [.component, .resolver, .importer]

/-- What may be read as a literal. -/
def literalOfFound : Found → Except Mismatch Literal
  | .bool b => .ok (.bool b)
  | .int n =>
    if Int64.minValue.toInt ≤ n ∧ n ≤ Int64.maxValue.toInt then .ok (.int (Int64.ofInt n))
    else .error (.integerTooWide n)
  | .double x => .ok (.double x)
  | .string s => .ok (.string s)
  | got => .error (.wrongType got "a boolean, a 64-bit integer, a double, or a string")

/-- Literals. -/
def literal : Codec Literal where
  write
    | .bool b => .bool b
    | .int n => .int n.toInt
    | .double x => .double x
    | .string s => .string s
  read room s := do
    let s ← start s
    match s with
    | '[' :: _ | '\x7b' :: _ => let _ ← open? room s
    | _ => pure ()
    readScalar literalOfFound s
  ofJson _ j := literalOfFound (found j)

/-- Runtime parameters of a declaration. -/
def declaredRuntimeParameter : Codec Declaration.RuntimeParameter :=
  record "RuntimeParameterDecl" true
    (.cons (.required "name" string) <| .cons (.required "type" scalarKind) <|
      .cons (.defaulting "default_value" (option literal) none) .nil)
    (fun p ↦ (p.name, p.kind, p.default, ()))
    (fun (name, kind, default, ()) ↦ ⟨name, kind, default⟩)

/-- The only field of an object that stands for a runtime parameter. -/
def runtimeField {α : Type} (c : Codec α) : Fields [α] :=
  .cons (.required "runtime_parameter" c) .nil

/-- Reads an object that stands for a runtime parameter. -/
def runtimeOfJson? {α : Type} (c : Codec α) : Json → Option α
  | .object ms =>
    match (runtimeField c).ofObject false .text ms with
    | .ok (a, ()) => some a
    | .error _ => none
  | _ => none

/-- Values of parameters: a literal, or an object that holds a runtime parameter. -/
def parameter : Codec Parameter :=
  buffered
    (fun
      | .literal v => literal.write v
      | .runtime p => .object ((runtimeField declaredRuntimeParameter).write (p, ())))
    (fun j ↦
      match literal.ofJson .text j with
      | .ok v => some (.literal v)
      | .error _ => (runtimeOfJson? declaredRuntimeParameter j).map .runtime)
    "ParameterDecl"

/-- Values of contexts: a text, or an object that holds the name of a runtime parameter. -/
def contextValue : Codec ContextValue :=
  buffered
    (fun
      | .literal s => .string s
      | .runtime name => .object ((runtimeField string).write (name, ())))
    (fun j ↦
      match string.ofJson .text j with
      | .ok s => some (.literal s)
      | .error _ => (runtimeOfJson? string j).map .runtime)
    "ContextValueDecl"

/-- Contexts of a declaration. -/
def declaredContext : Codec Declaration.Context :=
  record "ContextDecl" true
    (.cons (.required "type" string) <| .cons (.required "value" contextValue) .nil)
    (fun c ↦ (c.type, c.value, ()))
    (fun (type, value, ()) ↦ ⟨type, value⟩)

/-- Channels of a declaration. -/
def declaredChannel : Codec Declaration.Channel :=
  record "ChannelDecl" true
    (.cons (.required "producer" string) <| .cons (.required "output" string) .nil)
    (fun c ↦ (c.producer, c.output, ()))
    (fun (producer, output, ()) ↦ ⟨producer, output⟩)

/-- Steps of a declared resolver chain. -/
def declaredStep : Codec Declaration.Step :=
  record "ResolverStepDecl" true
    (.cons (.required "op" resolverOp) <|
      .cons (.defaulting "config" (option payload) none) .nil)
    (fun s ↦ (s.op, s.config, ()))
    (fun (op, config, ()) ↦ ⟨op, config⟩)

/-- Inputs of a declaration. -/
def declaredInput : Codec Declaration.Input :=
  record "InputDecl" true
    (.cons (.required "channels" (list declaredChannel)) <|
      .cons (.defaulting "resolver" (list declaredStep) []) <|
      .cons (.defaulting "min_count" (option uint32) none) .nil)
    (fun i ↦ (i.channels, i.resolver, i.minCount, ()))
    (fun (channels, resolver, minCount, ()) ↦ ⟨channels, resolver, minCount⟩)

/-- Nodes of a declaration. -/
def declaredNode : Codec Declaration.Node :=
  record "NodeDecl" true
    (.cons (.required "id" string) <| .cons (.required "node_type" nodeType) <|
      .cons (.defaulting "kind" nodeKind .component) <|
      .cons (.defaulting "contexts" (list declaredContext) []) <|
      .cons (.defaulting "inputs" (dict .refused declaredInput) .empty) <|
      .cons (.defaulting "outputs" (dict .refused artifactType) .empty) <|
      .cons (.defaulting "parameters" (dict .refused parameter) .empty) <|
      .cons (.defaulting "after" (list string) []) <|
      .cons (.defaulting "enable_cache" bool true) <|
      .cons (.defaulting "max_execution_retries" (option uint32) none) .nil)
    (fun n ↦ (n.id, n.type, n.kind, n.contexts, n.inputs, n.outputs, n.parameters, n.after,
      n.enableCache, n.maxRetries, ()))
    (fun (id, type, kind, contexts, inputs, outputs, parameters, after, enableCache, maxRetries,
        ()) ↦
      ⟨id, type, kind, contexts, inputs, outputs, parameters, after, enableCache, maxRetries⟩)

/-- Declarations. -/
def declaration : Codec Declaration :=
  record "PipelineDecl" true
    (.cons (.required "pipeline_id" string) <|
      .cons (.defaulting "pipeline_root" (option string) none) <|
      .cons (.defaulting "execution_mode" executionMode .sync) <|
      .cons (.required "nodes" (list declaredNode)) .nil)
    (fun d ↦ (d.id, d.root, d.mode, d.nodes, ()))
    (fun (id, root, mode, nodes, ()) ↦ ⟨id, root, mode, nodes⟩)

end Codec
end Pipework
