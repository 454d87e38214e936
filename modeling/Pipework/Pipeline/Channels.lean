import Pipework.Pipeline.Basic

/-!
# Resolving channels

Every declared channel becomes a query for the artifacts of its producer: those found under the
producer's own contexts, of the type of the output that is read.
-/

namespace Pipework.Pipeline

/-- The query of a channel. -/
def resolveChannel (p : Pipeline) (id : NodeId) (key : InputKey) (c : Declaration.Channel) :
    Except CompileError Document.Channel :=
  match p.node? c.producer with
  | none => .error (.unknownReference id (.input key) c.producer)
  | some producer =>
    match producer.outputs.get? c.output with
    | none => .error (.missingOutput id key producer.id c.output)
    | some type => .ok ⟨producer.id, producer.contexts, type.ref, c.output⟩

/-- The configuration of a step: an object, or a text that holds one; nothing stands for the object
without members. -/
def resolveConfig : Option Json.Payload → Except ConfigError Json.Config
  | none => .ok .empty
  | some ⟨.null, _⟩ => .ok .empty
  | some ⟨.object members, normal⟩ => .ok ⟨members, normal⟩
  | some ⟨.string text, _⟩ =>
    match Json.parse text.toList with
    | .ok (.object members) => .ok (.ofMembers members)
    | .ok _ => .error .encodedNotObject
    | .error fault => .error (.unreadable text fault)
  | some _ => .error .notObject

/-- The steps of a resolver chain, the first of which has the given number. -/
def resolveSteps (id : NodeId) (key : InputKey) :
    Nat → List Declaration.Step → Except CompileError (List Document.Step)
  | _, [] => .ok []
  | i, s :: ss => do
    let config ← (resolveConfig s.config).mapError (.invalidConfig id key i)
    let rest ← resolveSteps id key (i + 1) ss
    return ⟨s.op, config⟩ :: rest

/-- The queries of an input. -/
def resolveInput (p : Pipeline) (id : NodeId) (key : InputKey) (input : Declaration.Input) :
    Except CompileError Document.Input := do
  let channels ← input.channels.mapM (p.resolveChannel id key)
  let resolver ← resolveSteps id key 0 input.resolver
  return ⟨channels, resolver, input.minCount⟩

/-- The queries of all inputs of a node. -/
def resolveInputs (p : Pipeline) (n : Node) : Except CompileError (Dict Document.Input) :=
  n.declaredInputs.traverse (p.resolveInput n.id)

/-- Gives the nodes their inputs. -/
def setInputs : List Node → List (Dict Document.Input) → List Node
  | n :: ns, i :: is => { n with inputs := i } :: setInputs ns is
  | ns, _ => ns

/-- Resolves the inputs of all nodes. Nothing is written before all are resolved. -/
def resolveChannels (p : Pipeline) : Run :=
  match p.nodes.mapM p.resolveInputs with
  | .error e => ⟨p, .error e⟩
  | .ok inputs => ⟨{ p with nodes := setInputs p.nodes inputs }, .ok ()⟩

end Pipework.Pipeline
