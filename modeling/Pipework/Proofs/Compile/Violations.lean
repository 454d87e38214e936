import Pipework.Proofs.Pipeline.Declared

/-!
# What can be wrong with a declaration

`violations` lists everything that is wrong with a declaration and its deployment, in the order of a
fixed scan that only looks at the two:

1. the name of the pipeline;
2. node by node: its name, whether an earlier node has it, contexts of a canonical type, defaults of
   runtime parameters that do not fit;
3. node by node: inputs without channels, references to nodes that are not declared;
4. node by node and input by input: channels of outputs that the producer does not have,
   configurations of resolver steps that are no objects;
5. a cycle of references;
6. entries of the deployment for nodes that are not declared, components without an entry;
7. node by node: parameters that hold a double which cannot be written.

Nothing in the list depends on whether something before it is wrong.
-/

namespace Pipework.Declaration

/-! ### Names, contexts and parameters -/

/-- What is wrong with a name. -/
def nameViolations (subject : NameSubject) (name : String) : List CompileError :=
  match checkName name with
  | .ok () => []
  | .error reason => [.invalidName subject name reason]

/-- Whether a default fits a parameter of the given kind. Truth values are integers, and an integer
is a double if the double nearest to it is the integer itself. -/
def Literal.fits : ScalarKind → Literal → Bool
  | .int, .bool _ => true
  | .int, .int _ => true
  | .double, .int n => (Double.ofInt n.toInt).truncate = n.toInt
  | .double, .double _ => true
  | .string, .string _ => true
  | _, _ => false

/-- What is wrong with the default of a parameter. -/
def Parameter.violations (id : NodeId) (key : String) : Parameter → List CompileError
  | .literal _ => []
  | .runtime p =>
    match p.default with
    | none => []
    | some v => if v.fits p.kind then [] else [.defaultMismatch id key p.kind v.toField.kind]

/-- What is wrong with a node on its own, and with its id among those of earlier nodes. -/
def Node.formViolations (earlier : List NodeId) (n : Node) : List CompileError :=
  nameViolations .node n.id ++ (if n.id ∉ earlier then [] else [.duplicateNode n.id]) ++
    (n.contexts.filter fun c ↦ isCanonicalContextType c.type).map
      (fun c ↦ .reservedContext n.id c.type) ++
    n.parameters.entries.flatMap fun e ↦ e.2.violations n.id e.1

/-- What is wrong with nodes on their own and with their ids, the ids of earlier nodes given. -/
def formViolations (earlier : List NodeId) : List Node → List CompileError
  | [] => []
  | n :: ns => n.formViolations earlier ++ formViolations (earlier ++ [n.id]) ns

/-! ### References -/

/-- What is wrong with a reference. -/
def referenceViolations (d : Declaration) (id : NodeId) (site : ReferenceSite)
    (producer : NodeId) : List CompileError :=
  if producer ∈ d.ids then [] else [.unknownReference id site producer]

/-- What is wrong with the references of an input. -/
def inputViolations (d : Declaration) (id : NodeId) (key : InputKey) (input : Input) :
    List CompileError :=
  if input.channels = [] then [.emptyInput id key]
  else input.channels.flatMap fun c ↦ d.referenceViolations id (.input key) c.producer

/-- What is wrong with the references of a node. -/
def linkViolations (d : Declaration) (n : Node) : List CompileError :=
  (n.inputs.entries.flatMap fun e ↦ d.inputViolations n.id e.1 e.2) ++
    n.after.flatMap (d.referenceViolations n.id .after)

/-! ### Channels and resolver steps -/

/-- A node is declared and has an output. -/
def HasOutput (d : Declaration) (producer : NodeId) (output : OutputKey) : Prop :=
  ∃ n ∈ d.nodes, n.id = producer ∧ output ∈ n.outputs.keys

instance (d : Declaration) (producer : NodeId) (output : OutputKey) :
    Decidable (d.HasOutput producer output) :=
  inferInstanceAs (Decidable (∃ n ∈ d.nodes, _))

/-- Why a configuration is refused, if it is: it may be absent, null, an object or a text that holds
an object. -/
def configFault : Option Json.Payload → Option ConfigError
  | none => none
  | some payload =>
    match payload.json with
    | .null => none
    | .object _ => none
    | .string text =>
      match Json.parse text.toList with
      | .ok (.object _) => none
      | .ok _ => some .encodedNotObject
      | .error fault => some (.unreadable text fault)
    | _ => some .notObject

/-- What is wrong with a step of a resolver chain. -/
def Step.violations (id : NodeId) (key : InputKey) (s : Step × Nat) : List CompileError :=
  ((configFault s.1.config).map (CompileError.invalidConfig id key s.2)).toList

/-- What is wrong with a channel. -/
def Channel.violations (d : Declaration) (id : NodeId) (key : InputKey) (c : Channel) :
    List CompileError :=
  if d.HasOutput c.producer c.output then [] else [.missingOutput id key c.producer c.output]

/-- What is wrong with the channels of an input and with its resolver chain. -/
def Input.violations (d : Declaration) (id : NodeId) (key : InputKey) (input : Input) :
    List CompileError :=
  input.channels.flatMap (Channel.violations d id key) ++
    input.resolver.zipIdx.flatMap (Step.violations id key)

/-- What is wrong with the channels and resolver chains of a node. -/
def channelViolations (d : Declaration) (n : Node) : List CompileError :=
  n.inputs.entries.flatMap fun e ↦ e.2.violations d n.id e.1

/-! ### Cycles, deployment and doubles -/

/-- The cycle of references that is reported, if there is one. -/
def cycleViolations (d : Declaration) : List CompileError :=
  if d.graph.Acyclic then []
  else [.cyclic (Pipeline.idsOf d.graph (d.graph.findCycle.getD []))]

/-- What is wrong with a deployment. -/
def deploymentViolations (d : Declaration) (m : Deployment) : List CompileError :=
  (m.keys.flatMap fun id ↦ if id ∈ d.ids then [] else [.unknownDeployment id]) ++
    d.nodes.flatMap fun n ↦
      if n.kind = .component → n.id ∈ m.keys then [] else [.missingExecutor n.id]

/-- Whether a literal is no infinite or undefined double. -/
def Literal.isFinite : Literal → Bool
  | .double x => x.isFinite
  | _ => true

/-- Whether a parameter holds no infinite or undefined double. -/
def Parameter.isFinite : Parameter → Bool
  | .literal v => v.isFinite
  | .runtime p => p.default.all Literal.isFinite

/-- The doubles of a node that cannot be written. -/
def Node.doubleViolations (n : Node) : List CompileError :=
  n.parameters.entries.flatMap fun e ↦
    if e.2.isFinite then [] else [.notWritable (.nonFinite (.parameter n.id e.1))]

/-! ### The scan -/

/-- **Everything that is wrong** with a declaration and its deployment, in the order of the scan. -/
def violations (d : Declaration) (m : Deployment) : List CompileError :=
  nameViolations .pipeline d.id ++ formViolations [] d.nodes ++ d.nodes.flatMap d.linkViolations ++
    d.nodes.flatMap d.channelViolations ++ d.cycleViolations ++ d.deploymentViolations m ++
    d.nodes.flatMap Node.doubleViolations

end Pipework.Declaration
