import Pipework.Pipeline.Basic

/-!
# Assembling a pipeline

The nodes of a declaration are checked one by one, and then the references between them, since a
node may refer to one that is declared after it.
-/

namespace Pipework

/-- The names of the parameters that every run has. -/
structure CompileOptions where
  runParameter : String := "pipeline-run-id"
  rootParameter : String := "pipeline-root"
deriving DecidableEq, Repr, Inhabited

namespace Pipeline

/-! ### Nodes -/

/-- The value of a declared context. -/
def contextValue : Declaration.ContextValue → Value
  | .literal s => .text s
  | .runtime name => .runtime (.text name)

/-- The declared contexts of a node, none of which may have a canonical type. -/
def declaredContexts (id : NodeId) :
    List Declaration.Context → Except CompileError (List Document.Context)
  | [] => .ok []
  | c :: cs =>
    if isCanonicalContextType c.type then .error (.reservedContext id c.type)
    else do
      let rest ← declaredContexts id cs
      return ⟨c.type, contextValue c.value⟩ :: rest

/-- The value of a default for a parameter of the given kind, if it has that kind. An integer is a
double if the double nearest to it is the integer itself. -/
def defaultValue (kind : ScalarKind) (v : Declaration.Literal) : Except ScalarKind FieldValue :=
  match kind, v with
  | .double, .int n =>
    let x := Double.ofInt n.toInt
    if x.truncate = n.toInt then .ok (.double x) else .error .int
  | kind, v => if v.toField.kind = kind then .ok v.toField else .error v.toField.kind

/-- The value of a declared parameter. -/
def parameterValue (id : NodeId) (key : String) : Declaration.Parameter → Except CompileError Value
  | .literal v => .ok (.field v.toField)
  | .runtime p =>
    match p.default with
    | none => .ok (.runtime ⟨p.name, p.kind, none⟩)
    | some v =>
      match defaultValue p.kind v with
      | .ok v => .ok (.runtime ⟨p.name, p.kind, some v⟩)
      | .error found => .error (.defaultMismatch id key p.kind found)

/-- The entries of a list, each at its first place only. -/
def firstOccurrences : List NodeId → List NodeId
  | [] => []
  | id :: ids => id :: (firstOccurrences ids).filter (· != id)

/-- The node of a declaration. -/
def buildNode (d : Declaration.Node) : Except CompileError Node := do
  let extraContexts ← declaredContexts d.id d.contexts
  let parameters ← d.parameters.traverse (parameterValue d.id)
  return {
    id := d.id
    type := d.type
    kind := d.kind
    extraContexts := extraContexts
    contexts := []
    declaredInputs := d.inputs
    inputs := .empty
    outputs := d.outputs
    parameters := parameters
    after := firstOccurrences d.after
    dependencies := []
    dependents := []
    options := ⟨d.enableCache, d.maxRetries⟩ }

/-- Checks the name of a pipeline or node. -/
def checkId (subject : NameSubject) (name : String) : Except CompileError Unit :=
  (checkName name).mapError (.invalidName subject name)

/-- Checks the id of a node, which must differ from those of the nodes before it. -/
def checkNodeId (index : Dict Nat) (id : NodeId) : Except CompileError Unit := do
  checkId .node id
  if index.contains id then .error (.duplicateNode id)

/-- Builds the nodes of a declaration after those whose positions are given. -/
def buildNodes : (index : Dict Nat) → (count : Nat) → List Declaration.Node →
    Except CompileError (List Node × Dict Nat)
  | index, _, [] => .ok ([], index)
  | index, count, d :: ds => do
    checkNodeId index d.id
    let n ← buildNode d
    let (ns, index) ← buildNodes (index.insert d.id count) (count + 1) ds
    return (n :: ns, index)

/-! ### References -/

/-- Checks that a node refers to another one that exists. -/
def checkReference (index : Dict Nat) (id : NodeId) (site : ReferenceSite) (producer : NodeId) :
    Except CompileError Unit :=
  if index.contains producer then .ok () else .error (.unknownReference id site producer)

/-- Checks that an input has channels and that they lead to nodes that exist. -/
def checkInput (index : Dict Nat) (id : NodeId) (key : InputKey) (input : Declaration.Input) :
    Except CompileError Unit :=
  if input.channels.isEmpty then .error (.emptyInput id key)
  else input.channels.forM fun c ↦ checkReference index id (.input key) c.producer

/-- Checks all references of a node. -/
def checkReferences (index : Dict Nat) (n : Node) : Except CompileError Unit := do
  n.declaredInputs.entries.forM fun e ↦ checkInput index n.id e.1 e.2
  n.after.forM (checkReference index n.id .after)

/-! ### Pipelines -/

/-- The pipeline of a declaration, before any stage. -/
def assemble (d : Declaration) (options : CompileOptions) : Except CompileError Pipeline := do
  checkId .pipeline d.id
  let (nodes, index) ← buildNodes .empty 0 d.nodes
  nodes.forM (checkReferences index)
  return {
    id := d.id
    nodes := nodes
    index := index
    runtime :=
      { root := ⟨options.rootParameter, .string, d.root.map .string⟩
        runId := .text options.runParameter }
    mode := d.mode
    deployment := .empty
    layers := [] }

end Pipeline
end Pipework
