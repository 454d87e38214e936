import Pipework.Document
import Pipework.Sha256

/-!
# The text of a document

A document is written as JSON, compact or indented. Doubles that JSON cannot write are refused
before anything is written. The fingerprint of a document is the digest of its compact text.
-/

namespace Pipework

/-- Where in a document a double stands. -/
inductive DoubleSite where
  | pipelineRoot
  | runId
  | parameter (node : NodeId) (key : String)
  | context (node : NodeId) (type : String)
deriving DecidableEq, Repr

/-- The description of a place. -/
def DoubleSite.describe : DoubleSite → String
  | .pipelineRoot => "runtime_spec.pipeline_root"
  | .runId => "runtime_spec.pipeline_run_id"
  | .parameter node key => "node `" ++ node ++ "` parameter `" ++ key ++ "`"
  | .context node type => "node `" ++ node ++ "` context `" ++ type ++ "`"

/-- The reasons why a document cannot be written or read. -/
inductive DocumentError where
  | nonFinite (site : DoubleSite)
  | unreadable (fault : Json.Fault)
  | unsupportedVersion (found expected : UInt32)
deriving DecidableEq, Repr

/-- The explanation of an error. -/
def DocumentError.message : DocumentError → String
  | .nonFinite site => "cannot encode non-finite double at " ++ site.describe
  | .unreadable _ => "could not decode document"
  | .unsupportedVersion found expected =>
    "unsupported ir version " ++ toString found.toNat ++ ", expected " ++ toString expected.toNat

namespace Document

/-- The version of the format that is written. -/
def currentVersion : UInt32 := 1

/-! ### Doubles that cannot be written -/

/-- The places in a node where a double is not finite, parameters before contexts. -/
def Node.nonFiniteSites (n : Node) : List DoubleSite :=
  (n.parameters.entries.filter fun e ↦ !e.2.isFinite).map (fun e ↦ .parameter n.id e.1) ++
    (n.contexts.filter fun c ↦ !c.value.isFinite).map (fun c ↦ .context n.id c.type)

/-- The places in a document where a double is not finite. -/
def nonFiniteSites (d : Document) : List DoubleSite :=
  (if d.runtime.root.isFinite then [] else [.pipelineRoot]) ++
    (if d.runtime.runId.isFinite then [] else [.runId]) ++ d.nodes.flatMap Node.nonFiniteSites

/-- Refuses a document at the first place where a double is not finite. -/
def checkFinite (d : Document) : Except DocumentError Unit :=
  match d.nonFiniteSites with
  | [] => .ok ()
  | site :: _ => .error (.nonFinite site)

/-! ### Writing -/

/-- The JSON value of a document. -/
def toJson (d : Document) : Json :=
  Codec.document.write d

/-- The text without blanks. -/
def canonicalText (d : Document) : Except DocumentError String := do
  d.checkFinite
  return d.toJson.compact

/-- The indented text. -/
def prettyText (d : Document) : Except DocumentError String := do
  d.checkFinite
  return d.toJson.pretty

/-- The digest of the text without blanks. -/
def fingerprint (d : Document) : Except DocumentError String := do
  let text ← d.canonicalText
  return Sha256.hexDigest text.toUTF8.toList

/-! ### Reading -/

/-- Reads a document from a text. Only the current version is accepted. -/
def ofText (text : String) : Except DocumentError Document := do
  let d ← (Codec.document.parse text).mapError .unreadable
  if d.version = currentVersion then return d
  else .error (.unsupportedVersion d.version currentVersion)

/-- The first node with a given id. -/
def node? (d : Document) (id : NodeId) : Option Node :=
  d.nodes.find? (·.id == id)

end Document
end Pipework
