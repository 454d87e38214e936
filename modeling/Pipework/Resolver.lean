import Pipework.Codec.Collection

/-!
# Resolver operations

An input passes the artifacts that it finds through a chain of operations. The compiler does not
interpret them: three are known by name, and any other name stands for an operation of the runtime.
-/

namespace Pipework

/-- An operation on the artifacts of an input. -/
inductive ResolverOp where
  | unnest
  | skipIfEmpty
  | latestArtifact
  | custom (name : String)
deriving DecidableEq, Repr

namespace ResolverOp

/-- The name of an operation. -/
def name : ResolverOp → String
  | .unnest => "unnest"
  | .skipIfEmpty => "skip_if_empty"
  | .latestArtifact => "latest_artifact"
  | .custom name => name

/-- The operation with a given name. -/
def ofName (name : String) : ResolverOp :=
  if name = "unnest" then .unnest
  else if name = "skip_if_empty" then .skipIfEmpty
  else if name = "latest_artifact" then .latestArtifact
  else .custom name

end ResolverOp

/-- Operations, written as their names. -/
def Codec.resolverOp : Codec ResolverOp :=
  string.via ResolverOp.name ResolverOp.ofName

end Pipework
