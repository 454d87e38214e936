import Pipework.Proofs.Compile.Result

/-!
# The values of a document

A document holds values in four places: as parameters of a run, as parameters and contexts of its
nodes, and as contexts of the producers that its inputs ask for. The last are the values of queries,
the others those of the document itself.

Compiling leaves little room for them (`Outcome.forall_values`). The contexts of every node, and so
those of every query, are texts and text parameters without a default; all else comes from the
declared parameters.
-/

namespace Pipework

namespace Document

/-- The values of a node, those of its queries apart. -/
def Node.ownValues (n : Node) : List Value :=
  n.parameters.values ++ n.contexts.map (·.value)

/-- The values of the queries of a node. -/
def Node.queryValues (n : Node) : List Value :=
  n.inputs.values.flatMap fun i ↦ i.channels.flatMap fun c ↦ c.contexts.map (·.value)

/-- The values of a document, those of queries apart. -/
def ownValues (d : Document) : List Value :=
  .runtime d.runtime.root :: .runtime d.runtime.runId :: d.nodes.flatMap Node.ownValues

/-- The values of all queries of a document. -/
def queryValues (d : Document) : List Value :=
  d.nodes.flatMap Node.queryValues

/-- All values of a document. -/
def values (d : Document) : List Value :=
  d.ownValues ++ d.queryValues

end Document

namespace Declaration

variable {d : Declaration} {m : Deployment} {options : CompileOptions} {report : CompileReport}

/-- The values of contexts. -/
theorem value_of_mem_contextsOf {c : Node} {x : Document.Context}
    (hx : x ∈ d.contextsOf options c) :
    (∃ s, x.value = .text s) ∨ ∃ name, x.value = .runtime (.text name) := by
  rw [contextsOf, canonicalContexts] at hx
  simp only [List.mem_append, List.mem_cons, List.not_mem_nil, or_false, List.mem_map] at hx
  rcases hx with (rfl | rfl | rfl) | ⟨y, -, rfl⟩
  · exact .inl ⟨_, rfl⟩
  · exact .inr ⟨_, rfl⟩
  · exact .inl ⟨_, rfl⟩
  · rw [Pipeline.declaredContext]
    rcases y.value with s | name
    · exact .inl ⟨s, rfl⟩
    · exact .inr ⟨name, rfl⟩

section

variable {P : Value → Prop} (htext : ∀ s, P (.text s))
  (hruntime : ∀ name, P (.runtime (.text name)))
include htext hruntime

/-- Contexts of a node have the property, those that are added by compiling included. -/
theorem forall_contextsOf (c : Node) : ∀ x ∈ d.contextsOf options c, P x.value := by
  intro x hx
  rcases value_of_mem_contextsOf hx with ⟨s, hs⟩ | ⟨name, hname⟩
  · exact hs ▸ htext s
  · exact hname ▸ hruntime name

/-- Queries repeat contexts of nodes, so that their values have the property, too. -/
theorem Compiled.forall_queryValues {c : Node} {n : Document.Node} (h : d.Compiled options c n) :
    ∀ v ∈ n.queryValues, P v := by
  intro v hv
  simp only [Document.Node.queryValues, Dict.values, List.mem_flatMap, List.mem_map] at hv
  obtain ⟨-, ⟨e, he, rfl⟩, q, hq, x, hx, rfl⟩ := hv
  obtain ⟨e', -, -, hqueries⟩ := exists_mem_of_forall₂_right h.inputs he
  obtain ⟨channel, -, producer, -, -, type, -, rfl⟩ :=
    exists_mem_of_forall₂_right hqueries.channels hq
  exact forall_contextsOf htext hruntime producer x hx

/-- **What a value of a compiled document can be.** -/
theorem Outcome.forall_values (h : d.Outcome m options report)
    (hroot : P (.runtime ⟨options.rootParameter, .string, d.root.map .string⟩))
    (hparameters : ∀ c ∈ d.nodes, ∀ e ∈ c.parameters.entries, ∀ v,
      Pipeline.parameterValue c.id e.1 e.2 = .ok v → P v) :
    ∀ v ∈ report.document.values, P v := by
  intro v hv
  simp only [Document.values, Document.ownValues, Document.queryValues, Document.Node.ownValues,
    h.runtime, List.cons_append, List.mem_cons, List.mem_append, List.mem_flatMap] at hv
  rcases hv with rfl | rfl | ⟨n, hn, hv | hv⟩ | ⟨n, hn, hv⟩
  · exact hroot
  · exact hruntime _
  · obtain ⟨c, hc, hcompiled⟩ := exists_mem_of_forall₂_right h.nodes hn
    obtain ⟨e, he, rfl⟩ := List.mem_map.1 hv
    obtain ⟨e', he', -, hvalue⟩ := exists_mem_of_forall₂_right
      (Dict.traverse_eq_ok_iff.1 hcompiled.parameters) he
    exact hparameters c hc e' he' e.2 hvalue
  · obtain ⟨c, -, hcompiled⟩ := exists_mem_of_forall₂_right h.nodes hn
    obtain ⟨x, hx, rfl⟩ := List.mem_map.1 hv
    rw [hcompiled.contexts] at hx
    exact forall_contextsOf htext hruntime c x hx
  · obtain ⟨c, -, hcompiled⟩ := exists_mem_of_forall₂_right h.nodes hn
    exact hcompiled.forall_queryValues htext hruntime v hv

end

end Declaration
end Pipework
