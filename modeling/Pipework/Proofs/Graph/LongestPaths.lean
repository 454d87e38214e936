import Mathlib.Order.Bounds.Basic
import Pipework.Proofs.Graph.Acceptance
import Pipework.Proofs.Graph.Layers

/-!
# Layers are lengths of longest paths

`Layered` says which nodes come next. Here the layers are described without going from one to the
next: a node stands in layer `k` exactly if the longest path that ends at it has `k` edges.

* `Layered.pathTo`: going back from a node through predecessors in the layer just before, one comes
  to the first layer, so that there is such a path.
* `Layered.le_of_pathTo`: there is no longer one, since along an edge the layer goes up.

The loop is described by `AcyclicGraph.Rounds`, which knows no bound on the number of rounds. That
it ends follows from the layers being at most as many as the nodes: with one round more allowed than
that the bound is not reached (`rounds_layers`).
-/

open Relation

namespace Pipework

namespace AcyclicGraph

variable {ν ε : Type} {a : AcyclicGraph ν ε}

/-! ### The rounds of the loop -/

/-- The rounds from the current layer and the counters on. As long as the layer has nodes their
edges are closed, and the nodes found on the way, sorted, are the next layer. -/
inductive Rounds (a : AcyclicGraph ν ε) : (current counts : List Nat) → List (List Nat) → Prop
  | nil {counts : List Nat} : Rounds a [] counts []
  | cons {current counts : List Nat} {c : Count} {layers : List (List Nat)}
      (nonempty : current ≠ []) (closed : c = current.foldl a.closeNode ⟨counts, []⟩)
      (rest : Rounds a (c.next.mergeSort (· ≤ ·)) c.pending layers) :
      Rounds a current counts (current :: layers)

/-- If fewer layers were found than rounds were allowed, the loop has ended by itself. -/
theorem rounds_of_length_lt {fuel : Nat} {current counts : List Nat}
    (h : (a.layersFrom fuel current counts).length < fuel) :
    Rounds a current counts (a.layersFrom fuel current counts) := by
  induction fuel generalizing current counts with
  | zero => omega
  | succ fuel ih =>
    rw [layersFrom] at h ⊢
    by_cases hempty : current = []
    · subst hempty
      exact .nil
    · rw [if_neg (by simpa using hempty)] at h ⊢
      rw [List.length_cons] at h
      exact .cons hempty rfl (ih (by omega))

/-- Allowing more rounds than there are layers does not change the layers. -/
theorem Rounds.layersFrom_eq {current counts : List Nat} {layers : List (List Nat)}
    (h : Rounds a current counts layers) {fuel : Nat} (hfuel : layers.length ≤ fuel) :
    a.layersFrom fuel current counts = layers := by
  induction h generalizing fuel with
  | nil =>
    match fuel with
    | 0 => rfl
    | fuel + 1 => simp [layersFrom]
  | @cons current counts c layers nonempty closed _ ih =>
    subst closed
    rw [List.length_cons] at hfuel
    obtain ⟨fuel, rfl⟩ : ∃ n, fuel = n + 1 := ⟨fuel - 1, by omega⟩
    rw [layersFrom, if_neg (by simpa using nonempty)]
    exact congrArg (current :: ·) (ih (by omega))

end AcyclicGraph

namespace Graph

variable {ν ε : Type} {g : Graph ν ε}

/-- There are at most as many layers as nodes. -/
theorem Layered.length_le {layers : List (List Nat)} (h : Layered g [] layers) :
    layers.length ≤ g.order := by
  have hpos : ∀ n ∈ layers.map List.length, 1 ≤ n := by
    intro n hn
    obtain ⟨layer, hlayer, rfl⟩ := List.mem_map.1 hn
    exact List.length_pos_iff.2 (h.layer_ne_nil layer hlayer)
  calc layers.length
    _ = (layers.map List.length).length := by rw [List.length_map]
    _ ≤ (layers.map List.length).sum := List.length_le_sum_of_one_le _ hpos
    _ = layers.flatten.length := List.length_flatten.symm
    _ = g.order := by rw [h.perm_flatten.length_eq, List.length_range]

/-- **The loop ends**, with the layers of the graph. -/
theorem rounds_layers (hg : g.Acyclic) :
    g.tabulated.Rounds g.tabulated.sources g.tabulated.degrees g.tabulated.layers := by
  have hlayered := layered_layersFrom_sources hg (Nat.le_succ g.order)
  have hrounds := AcyclicGraph.rounds_of_length_lt (Nat.lt_succ_of_le hlayered.length_le)
  rwa [← hrounds.layersFrom_eq hlayered.length_le] at hrounds

/-! ### Paths -/

/-- A directed path: distinct nodes, each with an edge to the next. -/
structure IsPath (g : Graph ν ε) (p : List Nat) : Prop where
  lt_order : ∀ v ∈ p, v < g.order
  nodup : p.Nodup
  chain : p.IsChain g.Adj

/-- Some path with `n` edges ends at `v`. -/
def PathTo (g : Graph ν ε) (n v : Nat) : Prop :=
  ∃ p, g.IsPath p ∧ p.getLast? = some v ∧ p.length = n + 1

/-- In an acyclic graph one does not come back to a node by following edges. -/
theorem Acyclic.nodup_of_isChain (hg : g.Acyclic) {p : List Nat} (h : p.IsChain g.Adj) :
    p.Nodup := by
  have htrans : p.IsChain (TransGen g.Adj) := h.imp fun _ _ hadj ↦ .single hadj
  refine (List.isChain_iff_pairwise.1 htrans).imp fun {u v} huv heq ↦ ?_
  exact hg v (heq ▸ huv)

theorem pathTo_zero {v : Nat} (hv : v < g.order) : g.PathTo 0 v :=
  ⟨[v], ⟨by simpa using hv, List.nodup_singleton v, .singleton v⟩, rfl, rfl⟩

/-- A path can be prolonged by an edge. -/
theorem PathTo.append (hg : g.Acyclic) {n u v : Nat} (h : g.PathTo n u) (hadj : g.Adj u v) :
    g.PathTo (n + 1) v := by
  obtain ⟨p, hp, hlast, hlen⟩ := h
  have hchain : (p ++ [v]).IsChain g.Adj := by
    refine List.isChain_append.2 ⟨hp.chain, .singleton v, fun x hx y hy ↦ ?_⟩
    obtain rfl : u = x := Option.some.inj (hlast.symm.trans hx)
    obtain rfl : v = y := by simpa using hy
    exact hadj
  refine ⟨p ++ [v], ⟨fun w hw ↦ ?_, hg.nodup_of_isChain hchain, hchain⟩, by simp, by simp [hlen]⟩
  rcases List.mem_append.1 hw with hw | hw
  · exact hp.lt_order w hw
  · rw [List.mem_singleton.1 hw]
    exact hadj.target_lt

/-- A path with an edge can be cut before its last one. -/
theorem PathTo.exists_adj {n v : Nat} (h : g.PathTo (n + 1) v) : ∃ u, g.PathTo n u ∧ g.Adj u v := by
  obtain ⟨p, hp, hlast, hlen⟩ := h
  obtain ⟨q, rfl⟩ := List.getLast?_eq_some_iff.1 hlast
  have hq : q.length = n + 1 := by simpa using hlen
  have hne : q ≠ [] := List.length_pos_iff.1 (by omega)
  obtain ⟨u, hu⟩ : ∃ u, q.getLast? = some u := ⟨_, List.getLast?_eq_some_getLast hne⟩
  obtain ⟨hchain, -, hadj⟩ := List.isChain_append.1 hp.chain
  refine ⟨u, ⟨q, ⟨fun w hw ↦ ?_, hp.nodup.of_append_left, hchain⟩, hu, hq⟩, hadj u hu v rfl⟩
  exact hp.lt_order w (List.mem_append_left _ hw)

/-! ### The layer of a node -/

/-- The node `v` is in layer `k`. -/
def InLayer (layers : List (List Nat)) (k v : Nat) : Prop :=
  ∃ layer, layers[k]? = some layer ∧ v ∈ layer

namespace Layered

variable {layers : List (List Nat)} {k v : Nat}

/-- Layers have nodes only. -/
theorem lt_order_of_inLayer (h : Layered g [] layers) (hk : InLayer layers k v) : v < g.order := by
  obtain ⟨layer, hlayer, hv⟩ := hk
  exact h.lt_order layer (List.mem_of_getElem? hlayer) v hv

/-- Every node is in a layer. -/
theorem exists_inLayer (h : Layered g [] layers) (hv : v < g.order) : ∃ k, InLayer layers k v := by
  obtain ⟨layer, hlayer, hmem⟩ := List.mem_flatten.1 (h.mem_append_flatten v hv)
  obtain ⟨k, hk⟩ := List.mem_iff_getElem?.1 hlayer
  exact ⟨k, layer, hk, hmem⟩

/-- **A path with `k` edges ends at every node of layer `k`.** -/
theorem pathTo (hg : g.Acyclic) (h : Layered g [] layers) (hk : InLayer layers k v) :
    g.PathTo k v := by
  induction k generalizing v with
  | zero => exact pathTo_zero (h.lt_order_of_inLayer hk)
  | succ k ih =>
    obtain ⟨layer, hlayer, hv⟩ := hk
    obtain ⟨before, u, hbefore, hu, hadj⟩ := h.exists_adj_of_succ hlayer hv
    exact (ih ⟨before, hbefore, hu⟩).append hg hadj

/-- **No path with more than `k` edges ends at a node of layer `k`.** -/
theorem le_of_pathTo (h : Layered g [] layers) (hk : InLayer layers k v) {n : Nat}
    (hn : g.PathTo n v) : n ≤ k := by
  induction n generalizing k v with
  | zero => omega
  | succ n ih =>
    obtain ⟨u, hpath, hadj⟩ := hn.exists_adj
    obtain ⟨layer, hlayer, hv⟩ := hk
    obtain hdone | ⟨j, hj, hu⟩ := h.exists_lt_of_adj hlayer hv hadj
    · cases hdone
    · have hle := ih hu hpath
      omega

/-- **The layer of a node is the length of the longest path that ends at it.** -/
theorem inLayer_iff (hg : g.Acyclic) (h : Layered g [] layers) :
    InLayer layers k v ↔ IsGreatest {n | g.PathTo n v} k := by
  have hgreatest : ∀ j, InLayer layers j v → IsGreatest {n | g.PathTo n v} j := fun j hj ↦
    ⟨h.pathTo hg hj, fun n hn ↦ h.le_of_pathTo hj hn⟩
  refine ⟨hgreatest k, fun hk ↦ ?_⟩
  obtain ⟨p, hp, hlast, -⟩ := hk.1
  have hv : v < g.order := hp.lt_order v (List.mem_of_getLast? hlast)
  obtain ⟨j, hj⟩ := h.exists_inLayer hv
  rwa [hk.unique (hgreatest j hj)]

/-- The predecessors of a node come before it when the layers are read in order. -/
theorem mem_of_adj {done before after : List Nat} (h : Layered g done layers) {u : Nat}
    (hsplit : layers.flatten = before ++ v :: after) (hadj : g.Adj u v) : u ∈ done ++ before := by
  induction h generalizing before with
  | nil => simp at hsplit
  | @cons done layer rest _ _ mem_iff _ ih =>
    rw [List.flatten_cons] at hsplit
    rcases List.append_eq_append_iff.1 hsplit with
      ⟨middle, hbefore, hrest⟩ | ⟨middle, hlayer, hrest⟩
    · -- `v` is in a later layer
      have hu := ih hrest
      rwa [hbefore, ← List.append_assoc]
    · match middle with
      | [] =>
        have hu : u ∈ done ++ layer ++ [] := ih (by simpa using hrest.symm)
        simpa [hlayer] using hu
      | w :: middle =>
        obtain rfl : v = w := by simpa using congrArg List.head? hrest
        have hv : v ∈ layer := by simp [hlayer]
        exact List.mem_append_left _ (((mem_iff v).1 hv).2.2 u hadj)

/-- A node comes after the ones that it needs, in the order of layers. -/
theorem idxOf_lt_idxOf (h : Layered g [] layers) {u : Nat} (hadj : g.Adj u v) :
    layers.flatten.idxOf u < layers.flatten.idxOf v := by
  obtain ⟨before, after, hsplit, hnot⟩ :=
    List.eq_append_cons_of_mem (h.mem_append_flatten v hadj.target_lt)
  have hu : u ∈ before := h.mem_of_adj hsplit hadj
  have hlt := List.idxOf_lt_length_of_mem hu
  rw [List.nil_append] at hsplit
  rw [hsplit, List.idxOf_append_of_mem hu, List.idxOf_append_of_notMem hnot]
  omega

end Layered

/-- What it means that the nodes of a graph are laid out in layers by longest paths. -/
structure LaidOut (g : Graph ν ε) (layers : List (List Nat)) : Prop where
  existsUnique : ∀ v < g.order, ∃! k, InLayer layers k v
  longest : ∀ k v, InLayer layers k v ↔ IsGreatest {n | g.PathTo n v} k
  ne_nil : ∀ layer ∈ layers, layer ≠ []
  increasing : ∀ layer ∈ layers, layer.Pairwise (· < ·)

/-- **The layers of an acyclic graph are laid out by longest paths.** -/
theorem laidOut_layers (hg : g.Acyclic) : g.LaidOut g.tabulated.layers := by
  have hlayered := layered_layers hg
  refine ⟨fun v hv ↦ ?_, fun k v ↦ hlayered.inLayer_iff hg, hlayered.layer_ne_nil,
    hlayered.pairwise_layer⟩
  obtain ⟨k, hk⟩ := hlayered.exists_inLayer hv
  have hgreatest := (hlayered.inLayer_iff hg).1 hk
  exact ⟨k, hk, fun j hj ↦ ((hlayered.inLayer_iff hg).1 hj).unique hgreatest⟩

/-- **The layers of an accepted graph.** The loop that finds them ends. Every node is in exactly one
layer, in layer `k` if the longest path that ends at it has `k` edges; no layer is empty, and each
is in increasing order. Read one after the other they are an order of all nodes in which every edge
points forward. -/
theorem layers_of_finalize {a : AcyclicGraph ν ε} (h : g.finalize = .ok a) :
    a.Rounds a.sources a.degrees a.layers ∧ g.LaidOut a.layers ∧
      a.nodeOrder = a.layers.flatten ∧ a.nodeOrder.Perm (List.range g.order) ∧
      ∀ e ∈ g.edges, a.nodeOrder.idxOf e.source < a.nodeOrder.idxOf e.target := by
  obtain ⟨hg, rfl⟩ := finalize_eq_ok_iff.1 h
  refine ⟨rounds_layers hg, laidOut_layers hg, rfl, perm_flatten_layers hg, fun e he ↦ ?_⟩
  exact (layered_layers hg).idxOf_lt_idxOf ⟨e, he, rfl, rfl⟩

/-- The layer of a node is that of the longest path to it, although there is a shorter one. -/
theorem layers_of_finalize_detour : ∃ a, detour.finalize = .ok a ∧
    a.layers = [[2], [0], [1]] ∧ IsGreatest {n | detour.PathTo n 1} 2 ∧
    a.nodeOrder.Perm [0, 1, 2] := by
  have h : detour.finalize = .ok detour.tabulated := finalize_eq_ok_iff.2 ⟨by decide, rfl⟩
  have hlayers : detour.tabulated.layers = [[2], [0], [1]] := by decide +kernel
  obtain ⟨-, hlaidOut, -, hperm, -⟩ := layers_of_finalize h
  refine ⟨_, h, hlayers, (hlaidOut.longest 2 1).1 ⟨[1], ?_, List.mem_singleton_self 1⟩, hperm⟩
  rw [hlayers]
  rfl

end Graph

end Pipework
