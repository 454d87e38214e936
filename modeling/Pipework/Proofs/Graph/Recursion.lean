import Pipework.Proofs.Graph.Search

/-!
# The stack carries out the recursion

`Graph.searchCycle` visits nodes by recursion; `Graph.findCycle` keeps the visits that have not
returned on a stack, each with the number of its edges that have been followed. The two go along
with each other in every state of the search, not only in what they report in the end.

`Carried` says how. In the recursion the edges that are left at the current node are followed by a
fold over them, with the nodes of the stack as the path. On the stack, steps come back to the entry
of this node with all its edges followed and with the marks in which the fold results; or they come
to an edge that closes the cycle with which the fold ends. What lies below the entry does not
matter, since the steps do not touch it, and with nothing below one has the search from a root.

* `Search.Valid.carried`: this holds in every valid state. The induction is on `Search.work`, since
  the length of the run is not known beforehand: a visit in the middle of the fold comes back with
  less work left, and there the induction goes on.
* Depth is needed only for nodes that are not on the stack, so that the number of nodes is enough.
-/

open Relation

namespace Pipework.Graph

variable {ν ε : Type} {g : Graph ν ε}

/-! ### Steps -/

namespace Search

/-- One step leads from a state to another. -/
def Next (g : Graph ν ε) (s s' : Search) : Prop :=
  g.step s = .running s'

section Next

variable {marks : Marks} {v k w : Nat}

/-- A target that is done is passed. -/
theorem next_of_done (hw : (g.targets v)[k]? = some w) (hmark : marks.get w = .done)
    (below : List (Nat × Nat)) :
    Next g ⟨marks, (v, k) :: below⟩ ⟨marks, (v, k + 1) :: below⟩ := by
  simp [Next, step, hw, hmark]

/-- A target that has not been visited is entered. -/
theorem next_of_unvisited (hw : (g.targets v)[k]? = some w) (hmark : marks.get w = .unvisited)
    (below : List (Nat × Nat)) :
    Next g ⟨marks, (v, k) :: below⟩
      ⟨marks.set w .inProgress, (w, 0) :: (v, k + 1) :: below⟩ := by
  simp [Next, step, hw, hmark]

/-- A node without a target left is left. -/
theorem next_leave (below : List (Nat × Nat)) :
    Next g ⟨marks, (v, (g.targets v).length) :: below⟩ ⟨marks.set v .done, below⟩ := by
  simp [Next, step]

end Next

/-- The path from the root to the current node. -/
def path (stack : List (Nat × Nat)) : List Nat :=
  (stack.map Prod.fst).reverse

theorem path_cons (v k : Nat) (stack : List (Nat × Nat)) :
    path ((v, k) :: stack) = path stack ++ [v] := by
  simp [path]

/-- What the steps from a state come to: the given stack with the marks of the result, or an edge
that closes the cycle of the result. -/
def Returns (g : Graph ν ε) (s : Search) (stack : List (Nat × Nat)) :
    Except (List Nat) Marks → Prop
  | .ok marks => ReflTransGen (Next g) s ⟨marks, stack⟩
  | .error c => ∃ s', ReflTransGen (Next g) s s' ∧ g.step s' = .cycle c

variable {s s' : Search} {stack : List (Nat × Nat)} {result : Except (List Nat) Marks}

/-- A run that starts with some steps returns what it returns after them. -/
theorem Returns.of_steps (h : Returns g s' stack result) (hs : ReflTransGen (Next g) s s') :
    Returns g s stack result := by
  match result, h with
  | .ok _, hsteps => exact hs.trans hsteps
  | .error _, ⟨t, hsteps, hcycle⟩ => exact ⟨t, hs.trans hsteps, hcycle⟩

namespace Valid

/-- A step keeps a state valid. -/
theorem next (h : s.Valid g) (hs : Next g s s') : s'.Valid g := by
  have hstep := h.step
  rw [show g.step s = .running s' from hs] at hstep
  exact hstep.1

/-- The stack holds no more nodes than there are. -/
theorem length_stack_le (h : s.Valid g) : s.stack.length ≤ g.order := by
  have hsub : s.stack.map Prod.fst ⊆ List.range g.order := by
    intro v hv
    have hlt : v < s.marks.length :=
      Marks.lt_length_of_get (by simp [(h.mem_stack_iff v).1 hv])
    exact List.mem_range.2 (h.length_marks ▸ hlt)
  simpa using (List.subperm_of_subset h.nodup hsub).length_le

/-- Steps keep a state valid, and leave no more work. -/
theorem steps (h : s.Valid g) (hs : ReflTransGen (Next g) s s') :
    s'.Valid g ∧ s'.work g ≤ s.work g := by
  induction hs with
  | refl => exact ⟨h, Nat.le_refl _⟩
  | tail _ hnext ih =>
    obtain ⟨hvalid, hle⟩ := ih
    have hlt := hvalid.work_lt hnext
    exact ⟨hvalid.next hnext, by omega⟩

/-- A run with enough steps passes through every state to which steps lead, and has a step left
there. -/
theorem exists_run_eq {fuel : Nat} (h : s.Valid g) (hs : ReflTransGen (Next g) s s')
    (hfuel : s.work g < fuel) : ∃ left, g.run fuel s = g.run (left + 1) s' := by
  have hleft : ∃ left, s'.work g < left ∧ g.run fuel s = g.run left s' := by
    induction hs with
    | refl => exact ⟨fuel, hfuel, rfl⟩
    | @tail t u hsteps hnext ih =>
      obtain ⟨left, hleft, hrun⟩ := ih
      have hlt := (h.steps hsteps).1.work_lt hnext
      obtain ⟨n, rfl⟩ : ∃ n, left = n + 1 := ⟨left - 1, by omega⟩
      refine ⟨n, by omega, hrun.trans ?_⟩
      rw [Graph.run, show g.step t = .running u from hnext]
  obtain ⟨left, hlt, hrun⟩ := hleft
  exact ⟨left - 1, by rwa [Nat.sub_add_cancel (by omega)]⟩

/-- **A run ends in what its steps come to.** -/
theorem run_eq {fuel : Nat} (h : s.Valid g) (hs : Returns g s [] result)
    (hfuel : s.work g < fuel) : g.run fuel s = result := by
  match result, hs with
  | .ok marks, hsteps =>
    obtain ⟨left, hrun⟩ := h.exists_run_eq hsteps hfuel
    rw [hrun]
    rfl
  | .error c, ⟨t, hsteps, hcycle⟩ =>
    obtain ⟨left, hrun⟩ := h.exists_run_eq hsteps hfuel
    rw [hrun, Graph.run, hcycle]

end Valid

end Search

/-! ### Visits -/

/-- A cycle is closed by the part of the path from its first node on. -/
theorem closeCycle_eq_dropWhile {path : List Nat} {w : Nat} (hw : w ∈ path) :
    closeCycle path w = path.dropWhile (· != w) ++ [w] := by
  obtain ⟨before, after, rfl, hnot⟩ := List.eq_append_cons_of_mem hw
  have hbefore : ∀ x ∈ before, (x != w) = true := fun x hx ↦ by
    simpa using fun heq : x = w ↦ hnot (heq ▸ hx)
  rw [closeCycle_append hnot, List.dropWhile_append_of_pos hbefore,
    List.dropWhile_cons_of_neg (by simp)]

section Fold

variable {f : Marks → Nat → ExceptT (List Nat) Option Marks} {marks marks' : Marks} {w : Nat}
  {ws c : List Nat}

/-- Nodes are dealt with one after the other, the marks being handed on. -/
theorem run_foldlM_cons_ok (h : (f marks w).run = some (.ok marks')) :
    ((w :: ws).foldlM f marks).run = (ws.foldlM f marks').run := by
  rw [List.foldlM_cons, ExceptT.run_bind, h]
  rfl

/-- A cycle ends the search. -/
theorem run_foldlM_cons_error (h : (f marks w).run = some (.error c)) :
    ((w :: ws).foldlM f marks).run = some (.error c) := by
  rw [List.foldlM_cons, ExceptT.run_bind, h]
  rfl

end Fold

/-- The steps carry out the recursion at the node on top of the stack: following the edges that are
left has a result, and the steps come back to the node, all its edges followed, with this result. -/
def Carried (g : Graph ν ε) (depth : Nat) (marks : Marks) (v k : Nat) (below : List (Nat × Nat)) :
    Prop :=
  ∃ result, (((g.targets v).drop k).foldlM
      (follow (g.visit depth) (Search.path ((v, k) :: below))) marks).run = some result ∧
    Search.Returns g ⟨marks, (v, k) :: below⟩ ((v, (g.targets v).length) :: below) result

section Carried

variable {depth v k w : Nat} {marks : Marks} {below stack : List (Nat × Nat)}

/-- **A visit** enters a node, follows its edges, and leaves it to the stack below. -/
theorem Carried.exists_visit (h : g.Carried depth (marks.set v .inProgress) v 0 stack) :
    ∃ result, (g.visit (depth + 1) (Search.path stack ++ [v]) v marks).run = some result ∧
      Search.Returns g ⟨marks.set v .inProgress, (v, 0) :: stack⟩ stack result := by
  obtain ⟨result, hcall, hreturns⟩ := h
  rw [Search.path_cons, List.drop_zero] at hcall
  rw [visit, ExceptT.run_bind, hcall]
  match result, hreturns with
  | .ok marks', hsteps =>
    exact ⟨.ok (marks'.set v .done), rfl, hsteps.tail (Search.next_leave stack)⟩
  | .error c, hcycle => exact ⟨.error c, rfl, hcycle⟩

/-- With no edge left there is nothing to do. -/
theorem carried_length : g.Carried depth marks v (g.targets v).length below := by
  rw [Carried, List.drop_length]
  exact ⟨.ok marks, rfl, .refl⟩

/-- The targets from a number on begin with the one that has the number. -/
theorem drop_targets (hw : (g.targets v)[k]? = some w) :
    (g.targets v).drop k = w :: (g.targets v).drop (k + 1) := by
  obtain ⟨hk, hget⟩ := List.getElem?_eq_some_iff.1 hw
  rw [List.drop_eq_getElem_cons hk, hget]

/-- An edge to a node that is done is passed over. -/
theorem Carried.of_done (hw : (g.targets v)[k]? = some w) (hmark : marks.get w = .done)
    (h : g.Carried depth marks v (k + 1) below) : g.Carried depth marks v k below := by
  have hnext := Search.next_of_done hw hmark below
  have hfollow : (follow (g.visit depth) (Search.path ((v, k) :: below)) marks w).run =
      some (.ok marks) := by
    rw [follow, hmark]
    rfl
  obtain ⟨result, hcall, hreturns⟩ := h
  rw [Carried, drop_targets hw, run_foldlM_cons_ok hfollow]
  exact ⟨result, hcall, hreturns.of_steps (.single hnext)⟩

/-- An edge to a node in progress closes a cycle. The node is on the path, so that both searches
find it there. -/
theorem carried_of_inProgress (h : Search.Valid g ⟨marks, (v, k) :: below⟩)
    (hw : (g.targets v)[k]? = some w) (hmark : marks.get w = .inProgress) :
    g.Carried depth marks v k below := by
  have hmem : w ∈ Search.path ((v, k) :: below) :=
    List.mem_reverse.2 ((h.mem_stack_iff w).2 hmark)
  have hfollow : (follow (g.visit depth) (Search.path ((v, k) :: below)) marks w).run =
      some (.error (closeCycle (Search.path ((v, k) :: below)) w)) := by
    rw [follow, hmark, closeCycle_eq_dropWhile hmem]
    rfl
  rw [Carried, drop_targets hw]
  refine ⟨_, run_foldlM_cons_error hfollow, _, .refl, ?_⟩
  simp [step, hw, hmark, Search.path]

/-- At an edge to a node that has not been visited the node is visited, and the other edges are
followed with the marks that the visit leaves. -/
theorem Carried.of_unvisited (hw : (g.targets v)[k]? = some w) (hmark : marks.get w = .unvisited)
    (hvisit : g.Carried depth (marks.set w .inProgress) w 0 ((v, k + 1) :: below))
    (hrest : ∀ marks', ReflTransGen (Search.Next g)
      ⟨marks.set w .inProgress, (w, 0) :: (v, k + 1) :: below⟩ ⟨marks', (v, k + 1) :: below⟩ →
        g.Carried (depth + 1) marks' v (k + 1) below) :
    g.Carried (depth + 1) marks v k below := by
  have hnext := Search.next_of_unvisited hw hmark below
  obtain ⟨result, hcall, hreturns⟩ := hvisit.exists_visit
  have hfollow : (follow (g.visit (depth + 1)) (Search.path ((v, k) :: below)) marks w).run =
      some result := by
    rw [follow, hmark]
    exact hcall
  rw [Carried, drop_targets hw]
  match result, hreturns with
  | .ok marks', hsteps =>
    obtain ⟨result, hcall, hreturns⟩ := hrest marks' hsteps
    rw [run_foldlM_cons_ok hfollow]
    exact ⟨result, hcall, hreturns.of_steps (.head hnext hsteps)⟩
  | .error c, ⟨t, hsteps, hcycle⟩ =>
    exact ⟨.error c, run_foldlM_cons_error hfollow, t, .head hnext hsteps, hcycle⟩

/-- **The steps carry out the recursion**, if there is enough depth for all nodes that are not on
the stack. -/
theorem Search.Valid.carried (h : Search.Valid g ⟨marks, (v, k) :: below⟩)
    (hdepth : g.order ≤ depth + ((v, k) :: below).length) : g.Carried depth marks v k below := by
  -- The induction is on the work that is left, of which a visit in between leaves less.
  induction hn : work g ⟨marks, (v, k) :: below⟩ using Nat.strong_induction_on
    generalizing depth marks v k below with
  | _ n ih =>
    subst hn
    rcases hw : (g.targets v)[k]? with - | w
    · obtain rfl : k = (g.targets v).length :=
        Nat.le_antisymm h.followed.1 (List.getElem?_eq_none_iff.1 hw)
      exact carried_length
    · rcases hmark : marks.get w with - | - | -
      · have hnext := next_of_unvisited hw hmark below
        have henter := h.next hnext
        have hlt := h.work_lt hnext
        have hlen := henter.length_stack_le
        simp only [List.length_cons] at hdepth hlen
        obtain ⟨depth, rfl⟩ : ∃ d, depth = d + 1 := ⟨depth - 1, by omega⟩
        refine .of_unvisited hw hmark (ih _ hlt henter ?_ rfl) fun marks' hsteps ↦ ?_
        · simp only [List.length_cons]
          omega
        · obtain ⟨hvalid, hle⟩ := henter.steps hsteps
          exact ih _ (by omega) hvalid hdepth rfl
      · exact carried_of_inProgress h hw hmark
      · have hnext := next_of_done hw hmark below
        exact .of_done hw hmark (ih _ (h.work_lt hnext) (h.next hnext) hdepth rfl)

end Carried

/-! ### Roots -/

/-- **A visit of a root** is a search from it. -/
theorem run_visitRoot {depth : Nat} {marks : Marks} {root : Nat} (h : Search.Valid g ⟨marks, []⟩)
    (hroot : root < g.order) (hdepth : g.order ≤ depth) :
    (g.visitRoot depth marks root).run = some (g.searchFrom marks root) := by
  by_cases hmark : marks.get root = .unvisited
  · have hstart := h.start hroot hmark
    obtain ⟨depth, rfl⟩ : ∃ d, depth = d + 1 := ⟨depth - 1, by omega⟩
    obtain ⟨result, hvisit, hreturns⟩ := (hstart.carried hdepth).exists_visit
    have hrun := hstart.run_eq hreturns (h.work_start_lt hroot hmark)
    rw [visitRoot, if_pos hmark, searchFrom, if_pos hmark, hrun]
    exact hvisit
  · rw [visitRoot, if_neg hmark, searchFrom, if_neg hmark]
    rfl

/-- **Visits of several roots**, the marks being handed on. -/
theorem run_foldlM_visitRoot {depth : Nat} {roots : List Nat} {marks : Marks}
    (h : Search.Valid g ⟨marks, []⟩) (hroots : ∀ r ∈ roots, r < g.order)
    (hdepth : g.order ≤ depth) :
    (roots.foldlM (g.visitRoot depth) marks).run = some (roots.foldlM g.searchFrom marks) := by
  induction roots generalizing marks with
  | nil => rfl
  | cons r roots ih =>
    have hr := hroots r List.mem_cons_self
    have hends := ends_searchFrom h hr
    have hvisit := run_visitRoot h hr hdepth
    rcases hsearch : g.searchFrom marks r with c | marks'
    · rw [hsearch] at hvisit
      rw [run_foldlM_cons_error hvisit, List.foldlM_cons, hsearch]
      rfl
    · rw [hsearch] at hvisit hends
      rw [run_foldlM_cons_ok hvisit, List.foldlM_cons, hsearch]
      exact ih hends.1 fun x hx ↦ hroots x (List.mem_cons_of_mem _ hx)

/-- **The stack finds what the recursion finds.** Visits are never nested deeper than there are
nodes: with that depth, and with any larger one, the recursive search comes to its end, and it
reports the same first cycle, or none. -/
theorem searchCycle_eq_findCycle (g : Graph ν ε) (n : Nat) :
    g.searchCycle (g.order + n) = some g.findCycle := by
  have hroots := run_foldlM_visitRoot (g := g) Search.valid_unvisited
    (fun _ hr ↦ List.mem_range.1 hr) (Nat.le_add_right g.order n)
  rw [searchCycle, hroots, findCycle]
  rcases (List.range g.order).foldlM g.searchFrom g.unvisited with c | marks
  · rfl
  · rfl

end Pipework.Graph
