import Pipework.Graph.Basic

/-!
# Searching a graph for a cycle

`Graph.findCycle` follows the edges of a graph depth first, with the path from the root to the
current node on a stack. A node is in progress while it is on the stack and done when all its edges
have been followed. An edge to a node in progress closes a cycle. Roots are tried in node order and
edges followed in the order in which they were added, so the cycle found is determined by the graph.

`Graph.searchCycle` is the same search written as a recursion: to visit a node is to visit, in turn,
the nodes to which its edges lead. A recursion that is cut short has no result.
-/

namespace Pipework.Graph

variable {ν ε : Type}

/-- How far the search has come with a node. -/
inductive Mark where
  | unvisited
  | inProgress
  | done
deriving DecidableEq, Repr, Inhabited

/-- The marks of all nodes. -/
abbrev Marks := List Mark

/-- The mark of a node. -/
def Marks.get (marks : Marks) (v : Nat) : Mark :=
  marks.getD v .unvisited

/-! ### The search with a stack -/

/-- A state of the search. The stack has the current node on top; with each node stands the number
of its edges that have been followed. -/
structure Search where
  marks : Marks
  stack : List (Nat × Nat)
deriving DecidableEq, Repr

/-- What a step of the search leads to. -/
inductive Search.Outcome where
  /-- The search goes on. -/
  | running (state : Search)
  /-- The stack is empty. -/
  | finished (marks : Marks)
  /-- An edge closes a cycle. -/
  | cycle (nodes : List Nat)
deriving DecidableEq, Repr

/-- The part of the path that begins at `v`, and `v` again. -/
def closeCycle (path : List Nat) (v : Nat) : List Nat :=
  path.drop ((path.findIdx? (· == v)).getD 0) ++ [v]

/-- Follows one edge of the current node, or leaves the node if all have been followed. -/
def step (g : Graph ν ε) (s : Search) : Search.Outcome :=
  match s.stack with
  | [] => .finished s.marks
  | (v, followed) :: below =>
    match (g.targets v)[followed]? with
    | none => .running ⟨s.marks.set v .done, below⟩
    | some w =>
      let stack := (v, followed + 1) :: below
      match s.marks.get w with
      | .done => .running ⟨s.marks, stack⟩
      | .unvisited => .running ⟨s.marks.set w .inProgress, (w, 0) :: stack⟩
      | .inProgress => .cycle (closeCycle (stack.map Prod.fst).reverse w)

/-- Takes steps until a cycle is found or the stack is empty. -/
def run (g : Graph ν ε) : (fuel : Nat) → Search → Except (List Nat) Marks
  | 0, s => .ok s.marks
  | fuel + 1, s =>
    match g.step s with
    | .running s => g.run fuel s
    | .finished marks => .ok marks
    | .cycle nodes => .error nodes

/-- A bound on the number of steps from one root: every edge is followed at most once, and every
node left at most once. -/
def stepBound (g : Graph ν ε) : Nat :=
  g.size + g.order + 1

/-- Searches from one root, unless it has been visited. -/
def searchFrom (g : Graph ν ε) (marks : Marks) (root : Nat) : Except (List Nat) Marks :=
  if marks.get root = .unvisited then
    g.run g.stepBound ⟨marks.set root .inProgress, [(root, 0)]⟩
  else .ok marks

/-- No node has been visited. -/
def unvisited (g : Graph ν ε) : Marks :=
  List.replicate g.order .unvisited

/-- The first cycle found, its first node repeated at the end. -/
def findCycle (g : Graph ν ε) : Option (List Nat) :=
  match (List.range g.order).foldlM g.searchFrom g.unvisited with
  | .ok _ => none
  | .error nodes => some nodes

/-! ### The search as a recursion -/

/-- Follows an edge from the end of `path` to the node `w`, given how to visit a node. An edge to a
node in progress ends the search with the part of the path that begins at `w`, and `w` again. -/
def follow (visit : List Nat → Nat → Marks → ExceptT (List Nat) Option Marks) (path : List Nat)
    (marks : Marks) (w : Nat) : ExceptT (List Nat) Option Marks :=
  match marks.get w with
  | .done => return marks
  | .inProgress => throw (path.dropWhile (· != w) ++ [w])
  | .unvisited => visit (path ++ [w]) w marks

/-- Visits a node that is reached by `path`, which ends in it. The node is in progress while its
edges are followed, and done afterwards. There is no result if the visit would lead to more nested
visits than `depth` allows. -/
def visit (g : Graph ν ε) : (depth : Nat) → (path : List Nat) → Nat → Marks →
    ExceptT (List Nat) Option Marks
  | 0, _, _, _ => ExceptT.mk none
  | depth + 1, path, v, marks => do
    let marks ← (g.targets v).foldlM (follow (g.visit depth) path) (marks.set v .inProgress)
    return marks.set v .done

/-- Visits a root, unless it has been visited. -/
def visitRoot (g : Graph ν ε) (depth : Nat) (marks : Marks) (root : Nat) :
    ExceptT (List Nat) Option Marks :=
  if marks.get root = .unvisited then g.visit depth [root] root marks else return marks

/-- The first cycle found by the recursive search, if `depth` allows for its nested visits. -/
def searchCycle (g : Graph ν ε) (depth : Nat) : Option (Option (List Nat)) := do
  match ← ((List.range g.order).foldlM (g.visitRoot depth) g.unvisited).run with
  | .ok _ => return none
  | .error nodes => return some nodes

end Pipework.Graph
