import FeatureTree.Node.Basic

/-!
A cursor is a node together with the nodes above it, nearest first.

The walk through what lies below a cursor keeps a forest of cursors that are still to be visited.
Each turn visits the first of them and puts its children in its place, so the nodes come out
parent first and in child order.
-/

namespace FeatureTree

structure Cursor where
  node : Node
  above : List Node

namespace Cursor

/-- At the top of a tree. -/
def root (n : Node) : Cursor := ⟨n, []⟩

def children (c : Cursor) : List Cursor := c.node.children.map (⟨·, c.node :: c.above⟩)

def depth (c : Cursor) : Nat := c.above.length

def parent? (c : Cursor) : Option Node := c.above.head?

/-- The number of nodes in a forest. -/
def work (forest : List Cursor) : Nat := total (forest.map fun c => c.node.size)

theorem work_children_lt (c : Cursor) (forest : List Cursor) :
    work (c.children ++ forest) < work (c :: forest) := by
  have h := c.node.size_eq
  have e : (fun c : Cursor => c.node.size) ∘ (fun n => (⟨n, c.node :: c.above⟩ : Cursor))
      = Node.size := rfl
  simp only [work, children, List.map_append, List.map_map, total_append, List.map_cons,
    total_cons, e]
  omega

/-- All cursors of a forest, each before those below it. -/
def walk : List Cursor → List Cursor
  | [] => []
  | c :: forest => c :: walk (c.children ++ forest)
termination_by forest => work forest
decreasing_by exact work_children_lt c forest

/-- All that lies below a cursor. -/
def descendants (c : Cursor) : List Cursor := walk c.children

/-- The first descendant that a query accepts. -/
def find? (q : Query) (c : Cursor) : Option Cursor :=
  c.descendants.find? fun d => q.accepts d.node.kind

/-- The nearest node above the cursor that a query accepts. -/
def ancestor? (q : Query) (c : Cursor) : Option Node :=
  c.above.find? fun n => q.accepts n.kind

/-- The cursor that a path of child positions leads to. -/
def descend? : List Nat → Cursor → Option Cursor
  | [], c => some c
  | i :: is, c => c.children[i]?.bind (descend? is)

end Cursor

end FeatureTree
