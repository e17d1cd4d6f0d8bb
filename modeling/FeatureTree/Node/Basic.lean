import FeatureTree.Node.Parts

/-!
A node is any part of the tree, from a directory down to a cell. Each node has a kind and ordered
children, and a child is always of a lower rank than its parent, so that recursion over the tree
ends.
-/

namespace FeatureTree

inductive Kind where
  | directory | featureFile | feature | background | scenario | outline | examples | step
  | table | row | cell | docString | tag | comment
  deriving DecidableEq

/-- Groups of kinds. -/
inductive Category where
  | test | stepContainer
  deriving DecidableEq

def Kind.categories : Kind → List Category
  | .background => [.stepContainer]
  | .scenario => [.test, .stepContainer]
  | .outline => [.test, .stepContainer]
  | _ => []

/-- What to look for: one kind, or any kind of a category. -/
inductive Query where
  | kind (k : Kind)
  | category (c : Category)
  deriving DecidableEq

def Query.accepts : Query → Kind → Bool
  | .kind k, k' => k == k'
  | .category c, k => k.categories.contains c

inductive Node where
  | directory (d : Directory)
  | featureFile (f : FeatureFile)
  | feature (f : Feature)
  | background (b : Background)
  | scenario (s : Scenario)
  | outline (o : Outline)
  | examples (x : Examples)
  | step (s : Step)
  | table (t : Table)
  | row (r : Row)
  | cell (c : Cell)
  | docString (d : DocString)
  | tag (t : Tag)
  | comment (c : Comment)
  deriving Inhabited

def Block.node : Block → Node
  | .table t => .table t
  | .docString d => .docString d

def Test.node : Test → Node
  | .scenario s => .scenario s
  | .outline o => .outline o

namespace Node

def kind : Node → Kind
  | directory _ => .directory
  | featureFile _ => .featureFile
  | feature _ => .feature
  | background _ => .background
  | scenario _ => .scenario
  | outline _ => .outline
  | examples _ => .examples
  | step _ => .step
  | table _ => .table
  | row _ => .row
  | cell _ => .cell
  | docString _ => .docString
  | tag _ => .tag
  | comment _ => .comment

def line : Node → Option Nat
  | directory _ => none
  | featureFile _ => none
  | feature f => f.line
  | background b => b.line
  | scenario s => s.line
  | outline o => o.line
  | examples x => x.line
  | step s => s.line
  | table t => t.line
  | row r => r.line
  | cell c => c.line
  | docString d => d.line
  | tag t => t.line
  | comment c => c.line

def raw : Node → Option Json
  | directory _ => none
  | featureFile f => f.raw
  | feature f => f.raw
  | background b => b.raw
  | scenario s => s.raw
  | outline o => o.raw
  | examples x => x.raw
  | step s => s.raw
  | table t => t.raw
  | row r => r.raw
  | cell c => c.raw
  | docString d => d.raw
  | tag t => t.raw
  | comment c => c.raw

/-- The children of a node in order. Tags come first, and the comments of a file are no children
of it. -/
def children : Node → List Node
  | directory d => d.featureFiles.map featureFile
  | featureFile f => f.feature.toList.map feature
  | feature f =>
    f.tags.map tag ++ f.background.toList.map background ++ f.tests.map Test.node
  | background b => b.steps.map step
  | scenario s => s.tags.map tag ++ s.steps.map step
  | outline o => o.tags.map tag ++ o.steps.map step ++ o.examples.map examples
  | examples x => x.tags.map tag ++ x.rows.map row
  | step s => s.block.toList.map Block.node
  | table t => t.rows.map row
  | row r => r.cells.map cell
  | cell _ => []
  | docString _ => []
  | tag _ => []
  | comment _ => []

/-- The steps of a background, a scenario or an outline. -/
def steps? : Node → Option (List Step)
  | background b => some b.steps
  | scenario s => some s.steps
  | outline o => some o.steps
  | _ => none

/-- How high a node stands above the leaves. -/
def rank : Node → Nat
  | directory _ => 7
  | featureFile _ => 6
  | feature _ => 5
  | background _ => 4
  | scenario _ => 4
  | outline _ => 4
  | examples _ => 3
  | step _ => 3
  | table _ => 2
  | row _ => 1
  | cell _ => 0
  | docString _ => 0
  | tag _ => 0
  | comment _ => 0

theorem rank_lt_of_mem_children {n c : Node} (h : c ∈ n.children) : c.rank < n.rank := by
  cases n <;> simp only [children, List.mem_append, List.mem_map, List.not_mem_nil] at h
  case feature f =>
    rcases h with (⟨_, _, rfl⟩ | ⟨_, _, rfl⟩) | ⟨t, _, rfl⟩
    · simp [rank]
    · simp [rank]
    · cases t <;> simp [Test.node, rank]
  case outline o => rcases h with (⟨_, _, rfl⟩ | ⟨_, _, rfl⟩) | ⟨_, _, rfl⟩ <;> simp [rank]
  case scenario s => rcases h with ⟨_, _, rfl⟩ | ⟨_, _, rfl⟩ <;> simp [rank]
  case examples x => rcases h with ⟨_, _, rfl⟩ | ⟨_, _, rfl⟩ <;> simp [rank]
  case step s =>
    obtain ⟨b, _, rfl⟩ := h
    cases b <;> simp [Block.node, rank]
  all_goals
    obtain ⟨_, _, rfl⟩ := h
    simp [rank]

/-- The number of nodes of a tree. -/
def size (n : Node) : Nat := 1 + total (n.children.attach.map fun c => c.1.size)
termination_by n.rank
decreasing_by exact rank_lt_of_mem_children c.2

theorem size_eq (n : Node) : n.size = 1 + total (n.children.map size) := by
  rw [size]
  simp

/-- The node that a path of child positions leads to. -/
def descend? : List Nat → Node → Option Node
  | [], n => some n
  | i :: is, n => n.children[i]?.bind (descend? is)

end Node

end FeatureTree
