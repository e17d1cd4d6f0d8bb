import Mathlib.Tactic.Common
import FeatureTree.Node.Same

/-!
Sameness is equality of skeletons.

The skeleton of a node keeps what the node says and the order of what stands below it. It forgets
which of the three kinds a step container is, and with it everything that a container has besides
its steps. So sameness is an equivalence, also between containers of different kinds, and does not
see what a skeleton has no place for.
-/

namespace FeatureTree

/-- What sameness sees of a node. -/
inductive Skeleton where
  | cell (value : Text)
  | docString (content : Text)
  | tag (name : Text)
  | comment (text : Text)
  | step (text : Text) (block : Option Skeleton)
  | steps (ss : List Skeleton)
  | other (kind : Kind) (children : List Skeleton)

/-! ### Parts without what sameness does not see -/

def Cell.bare (c : Cell) : Cell := { value := c.value }

def Row.bare (r : Row) : Row := { cells := r.cells.map Cell.bare }

def Table.bare (t : Table) : Table := { rows := t.rows.map Row.bare }

def DocString.bare (d : DocString) : DocString := { content := d.content }

def Block.bare : Block → Block
  | .table t => .table t.bare
  | .docString d => .docString d.bare

def Tag.bare (t : Tag) : Tag := { name := t.name }

def Step.bare (s : Step) : Step := { text := s.text, block := s.block.map Block.bare }

def Background.bare (b : Background) : Background := { steps := b.steps.map Step.bare }

/-- The tags of a step container are not seen. -/
def Scenario.bare (s : Scenario) : Scenario := { steps := s.steps.map Step.bare }

/-- Neither are the examples of an outline. -/
def Outline.bare (o : Outline) : Outline := { steps := o.steps.map Step.bare }

def Examples.bare (x : Examples) : Examples :=
  { tags := x.tags.map Tag.bare, rows := x.rows.map Row.bare }

def Test.bare : Test → Test
  | .scenario s => .scenario s.bare
  | .outline o => .outline o.bare

def Feature.bare (f : Feature) : Feature :=
  { tags := f.tags.map Tag.bare, background := f.background.map Background.bare,
    tests := f.tests.map Test.bare }

/-- The comments of a file are not compared, and neither is its path. -/
def FeatureFile.bare (f : FeatureFile) : FeatureFile := { feature := f.feature.map Feature.bare }

def Directory.bare (d : Directory) : Directory :=
  { featureFiles := d.featureFiles.map FeatureFile.bare }

namespace Node

def bare : Node → Node
  | directory d => .directory d.bare
  | featureFile f => .featureFile f.bare
  | feature f => .feature f.bare
  | background b => .background b.bare
  | scenario s => .scenario s.bare
  | outline o => .outline o.bare
  | examples x => .examples x.bare
  | step s => .step s.bare
  | table t => .table t.bare
  | row r => .row r.bare
  | cell c => .cell c.bare
  | docString d => .docString d.bare
  | tag t => .tag t.bare
  | comment c => .comment { text := c.text }

/-- The skeleton of a node. Cells, doc strings, tags and comments are what they say, a step is its
text and its block, a step container is the list of its steps, and any other node is its kind and
the list of its children. -/
def skeleton : Node → Skeleton
  | cell c => .cell c.value
  | docString d => .docString d.content
  | tag t => .tag t.name
  | comment c => .comment c.text
  | step s => .step s.text (s.block.map fun b => skeleton b.node)
  | background b => .steps (b.steps.map fun s => skeleton (.step s))
  | scenario c => .steps (c.steps.map fun s => skeleton (.step s))
  | outline o => .steps (o.steps.map fun s => skeleton (.step s))
  | n => .other n.kind (n.children.attach.map fun c => skeleton c.1)
termination_by n => n.rank
decreasing_by
  · cases b <;> simp [Block.node, rank]
  · simp [rank]
  · simp [rank]
  · simp [rank]
  · exact rank_lt_of_mem_children c.2

end Node

/-! ### Skeletons level by level -/

namespace Skeleton

/-- A skeleton without its branches. -/
def root : Skeleton → Skeleton
  | step t _ => .step t none
  | steps _ => .steps []
  | other k _ => .other k []
  | leaf => leaf

/-- What stands below the root of a skeleton. -/
def branches : Skeleton → List Skeleton
  | step _ b => b.toList
  | steps ss => ss
  | other _ cs => cs
  | _ => []

lemma eq_iff (s t : Skeleton) : s = t ↔ s.root = t.root ∧ s.branches = t.branches := by
  constructor
  · rintro rfl
    exact ⟨rfl, rfl⟩
  · rintro ⟨hroot, hbranches⟩
    cases s with
    | step u b =>
      cases t with
      | step v c => cases b <;> cases c <;> simp_all [root, branches]
      | _ => simp [root] at hroot
    | _ => cases t <;> simp_all [root, branches]

end Skeleton

namespace Node

/-- What a node says itself, as a skeleton without branches. -/
def said : Node → Skeleton
  | cell c => .cell c.value
  | docString d => .docString d.content
  | tag t => .tag t.name
  | comment c => .comment c.text
  | step s => .step s.text none
  | background _ => .steps []
  | scenario _ => .steps []
  | outline _ => .steps []
  | n => .other n.kind []

lemma root_skeleton (n : Node) : n.skeleton.root = n.said := by
  rw [skeleton.eq_def]
  cases n <;> rfl

lemma branches_skeleton (n : Node) : n.skeleton.branches = n.compared.map skeleton := by
  rw [skeleton.eq_def]
  cases n with
  | step s => cases hb : s.block <;> simp [Skeleton.branches, compared, steps?, children, hb]
  | _ => simp [Skeleton.branches, compared, steps?, children]

lemma comparable_iff (a b : Node) : comparable a b = true ↔ a.said = b.said := by
  cases a <;> cases b <;> simp [comparable, alike, steps?, said, kind]

/-- Nodes have one skeleton when they say the same themselves and so do those below them. -/
lemma skeleton_eq_iff (a b : Node) :
    a.skeleton = b.skeleton
      ↔ comparable a b = true ∧ a.compared.map skeleton = b.compared.map skeleton := by
  rw [Skeleton.eq_iff, root_skeleton, root_skeleton, branches_skeleton, branches_skeleton,
    comparable_iff]

lemma pairwise_iff_map_eq {r : α → α → Bool} {φ : α → β} {as bs : List α}
    (h : ∀ a ∈ as, ∀ b, r a b = true ↔ φ a = φ b) :
    pairwise r as bs = true ↔ as.map φ = bs.map φ := by
  induction as generalizing bs with
  | nil => cases bs <;> simp [pairwise]
  | cons a as ih =>
    cases bs with
    | nil => simp [pairwise]
    | cons b bs =>
      rw [pairwise, Bool.and_eq_true, h a (by simp), ih fun c hc => h c (by simp [hc]),
        List.map_cons, List.map_cons, List.cons.injEq]

/-- Sameness goes down the tree as equality of skeletons does. -/
lemma same_iff_skeleton (a b : Node) : same a b = true ↔ a.skeleton = b.skeleton := by
  induction hn : a.rank using Nat.strongRecOn generalizing a b with
  | ind n ih =>
    have hbelow : ∀ x ∈ a.compared, ∀ y, same x y = true ↔ x.skeleton = y.skeleton := by
      intro x hx y
      have hlt := rank_lt_of_mem_children (mem_children_of_mem_compared hx)
      exact ih x.rank (hn ▸ hlt) x y rfl
    rw [same_eq, Bool.and_eq_true, pairwise_iff_map_eq hbelow, skeleton_eq_iff]

/-! ### What a skeleton has no place for -/

lemma compared_bare (n : Node) : n.bare.compared = n.compared.map bare := by
  cases n with
  | featureFile f =>
    cases hf : f.feature <;> simp [compared, steps?, children, bare, FeatureFile.bare, hf]
  | feature f =>
    have htest : ∀ t : Test, t.bare.node = t.node.bare := fun t => by cases t <;> rfl
    cases hb : f.background <;>
      simp [compared, steps?, children, bare, Feature.bare, hb, htest, Function.comp_def]
  | step s =>
    have hblock : ∀ b : Block, b.bare.node = b.node.bare := fun b => by cases b <;> rfl
    cases hb : s.block <;> simp [compared, steps?, children, bare, Step.bare, hb, hblock]
  | _ =>
    simp [compared, steps?, children, bare, Directory.bare, Background.bare, Scenario.bare,
      Outline.bare, Examples.bare, Table.bare, Row.bare, Function.comp_def]

lemma said_bare (n : Node) : n.bare.said = n.said := by
  cases n <;> rfl

/-- The skeleton of a node is that of its bare parts. -/
lemma skeleton_bare (n : Node) : n.bare.skeleton = n.skeleton := by
  induction hn : n.rank using Nat.strongRecOn generalizing n with
  | ind k ih =>
    rw [Skeleton.eq_iff, root_skeleton, root_skeleton, branches_skeleton, branches_skeleton,
      said_bare, compared_bare, List.map_map]
    refine ⟨rfl, List.map_congr_left fun c hc => ?_⟩
    have hlt := rank_lt_of_mem_children (mem_children_of_mem_compared hc)
    exact ih c.rank (hn ▸ hlt) c rfl

/-- **Sameness is equality of skeletons.** It is therefore an equivalence of nodes of all kinds,
and nodes that differ only in what their skeletons have no place for can stand for one another. -/
theorem same_is_skeleton_equality :
    (∀ a b : Node, same a b = true ↔ a.skeleton = b.skeleton)
      ∧ Equivalence (fun a b : Node => same a b = true)
      ∧ ∀ a a' b b' : Node, a.bare = a'.bare → b.bare = b'.bare → same a b = same a' b' := by
  refine ⟨same_iff_skeleton, ⟨fun a => ?_, fun {a b} h => ?_, fun {a b c} h₁ h₂ => ?_⟩, ?_⟩
  · exact (same_iff_skeleton a a).mpr rfl
  · exact (same_iff_skeleton b a).mpr ((same_iff_skeleton a b).mp h).symm
  · have h₃ := ((same_iff_skeleton a b).mp h₁).trans ((same_iff_skeleton b c).mp h₂)
    exact (same_iff_skeleton a c).mpr h₃
  · intro a a' b b' ha hb
    have ha' : a.skeleton = a'.skeleton := by rw [← skeleton_bare a, ha, skeleton_bare]
    have hb' : b.skeleton = b'.skeleton := by rw [← skeleton_bare b, hb, skeleton_bare]
    rw [Bool.eq_iff_iff, same_iff_skeleton, same_iff_skeleton, ha', hb']

end Node

end FeatureTree
