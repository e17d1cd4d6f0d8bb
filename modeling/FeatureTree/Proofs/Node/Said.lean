import Mathlib.Tactic.Common
import FeatureTree.Node.Render
import FeatureTree.Proofs.Node.Relined
import FeatureTree.Proofs.Node.Skeleton

/-!
What parts say is all that rendering and sameness look at: neither sees lines or raw elements.
-/

namespace FeatureTree

variable (g : Option Nat → Option Nat)

/-! ### Rendering -/

@[simp] lemma Row.values_relined (r : Row) : (r.relined g).values = r.values := by
  simp [Row.values, Row.relined, Cell.relined, Function.comp_def]

@[simp] lemma Table.linesOfRows_relined (rs : List Row) :
    Table.linesOfRows (rs.map (Row.relined g)) = Table.linesOfRows rs := by
  simp [Table.linesOfRows, Function.comp_def]

@[simp] lemma Block.lines_relined (b : Block) : (b.relined g).lines = b.lines := by
  cases b with
  | table t => exact Table.linesOfRows_relined g t.rows
  | docString d => rfl

@[simp] lemma Step.lines_relined (s : Step) : (s.relined g).lines = s.lines := by
  cases hb : s.block <;> simp [Step.lines, Step.relined, hb]

@[simp] lemma Step.flatMap_lines_relined (ss : List Step) :
    (ss.map (Step.relined g)).flatMap Step.lines = ss.flatMap Step.lines := by
  simp [List.flatMap_map]

@[simp] lemma Render.tagLine_relined (ts : List Tag) :
    Render.tagLine (ts.map (Tag.relined g)) = Render.tagLine ts := by
  simp [Render.tagLine, Tag.relined, Function.comp_def]

@[simp] lemma Background.lines_relined (b : Background) : (b.relined g).lines = b.lines := by
  simp [Background.lines, Background.relined]

@[simp] lemma Examples.lines_relined (x : Examples) : (x.relined g).lines = x.lines := by
  simp [Examples.lines, Examples.relined, Render.header]

@[simp] lemma Test.lines_relined (t : Test) : (t.relined g).lines = t.lines := by
  cases t with
  | scenario s =>
    simp [Test.relined, Test.lines, Scenario.lines, Scenario.relined, Render.header]
  | outline o =>
    simp [Test.relined, Test.lines, Outline.lines, Outline.relined, Render.header,
      List.flatMap_map]

lemma Feature.lines_relined (f : Feature) : (f.relined g).lines = f.lines := by
  cases hb : f.background <;>
    simp [Feature.lines, Feature.relined, Render.header, Function.comp_def, hb]

/-! ### Sameness -/

@[simp] lemma Row.bare_relined (r : Row) : (r.relined g).bare = r.bare := by
  simp [Row.bare, Row.relined, Cell.bare, Cell.relined, Function.comp_def]

@[simp] lemma Block.bare_relined (b : Block) : (b.relined g).bare = b.bare := by
  cases b <;>
    simp [Block.bare, Block.relined, Table.bare, Table.relined, DocString.bare, DocString.relined,
      Function.comp_def]

@[simp] lemma Step.bare_relined (s : Step) : (s.relined g).bare = s.bare := by
  simp [Step.bare, Step.relined, Function.comp_def]

@[simp] lemma Background.bare_relined (b : Background) : (b.relined g).bare = b.bare := by
  simp [Background.bare, Background.relined, Function.comp_def]

@[simp] lemma Test.bare_relined (t : Test) : (t.relined g).bare = t.bare := by
  cases t <;>
    simp [Test.bare, Test.relined, Scenario.bare, Scenario.relined, Outline.bare, Outline.relined,
      Function.comp_def]

lemma Feature.bare_relined (f : Feature) : (f.relined g).bare = f.bare := by
  simp [Feature.bare, Feature.relined, Tag.bare, Tag.relined, Function.comp_def]

/-- Nodes with the same lines and the same bare parts are rendered alike and are the same. -/
lemma Node.alike_of_bare {a b : Node} (hlines : a.lines = b.lines) (hbare : a.bare = b.bare) :
    a.render = b.render ∧ a.same b = true := by
  refine ⟨congrArg Text.joinLines hlines, ?_⟩
  rw [Node.same_iff_skeleton, ← Node.skeleton_bare, hbare, Node.skeleton_bare]

/-- Features that say the same are rendered alike and are the same. -/
lemma Feature.alike_of_relined {a b : Feature} (h : a.relined g = b.relined g) :
    Node.render (.feature a) = Node.render (.feature b)
      ∧ Node.same (.feature a) (.feature b) = true := by
  refine Node.alike_of_bare ?_ (congrArg Node.feature ?_)
  · change a.lines = b.lines
    rw [← lines_relined g a, h, lines_relined g b]
  · rw [← bare_relined g a, h, bare_relined g b]

lemma Table.alike_of_relined {a b : Table} (h : a.relined g = b.relined g) :
    Node.render (.table a) = Node.render (.table b) ∧ Node.same (.table a) (.table b) = true := by
  have hblock : (Block.table a).relined g = (Block.table b).relined g := congrArg Block.table h
  refine Node.alike_of_bare ?_ (congrArg Node.table ?_)
  · change (Block.table a).lines = (Block.table b).lines
    rw [← Block.lines_relined g, hblock, Block.lines_relined g]
  · have hbare : (Block.table a).bare = (Block.table b).bare := by
      rw [← Block.bare_relined g, hblock, Block.bare_relined g]
    exact Block.table.inj hbare

lemma Row.alike_of_relined {a b : Row} (h : a.relined g = b.relined g) :
    Node.render (.row a) = Node.render (.row b) ∧ Node.same (.row a) (.row b) = true := by
  refine Node.alike_of_bare ?_ (congrArg Node.row ?_)
  · change Table.linesOfRows [a] = Table.linesOfRows [b]
    rw [← Table.linesOfRows_relined g, List.map_singleton, h, ← List.map_singleton (f := Row.relined g),
      Table.linesOfRows_relined g]
  · rw [← bare_relined g a, h, bare_relined g b]

end FeatureTree
