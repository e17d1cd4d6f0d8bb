import FeatureTree.Node.Parts

/-!
Parts without the raw elements they were read from, and with every line put through a function.
The identity keeps the lines, and a constant function leaves only what the parts say.
-/

namespace FeatureTree

variable (g : Option Nat → Option Nat)

def Cell.relined (c : Cell) : Cell := { line := g c.line, value := c.value }

def Row.relined (r : Row) : Row := { line := g r.line, cells := r.cells.map (Cell.relined g) }

def Table.relined (t : Table) : Table := { line := g t.line, rows := t.rows.map (Row.relined g) }

def DocString.relined (d : DocString) : DocString :=
  { line := g d.line, contentType := d.contentType, content := d.content }

def Block.relined : Block → Block
  | .table t => .table (t.relined g)
  | .docString d => .docString (d.relined g)

def Tag.relined (t : Tag) : Tag := { line := g t.line, name := t.name }

def Step.relined (s : Step) : Step :=
  { line := g s.line, keyword := s.keyword, text := s.text, block := s.block.map (Block.relined g) }

def Background.relined (b : Background) : Background :=
  { line := g b.line, keyword := b.keyword, name := b.name, description := b.description,
    steps := b.steps.map (Step.relined g) }

def Scenario.relined (s : Scenario) : Scenario :=
  { line := g s.line, keyword := s.keyword, name := s.name, description := s.description,
    tags := s.tags.map (Tag.relined g), steps := s.steps.map (Step.relined g) }

def Examples.relined (x : Examples) : Examples :=
  { line := g x.line, keyword := x.keyword, name := x.name, description := x.description,
    tags := x.tags.map (Tag.relined g), rows := x.rows.map (Row.relined g) }

def Outline.relined (o : Outline) : Outline :=
  { line := g o.line, keyword := o.keyword, name := o.name, description := o.description,
    tags := o.tags.map (Tag.relined g), steps := o.steps.map (Step.relined g),
    examples := o.examples.map (Examples.relined g) }

def Test.relined : Test → Test
  | .scenario s => .scenario (s.relined g)
  | .outline o => .outline (o.relined g)

def Feature.relined (f : Feature) : Feature :=
  { line := g f.line, keyword := f.keyword, name := f.name, description := f.description,
    tags := f.tags.map (Tag.relined g), background := f.background.map (Background.relined g),
    tests := f.tests.map (Test.relined g) }

def Comment.relined (c : Comment) : Comment := { line := g c.line, text := c.text }

def FeatureFile.relined (f : FeatureFile) : FeatureFile :=
  { path := f.path, feature := f.feature.map (Feature.relined g),
    comments := f.comments.map (Comment.relined g) }

def Directory.relined (d : Directory) : Directory :=
  { path := d.path, featureFiles := d.featureFiles.map (FeatureFile.relined g) }

end FeatureTree
