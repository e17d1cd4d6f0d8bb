import FeatureTree.Node.Parts

/-!
A feature file as a JSON record. Every part is an object with its type and its line; raw elements
are left out.
-/

namespace FeatureTree

namespace Record

/-- An object of a type, with the line it was read from. -/
def located (type : String) (line : Option Nat) (fields : List (String × Json)) : Json :=
  .ofFields ([("type", .str type), ("source_line", .ofOption .nat line)] ++ fields)

def tag (t : Tag) : Json := located "tag" t.line [("name", .text t.name)]

def tags (ts : List Tag) : Json := .arr (ts.map tag)

def cell (c : Cell) : Json := located "cell" c.line [("value", .text c.value)]

def row (r : Row) : Json := located "row" r.line [("cells", .arr (r.cells.map cell))]

def rows (rs : List Row) : Json := .arr (rs.map row)

def block : Block → Json
  | .table t => located "table" t.line [("rows", rows t.rows)]
  | .docString d => located "doc_string" d.line
    [("content_type", .ofOption .text d.contentType), ("content", .text d.content)]

def step (s : Step) : Json :=
  located "step" s.line
    [("keyword", .text s.keyword), ("text", .text s.text), ("block", .ofOption block s.block)]

def steps (ss : List Step) : Json := .arr (ss.map step)

/-- The fields of anything with a keyword and a name. -/
def named (keyword name description : Text) : List (String × Json) :=
  [("keyword", .text keyword), ("name", .text name), ("description", .text description)]

def background (b : Background) : Json :=
  located "background" b.line (named b.keyword b.name b.description ++ [("steps", steps b.steps)])

def examples (x : Examples) : Json :=
  located "example" x.line
    (named x.keyword x.name x.description ++ [("tags", tags x.tags), ("rows", rows x.rows)])

def test : Test → Json
  | .scenario s => located "scenario" s.line
    (named s.keyword s.name s.description ++ [("tags", tags s.tags), ("steps", steps s.steps)])
  | .outline o => located "outline" o.line
    (named o.keyword o.name o.description ++ [("tags", tags o.tags), ("steps", steps o.steps),
      ("examples", .arr (o.examples.map examples))])

def feature (f : Feature) : Json :=
  located "feature" f.line
    (named f.keyword f.name f.description ++ [("tags", tags f.tags),
      ("background", .ofOption background f.background), ("tests", .arr (f.tests.map test))])

def comment (c : Comment) : Json := located "comment" c.line [("text", .text c.text)]

end Record

/-- The record of a file. A file as such has no line, and without a path an empty one. -/
def FeatureFile.record (f : FeatureFile) : Json :=
  .ofFields [("type", .str "feature_file"), ("path", .text (f.path.getD [])),
    ("feature", .ofOption Record.feature f.feature),
    ("comments", .arr (f.comments.map Record.comment))]

end FeatureTree
