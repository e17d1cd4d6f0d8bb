import FeatureTree.Shape.Basic

/-!
Documents before they are written down, and their four written forms.

A draft has the parts of a feature file as an author knows them: keywords, names and texts as they
were typed, tables as rows of values, an outline with its first examples and perhaps more. Each
form has its own keys for them, and `Draft.Feature.feature` is what all four mean.
-/

namespace FeatureTree

/-- The JSON forms in which a document is handed on. -/
inductive Form where
  | version2 | version3 | version4 | messages

/-- What the shape of a form is called. -/
def Form.shape : Form → String
  | version2 => "gherkin2"
  | version3 => "gherkin3"
  | version4 => "gherkin4"
  | messages => "messages"

/-- The object with those of the fields that have a value. -/
def Json.object (fs : List (String × Option Json)) : Json :=
  .ofFields (fs.filterMap fun f => f.2.map (f.1, ·))

/-- The list of what is written for each item. -/
def Json.listOf (w : α → Json) (xs : List α) : Json := .arr (xs.map w)

namespace Draft

structure Row where
  line : Option Nat
  values : List Text

structure Doc where
  line : Option Nat
  contentType : Option Text
  content : Text

/-- What a step may be given: a table or a doc string. -/
inductive Argument where
  | table (rows : List Row)
  | doc (d : Doc)

structure Step where
  line : Option Nat
  keyword : Text
  text : Text
  argument : Option Argument

structure Tag where
  line : Option Nat
  name : Text

/-- How a feature and each of its sections begins. -/
structure Head where
  line : Option Nat
  keyword : Text
  name : Text
  description : Text

structure Background where
  head : Head
  steps : List Step

/-- Examples with a header row, if there is one, and the rows below it. -/
structure Examples where
  head : Head
  tags : List Tag
  header : Option Row
  body : List Row

structure Scenario where
  head : Head
  tags : List Tag
  steps : List Step

/-- A scenario, or an outline with its first examples and those after them. -/
inductive Test where
  | scenario (s : Scenario)
  | outline (s : Scenario) (first : Examples) (more : List Examples)

structure Feature where
  head : Head
  tags : List Tag
  background : Option Background
  tests : List Test

/-! ### What a draft means -/

/-- The cells of a row have no line but that of the row. -/
def Row.row (r : Row) : FeatureTree.Row where
  line := r.line
  cells := r.values.map fun v => { line := r.line, value := v }

/-- The line of the first row. -/
def firstLine (rs : List Row) : Option Nat := rs.head?.bind Row.line

def Argument.block : Argument → Block
  | .table rs => .table { line := firstLine rs, rows := rs.map Row.row }
  | .doc d => .docString
    { line := d.line, contentType := d.contentType.bind Text.trimmed?, content := d.content }

def Step.step (s : Step) : FeatureTree.Step where
  line := s.line
  keyword := Text.trim s.keyword
  text := Text.trim s.text
  block := s.argument.map Argument.block

def Tag.tag (t : Tag) : FeatureTree.Tag where
  line := t.line
  name := Text.tagName t.name

def Background.background (b : Background) : FeatureTree.Background where
  line := b.head.line
  keyword := Text.trim b.head.keyword
  name := Text.trim b.head.name
  description := Text.normalise b.head.description
  steps := b.steps.map Step.step

def Examples.examples (x : Examples) : FeatureTree.Examples where
  line := x.head.line
  keyword := Text.trim x.head.keyword
  name := Text.trim x.head.name
  description := Text.normalise x.head.description
  tags := x.tags.map Tag.tag
  rows := (x.header.toList ++ x.body).map Row.row

def Test.test : Test → FeatureTree.Test
  | .scenario s => .scenario
    { line := s.head.line, keyword := Text.trim s.head.keyword, name := Text.trim s.head.name,
      description := Text.normalise s.head.description, tags := s.tags.map Tag.tag,
      steps := s.steps.map Step.step }
  | .outline s first more => .outline
    { line := s.head.line, keyword := Text.trim s.head.keyword, name := Text.trim s.head.name,
      description := Text.normalise s.head.description, tags := s.tags.map Tag.tag,
      steps := s.steps.map Step.step, examples := (first :: more).map Examples.examples }

def Feature.feature (f : Feature) : FeatureTree.Feature where
  line := f.head.line
  keyword := Text.trim f.head.keyword
  name := Text.trim f.head.name
  description := Text.normalise f.head.description
  tags := f.tags.map Tag.tag
  background := f.background.map Background.background
  tests := f.tests.map Test.test

/-! ### The written forms -/

/-- Version 2 puts a line into its node, the others into a location. -/
def place (form : Form) (line : Option Nat) : List (String × Option Json) :=
  match form with
  | .version2 => [("line", line.map .nat)]
  | _ => [("location", line.map fun n => .object [("line", some (.nat n))])]

/-- In version 2 a cell is its value, in the others an object with it. -/
def writeCell (form : Form) (v : Text) : Json :=
  match form with
  | .version2 => .text v
  | _ => .object [("value", some (.text v))]

def Row.write (form : Form) (r : Row) : Json :=
  .object (place form r.line ++ [("cells", some (.listOf (writeCell form) r.values))])

/-- The rows of a table, which is on the line of its first row. -/
def writeTable (form : Form) (rs : List Row) : List (String × Option Json) :=
  place form (firstLine rs) ++ [("rows", some (.listOf (Row.write form) rs))]

/-- The content of a doc string and its type, under the keys of a form. -/
def Doc.fields (form : Form) (content contentType : String) (d : Doc) :
    List (String × Option Json) :=
  place form d.line ++
    [(content, some (.text d.content)), (contentType, d.contentType.map .text)]

/-- The field of a step that holds its argument. -/
def Argument.field (form : Form) (a : Argument) : String × Option Json :=
  match form, a with
  | .version2, .table rs => ("rows", some (.listOf (Row.write .version2) rs))
  | .version2, .doc d =>
    ("doc_string", some (.object (d.fields .version2 "value" "content_type")))
  | .messages, .table rs => ("dataTable", some (.object (writeTable .messages rs)))
  | .messages, .doc d =>
    ("docString", some (.object (d.fields .messages "content" "mediaType")))
  | _, .table rs =>
    ("argument", some (.object (writeTable form rs ++ [("type", some (.str "DataTable"))])))
  | _, .doc d =>
    ("argument", some (.object
      (d.fields form "content" "contentType" ++ [("type", some (.str "DocString"))])))

/-- The key of the text of a step. -/
def textKey : Form → String
  | .version2 => "name"
  | _ => "text"

def Step.write (form : Form) (s : Step) : Json :=
  .object (place form s.line ++ [("keyword", some (.text s.keyword)),
    (textKey form, some (.text s.text))] ++ (s.argument.map (Argument.field form)).toList)

def Tag.write (form : Form) (t : Tag) : Json :=
  .object (place form t.line ++ [("name", some (.text t.name))])

def Head.fields (form : Form) (h : Head) : List (String × Option Json) :=
  place form h.line ++ [("keyword", some (.text h.keyword)), ("name", some (.text h.name)),
    ("description", some (.text h.description))]

def tagsField (form : Form) (ts : List Tag) : String × Option Json :=
  ("tags", some (.listOf (Tag.write form) ts))

def stepsField (form : Form) (ss : List Step) : String × Option Json :=
  ("steps", some (.listOf (Step.write form) ss))

/-- Version 2 writes the header as the first of the rows, the others write it apart. -/
def Examples.rowFields (form : Form) (x : Examples) : List (String × Option Json) :=
  match form with
  | .version2 => [("rows", some (.listOf (Row.write form) (x.header.toList ++ x.body)))]
  | _ => [("tableHeader", x.header.map (Row.write form)),
    ("tableBody", some (.listOf (Row.write form) x.body))]

def Examples.write (form : Form) (x : Examples) : Json :=
  .object (x.head.fields form ++ tagsField form x.tags :: x.rowFields form)

inductive Section where
  | background | scenario | outline

/-- The word for a background, a scenario or an outline; messages go without. -/
def typeField (form : Form) (kind : Section) : String × Option Json :=
  ("type", match form, kind with
    | .version2, .background => some (.str "background")
    | .version2, .scenario => some (.str "scenario")
    | .version2, .outline => some (.str "scenario_outline")
    | .messages, _ => none
    | _, .background => some (.str "Background")
    | _, .scenario => some (.str "Scenario")
    | _, .outline => some (.str "ScenarioOutline"))

def Background.write (form : Form) (b : Background) : Json :=
  .object (b.head.fields form ++ [typeField form .background, stepsField form b.steps])

def Test.write (form : Form) : Test → Json
  | .scenario s => .object (s.head.fields form ++
    [typeField form .scenario, tagsField form s.tags, stepsField form s.steps])
  | .outline s first more => .object (s.head.fields form ++
    [typeField form .outline, tagsField form s.tags, stepsField form s.steps,
      ("examples", some (.listOf (Examples.write form) (first :: more)))])

/-- What stands below a feature. -/
inductive Child where
  | background (b : Background)
  | test (t : Test)

/-- The background, if there is one, and the tests. -/
def Feature.children (f : Feature) : List Child :=
  f.background.toList.map .background ++ f.tests.map .test

/-- Messages say by a key what a child is, the others by its type. -/
def Child.write (form : Form) : Child → Json
  | .background b => wrap "background" (b.write form)
  | .test t => wrap "scenario" (t.write form)
where
  wrap (key : String) (v : Json) : Json :=
    match form with
    | .messages => .object [(key, some v)]
    | _ => v

/-- The fields of a feature that hold its background and its tests. -/
def Feature.partFields (form : Form) (f : Feature) : List (String × Option Json) :=
  match form with
  | .version2 => [("elements", some (.listOf (Child.write form) f.children))]
  | .version3 => [("type", some (.str "Feature")),
    ("background", f.background.map (Background.write form)),
    ("scenarioDefinitions", some (.listOf (Test.write form) f.tests))]
  | .version4 => [("type", some (.str "Feature")), ("children", some (.listOf (Child.write form) f.children))]
  | .messages => [("children", some (.listOf (Child.write form) f.children))]

def Feature.write (form : Form) (f : Feature) : Json :=
  .object (f.head.fields form ++ tagsField form f.tags :: f.partFields form)

/-- The document of a feature. -/
def Feature.document (form : Form) (f : Feature) : Json :=
  match form with
  | .version2 => .arr [f.write form]
  | .version3 => f.write form
  | .version4 => .object [("type", some (.str "GherkinDocument")), ("feature", some (f.write form))]
  | .messages => .object [("gherkinDocument", some (.object [("feature", some (f.write form))]))]

end Draft

end FeatureTree
