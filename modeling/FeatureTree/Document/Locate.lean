import FeatureTree.Error
import FeatureTree.Grammar.Tree
import FeatureTree.Node.Parts
import FeatureTree.Source.Comments
import FeatureTree.Source.DocString
import FeatureTree.Source.Rows
import FeatureTree.Text.Layout

/-!
From the tree of the grammar to the parts of a file.

The tree says where an element starts and what it holds. The lines of tags, rows and comments, the
escapes in cells and the fences of doc strings are read again from the text. Where the text does
not bear the tree out, the values of the tree stand and have no line.
-/

namespace FeatureTree

/-- The text that a tree belongs to. Its first lines may be a shell around what was asked for;
lines are counted after them, and a line of the shell is no line. -/
structure Frame where
  source : Source
  shell : Nat := 0

namespace Frame

/-- A line of the source as it is reported. -/
def relative (fr : Frame) (line : Nat) : Option Nat :=
  if fr.shell < line then some (line - fr.shell) else none

/-- The line of the keyword of an element. -/
def keywordLine (fr : Frame) (span : Grammar.Span) : Nat :=
  fr.source.keywordLine (fr.source.lineOf span.start)

end Frame

namespace Locate

open Grammar (Span Position)

def rawSpan (s : Span) : Json := .obj [("end", .nat s.stop), ("start", .nat s.start)]

def rawPosition (p : Position) : Json := .obj [("col", .nat p.column), ("line", .nat p.line)]

/-- The raw element of anything with a keyword and a name. -/
def rawNode (type : String) (keyword name description : Text) (s : Span) (p : Position) : Json :=
  .obj [("description", .text description), ("keyword", .text keyword), ("name", .text name),
    ("position", rawPosition p), ("span", rawSpan s), ("type", .str type)]

/-- The tags of a tree, each at the line of a tag of its name above the keyword. -/
def tags (fr : Frame) (names : List Text) (keywordLine : Nat) : List Tag :=
  let lines := Source.assign (names.map Text.tagName) (fr.source.tagsAbove keywordLine)
  (names.zip lines).map fun (n, l) => ⟨l.bind fr.relative, Text.tagName n, some (.text n)⟩

/-- A row with values, by the cells of the tree. -/
def row (line : Option Nat) (values parsed : List Text) : Row :=
  let raws := parsed.map fun c => Json.text (Cells.unmask c)
  ⟨line, (values.zip raws).map fun (v, r) => ⟨line, v, some r⟩, some (.arr raws)⟩

/-- The rows of a table. They are read from the source if there are as many there, with as many
cells in each. -/
def rows (fr : Frame) (t : Grammar.Table) : List Row :=
  let first := fr.source.lineOf t.span.start
  let found := (fr.source.rows? first t.rows.length).filter fun rs =>
    (rs.zip t.rows).all fun (r, parsed) => r.value.length == parsed.length
  match found with
  | some rs =>
    (rs.zip t.rows).map fun (r, parsed) => row (fr.relative r.line) r.value parsed
  | none => t.rows.map fun parsed => row none (parsed.map Cells.resolve) parsed

def table (fr : Frame) (t : Grammar.Table) : Table :=
  let rs := rows fr t
  ⟨rs.head?.bind Row.line, rs, some (.obj
    [("position", rawPosition t.position), ("span", rawSpan t.span), ("type", .str "DataTable")])⟩

/-- The doc string of a step, read from the source if it is there. -/
def docString (fr : Frame) (stepLine : Nat) (body : Text) : DocString :=
  match fr.source.docString? stepLine with
  | some d => ⟨fr.relative d.line, d.value.contentType, d.value.content, some (.text body)⟩
  | none => ⟨none, none, body, some (.text body)⟩

/-- The block of a step: its table, or else its doc string. -/
def block (fr : Frame) (stepLine : Nat) (s : Grammar.Step) : Option Block :=
  match s.table with
  | some t => some (.table (table fr t))
  | none => s.docString.map fun body => .docString (docString fr stepLine body)

def step (fr : Frame) (s : Grammar.Step) : Step :=
  let line := fr.source.lineOf s.span.start
  ⟨fr.relative line, Text.trim s.keyword, Text.trim s.value, block fr line s, some (.obj
    [("keyword", .text s.keyword), ("position", rawPosition s.position),
      ("span", rawSpan s.span), ("step_type", .text s.type.name), ("type", .str "Step"),
      ("value", .text s.value)])⟩

def background (fr : Frame) (b : Grammar.Background) : Background :=
  ⟨fr.relative (fr.keywordLine b.span), Text.trim b.keyword, Text.trim b.name,
    Text.normalise b.description, b.steps.map (step fr),
    some (rawNode "Background" b.keyword b.name b.description b.span b.position)⟩

def examples (fr : Frame) (x : Grammar.Examples) : Examples :=
  let line := fr.keywordLine x.span
  ⟨fr.relative line, Text.trim x.keyword, Text.trim x.name, Text.normalise x.description,
    tags fr x.tags line, (x.table.map (rows fr)).getD [],
    some (rawNode "Examples" x.keyword x.name x.description x.span x.position)⟩

/-- Whether a text has a part, in whatever case its letters from A to Z are. -/
def mentions (part : Text) : Text → Bool
  | [] => part.isEmpty
  | c :: t => part.isPrefixOf ((c :: t).map Char.toLower) || mentions part t

/-- An outline has examples, or else a keyword that says so. -/
def isOutline (s : Grammar.Scenario) : Bool :=
  !s.examples.isEmpty || mentions "outline".toList s.keyword
    || mentions "template".toList s.keyword

def test (fr : Frame) (s : Grammar.Scenario) : Test :=
  let line := fr.keywordLine s.span
  let raw (type : String) := rawNode type s.keyword s.name s.description s.span s.position
  if isOutline s then
    .outline ⟨fr.relative line, Text.trim s.keyword, Text.trim s.name,
      Text.normalise s.description, tags fr s.tags line, s.steps.map (step fr),
      s.examples.map (examples fr), some (raw "ScenarioOutline")⟩
  else
    .scenario ⟨fr.relative line, Text.trim s.keyword, Text.trim s.name,
      Text.normalise s.description, tags fr s.tags line, s.steps.map (step fr),
      some (raw "Scenario")⟩

/-- A feature. Rules are no part of it. -/
def feature (fr : Frame) (f : Grammar.Feature) : Except Error Feature :=
  if f.rules.isEmpty then
    let line := fr.keywordLine f.span
    .ok ⟨fr.relative line, Text.trim f.keyword, Text.trim f.name, Text.normalise f.description,
      tags fr f.tags line, f.background.map (background fr), f.scenarios.map (test fr),
      some (rawNode "Feature" f.keyword f.name f.description f.span f.position)⟩
  else .error (.unknownElementType "Rule".toList)

def comments (fr : Frame) : List Comment :=
  fr.source.comments.map fun c => ⟨fr.relative c.line, c.value, some (.text c.value)⟩

/-- The path of a file, if it has one. -/
def path? (file : Text) : Option Text := if file.isEmpty then none else some file

/-- A file with the feature of a tree, if there is one. -/
def file (fr : Frame) (name : Text) (f : Option Grammar.Feature) : Except Error FeatureFile := do
  let feature ← match f with
    | some f => some <$> feature fr f
    | none => .ok none
  return ⟨path? name, feature, comments fr, none⟩

end Locate

end FeatureTree
