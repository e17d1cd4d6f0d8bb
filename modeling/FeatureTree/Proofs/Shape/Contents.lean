import Mathlib.Data.List.Forall2
import FeatureTree.Proofs.Shape.Draft

/-!
What a JSON document holds, in each of its forms.

A form says where the feature of a document is, which nodes below it are sections, and where a step
has its table or its doc string. A node that must be of some type and is of none that the form knows
is a stranger. A file keeps what a document holds if it has a part for each of its nodes, in order
and with the same texts.
-/

namespace FeatureTree

namespace Form

/-- A document of this form. -/
def parsed : Form → Json → Parsed
  | version2, v => .version2 v
  | version3, v => .version3 v
  | version4, v => .version4 v
  | messages, v => .messages v

/-- The feature of a document: the first of a list, the document itself, or one that it holds. -/
def feature? : Form → Json → Option Json
  | version2, v => v.items.head?
  | version3, v => some v
  | _, v => v.present? "feature"

/-- Version 3 keeps the background of a feature apart. -/
def background? : Form → Json → Option Json
  | version3, f => f.present? "background"
  | _, _ => none

/-- The children of a feature, which must be sections. -/
def children : Form → Json → List Json
  | version2, f => f.itemsAt "elements"
  | version3, f => f.itemsAt "scenarioDefinitions"
  | _, f => f.itemsAt "children"

/-! ### Sections and strangers -/

/-- The types that sections have. -/
def types : Form → List (String × Draft.Section)
  | version2 =>
    [("background", .background), ("scenario", .scenario), ("scenario_outline", .outline)]
  | version3 => [("Scenario", .scenario), ("ScenarioOutline", .outline)]
  | version4 =>
    [("Background", .background), ("Scenario", .scenario), ("ScenarioOutline", .outline)]
  | messages => []

/-- What kind of section a child is, and the node that holds it. In messages the first key of the
child says so, and a scenario with examples is an outline. -/
def section? : Form → Json → Option (Draft.Section × Json)
  | messages, v =>
    match v with
    | .obj (("background", b) :: _) => some (.background, b)
    | .obj (("scenario", s) :: _) =>
      some (if (s.itemsAt "examples").isEmpty then .scenario else .outline, s)
    | _ => none
  | form, v => (v.strAt? "type" >>= (form.types.lookup ·)).map (·, v)

/-- The type of a node that has to be one of some, if it is none of them. -/
def strangeType? (known : List String) (v : Json) : Option Text :=
  match v.strAt? "type" with
  | some s => if s ∈ known then none else some s.toList
  | none => some "<missing type>".toList

/-- The word by which a child is no section. -/
def strangeChild? : Form → Json → Option Text
  | messages, v =>
    match v with
    | .obj ((key, _) :: _) =>
      if key = "background" ∨ key = "scenario" then none
      else some (if key = "rule" then "Rule".toList else key.toList)
    | _ => some "<empty child>".toList
  | form, v => strangeType? (form.types.map Prod.fst) v

/-- The strange arguments of the steps below a node. Versions 3 and 4 give an argument a type. -/
def strangeArguments : Form → Json → List Text
  | version2, _ => []
  | messages, _ => []
  | _, v => ((v.itemsAt "steps").filterMap (·.present? "argument")).filterMap
    (strangeType? ["DataTable", "DocString"])

/-- The strangers of a child in the order in which they are met: its arguments come before its own
type, unless that is missing in version 4. -/
def strangersOfChild (form : Form) (v : Json) : List Text :=
  match form, v.strAt? "type" with
  | version4, none => (form.strangeChild? v).toList ++ form.strangeArguments v
  | _, _ => form.strangeArguments v ++ (form.strangeChild? v).toList

/-- The strangers of a document in the order in which they are met. -/
def strangers (form : Form) (v : Json) : List Text :=
  (form.feature? v).toList.flatMap fun f =>
    (form.background? f).toList.flatMap form.strangeArguments
      ++ (form.children f).flatMap form.strangersOfChild

/-- The sections of a feature. -/
def sections (form : Form) (f : Json) : List (Draft.Section × Json) :=
  (form.background? f).toList.map (Draft.Section.background, ·)
    ++ (form.children f).filterMap form.section?

/-- The sections that are backgrounds. -/
def backgrounds (form : Form) (f : Json) : List Json :=
  (form.sections f).filterMap fun
    | (.background, b) => some b
    | _ => none

/-- The sections that are tests. -/
def tests (form : Form) (f : Json) : List (Draft.Section × Json) :=
  (form.sections f).filterMap fun
    | (.background, _) => none
    | s => some s

/-! ### Blocks and rows -/

/-- The table below a step: the line that it says itself, and its rows. In version 2 a table is no
more than its rows. -/
def table? : Form → Json → Option (Option Nat × List Json)
  | version2, v =>
    match v.get? "rows" with
    | some (.arr rows) => some (none, rows)
    | _ => none
  | messages, v => (v.present? "dataTable").map fun t => (Shape.line t, t.itemsAt "rows")
  | _, v => ((v.present? "argument").filter (·.strAt? "type" == some "DataTable")).map fun t =>
    (Shape.line t, t.itemsAt "rows")

/-- The doc string below a step. -/
def doc? : Form → Json → Option Json
  | version2, v => v.get? "doc_string"
  | messages, v => v.present? "docString"
  | _, v => (v.present? "argument").filter (·.strAt? "type" == some "DocString")

/-- The key of the content of a doc string. -/
def contentKey : Form → String
  | version2 => "value"
  | _ => "content"

/-- The content type of a doc string. -/
def contentType? : Form → Json → Option Text
  | version2, d => Text.trimmed? (d.textAt "content_type")
  | messages, d =>
    (Text.trimmed? (d.textAt "mediaType")).or (Text.trimmed? (d.textAt "contentType"))
  | _, d => Text.trimmed? (d.textAt "contentType")

/-- The rows of examples, the header being the first of them. -/
def rows : Form → Json → List Json
  | version2, x => x.itemsAt "rows"
  | _, x => (x.present? "tableHeader").toList ++ x.itemsAt "tableBody"

end Form

/-- The value of a cell, which is a string or an object with a value. -/
def Json.cellText : Json → Text
  | .str s => s.toList
  | v => v.textAt "value"

/-- What a comment says: its text, or else its value. -/
def Json.commentText (v : Json) : Text :=
  match (v.get? "text").or (v.get? "value") with
  | some (.str s) => s.toList
  | _ => []

/-! ### Files that keep what a document holds -/

/-- The line and the texts with which a node begins, trimmed and normalised. -/
structure Heading (v : Json) (line : Option Nat) (keyword name description : Text) : Prop where
  line : line = Shape.line v
  keyword : keyword = Text.trim (v.textAt "keyword")
  name : name = Text.trim (v.textAt "name")
  description : description = Text.normalise (v.textAt "description")

structure Tag.Keeps (v : Json) (t : Tag) : Prop where
  line : t.line = Shape.line v
  name : t.name = Text.tagName (v.textAt "name")

structure Comment.Keeps (v : Json) (c : Comment) : Prop where
  line : c.line = Shape.line v
  text : c.text = Text.trim v.commentText

/-- A cell is on the line of its row if it says no other. -/
structure Cell.Keeps (row : Option Nat) (v : Json) (c : Cell) : Prop where
  line : c.line = (Shape.line v).or row
  value : c.value = v.cellText

structure Row.Keeps (v : Json) (r : Row) : Prop where
  line : r.line = Shape.line v
  cells : List.Forall₂ (Cell.Keeps r.line) (v.itemsAt "cells") r.cells

/-- The table of a step, or else its doc string. A table is on the line of its first row if it says
no other. -/
def Block.Keeps (form : Form) (v : Json) : Option Block → Prop
  | some (.table t) => ∃ line rows, form.table? v = some (line, rows)
    ∧ t.line = line.or (t.rows.head?.bind Row.line) ∧ List.Forall₂ Row.Keeps rows t.rows
  | some (.docString d) => form.table? v = none ∧ ∃ w, form.doc? v = some w
    ∧ d.line = Shape.line w ∧ d.content = w.textAt form.contentKey
    ∧ d.contentType = form.contentType? w
  | none => form.table? v = none ∧ form.doc? v = none

structure Step.Keeps (form : Form) (v : Json) (s : Step) : Prop where
  line : s.line = Shape.line v
  keyword : s.keyword = Text.trim (v.textAt "keyword")
  text : s.text = Text.trim (v.textAt (Draft.textKey form))
  block : Block.Keeps form v s.block

structure Background.Keeps (form : Form) (v : Json) (b : Background) : Prop where
  heading : Heading v b.line b.keyword b.name b.description
  steps : List.Forall₂ (Step.Keeps form) (v.itemsAt "steps") b.steps

structure Examples.Keeps (form : Form) (v : Json) (x : Examples) : Prop where
  heading : Heading v x.line x.keyword x.name x.description
  tags : List.Forall₂ Tag.Keeps (v.itemsAt "tags") x.tags
  rows : List.Forall₂ Row.Keeps (form.rows v) x.rows

structure Scenario.Keeps (form : Form) (v : Json) (s : Scenario) : Prop where
  heading : Heading v s.line s.keyword s.name s.description
  tags : List.Forall₂ Tag.Keeps (v.itemsAt "tags") s.tags
  steps : List.Forall₂ (Step.Keeps form) (v.itemsAt "steps") s.steps

structure Outline.Keeps (form : Form) (v : Json) (o : Outline) : Prop where
  heading : Heading v o.line o.keyword o.name o.description
  tags : List.Forall₂ Tag.Keeps (v.itemsAt "tags") o.tags
  steps : List.Forall₂ (Step.Keeps form) (v.itemsAt "steps") o.steps
  examples : List.Forall₂ (Examples.Keeps form) (v.itemsAt "examples") o.examples

/-- A test is of the kind of its section. -/
def Test.Keeps (form : Form) : Draft.Section × Json → Test → Prop
  | (.scenario, v), .scenario s => s.Keeps form v
  | (.outline, v), .outline o => o.Keeps form v
  | _, _ => False

/-- Of several backgrounds a feature keeps the last one. -/
structure Feature.Keeps (form : Form) (v : Json) (f : Feature) : Prop where
  heading : Heading v f.line f.keyword f.name f.description
  tags : List.Forall₂ Tag.Keeps (v.itemsAt "tags") f.tags
  background : Option.Rel (Background.Keeps form) (form.backgrounds v).getLast? f.background
  tests : List.Forall₂ (Test.Keeps form) (form.tests v) f.tests

/-- The comments of a file are in the order of their lines if they come from version 2, where they
are scattered over the nodes of the feature. -/
structure FeatureFile.Keeps (form : Form) (v : Json) (file : FeatureFile) : Prop where
  feature : Option.Rel (Feature.Keeps form) (form.feature? v) file.feature
  comments : match form with
    | .version2 =>
      file.comments.Perm ((form.feature? v).toList.flatMap Shape.Elements.commentsBelow)
    | _ => List.Forall₂ Comment.Keeps (v.itemsAt "comments") file.comments

end FeatureTree
