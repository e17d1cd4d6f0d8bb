import FeatureTree.Markup.Cells
import FeatureTree.Markup.Fence
import FeatureTree.Node.Basic
import FeatureTree.Text.Layout

/-!
The text of a node.

Every node is written as a list of lines, and what stands below a line is indented by one level.
Columns of a table are as wide as their widest cell. A keyword that is missing is written in
English.
-/

namespace FeatureTree

namespace Table

/-- The width of column `j`: that of its widest cell. -/
def width (rows : List (List Text)) (j : Nat) : Nat :=
  ((rows.filterMap (·[j]?)).map List.length).max?.getD 0

/-- A cell filled up with spaces to a width. -/
def pad (w : Nat) (c : Text) : Text := c ++ List.replicate (w - c.length) ' '

/-- A row of written cells, each filled up to the width of its column. -/
def rowLine (width : Nat → Nat) (cells : List Text) : Text :=
  match cells with
  | [] => ['|']
  | _ =>
    ['|', ' '] ++ Text.joinWith [' ', '|', ' '] (cells.zipIdx.map fun (c, j) => pad (width j) c)
      ++ [' ', '|']

/-- The lines of rows of values. -/
def linesOfValues (rows : List (List Text)) : List Text :=
  let cells := rows.map (·.map Cells.escape)
  cells.map (rowLine (width cells))

/-- The lines of rows. -/
def linesOfRows (rows : List Row) : List Text := linesOfValues (rows.map Row.values)

def lines (t : Table) : List Text := linesOfRows t.rows

end Table

/-- A doc string is written between double quotes, with those of its content escaped. -/
def DocString.lines (d : DocString) : List Text :=
  let mark := Fence.quotes.mark
  let content := if d.content.isEmpty then [] else d.content.cutAt '\n'
  (mark ++ d.contentType.getD [])
    :: content.map (Text.replace mark Fence.quotes.escaped) ++ [mark]

def Block.lines : Block → List Text
  | .table t => t.lines
  | .docString d => d.lines

def Step.lines (s : Step) : List Text :=
  let keyword := if s.keyword.isEmpty then ['*'] else s.keyword
  Text.trimEnd (keyword ++ ' ' :: s.text) ::
    match s.block with
    | some b => Text.indent 1 b.lines
    | none => []

namespace Render

/-- All tags on one line, if there are any. -/
def tagLine (tags : List Tag) : List Text :=
  if tags.isEmpty then [] else [Text.joinWith [' '] (tags.map Tag.name)]

/-- The line of a keyword and a name. -/
def keywordLine (keyword default name : Text) : Text :=
  Text.trimEnd ((if keyword.isEmpty then default else keyword) ++ ':' :: ' ' :: name)

/-- A description, below an empty line. -/
def descriptionLines (description : Text) : List Text :=
  if description.isEmpty then [] else [] :: description.cutAt '\n'

/-- Tags, keyword line and description. -/
def header (tags : List Tag) (keyword default name description : Text) : List Text :=
  tagLine tags ++ keywordLine keyword default name :: descriptionLines description

/-- What stands below a header, with an empty line after a description. -/
def body (description : Text) (ls : List Text) : List Text :=
  if ls.isEmpty then []
  else (if description.isEmpty then [] else [[]]) ++ Text.indent 1 ls

end Render

open Render

def Background.lines (b : Background) : List Text :=
  header [] b.keyword "Background".toList b.name b.description
    ++ body b.description (b.steps.flatMap Step.lines)

def Scenario.lines (s : Scenario) : List Text :=
  header s.tags s.keyword "Scenario".toList s.name s.description
    ++ body s.description (s.steps.flatMap Step.lines)

def Examples.lines (x : Examples) : List Text :=
  header x.tags x.keyword "Examples".toList x.name x.description
    ++ body x.description (Table.linesOfRows x.rows)

/-- The examples of an outline stand as far left as the outline itself. -/
def Outline.lines (o : Outline) : List Text :=
  header o.tags o.keyword "Scenario Outline".toList o.name o.description
    ++ body o.description (o.steps.flatMap Step.lines)
    ++ o.examples.flatMap fun x => [] :: x.lines

def Test.lines : Test → List Text
  | .scenario s => s.lines
  | .outline o => o.lines

def Feature.lines (f : Feature) : List Text :=
  header f.tags f.keyword "Feature".toList f.name f.description
    ++ (f.background.toList.map Background.lines ++ f.tests.map Test.lines).flatMap
      fun ls => [] :: Text.indent 1 ls

namespace Node

/-- The lines of a node. A directory and a file show their path. -/
def lines : Node → List Text
  | directory d => [d.path.getD []]
  | featureFile f => [f.path.getD []]
  | feature f => f.lines
  | background b => b.lines
  | scenario s => s.lines
  | outline o => o.lines
  | examples x => x.lines
  | step s => s.lines
  | table t => t.lines
  | row r => Table.linesOfRows [r]
  | cell c => [Cells.escape c.value]
  | docString d => d.lines
  | tag t => [t.name]
  | comment c => [c.text]

def render (n : Node) : Text := Text.joinLines n.lines

end Node

end FeatureTree
