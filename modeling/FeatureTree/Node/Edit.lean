import FeatureTree.Fragment.Read
import FeatureTree.Node.Render
import FeatureTree.Node.Rows

/-!
Edits of examples, and the place of examples in a larger node.
-/

namespace FeatureTree

inductive Edit where
  | addRow (row : RowSource)
  | removeRow (row : RowSource)
  | setRows (rows : List Row)
  | setName (t : Text)
  | setDescription (t : Text)
  | setKeyword (t : Text)
  | setTags (names : List Text)
  /-- Reads the examples again from their own text. -/
  | reread

namespace Examples

/-- The examples that a text holds. -/
def ofText (t : Text) : Except Error Examples := do
  match ← Fragment.examples.read .english t with
  | .examples x => .ok x
  | _ => .error (.missing .examples)

/-- The examples after an edit. -/
def edit (x : Examples) : Edit → Except Error Examples
  | .addRow row => do x.addRow (← row.row)
  | .removeRow row => do return x.removeRow (← row.row)
  | .setRows rows => .ok { x with rows := rows }
  | .setName t => .ok { x with name := t }
  | .setDescription t => .ok { x with description := t }
  | .setKeyword t => .ok { x with keyword := t }
  | .setTags names => .ok { x with tags := names.map fun n => ⟨none, Text.tagName n, none⟩ }
  | .reread => ofText (Node.examples x).render

end Examples

/-- The outline with other examples at position `e`. -/
def Outline.putExamples (o : Outline) (e : Nat) (x : Examples) : Outline :=
  { o with examples := o.examples.set e x }

/-- The test with other examples at position `e`. -/
def Test.putExamples (e : Nat) (x : Examples) : Test → Test
  | .scenario s => .scenario s
  | .outline o => .outline (o.putExamples e x)

namespace Feature

/-- The examples at position `e` of the test at position `t`. -/
def examples? (f : Feature) (t e : Nat) : Option Examples :=
  match f.tests[t]? with
  | some (.outline o) => o.examples[e]?
  | _ => none

/-- The feature with other examples at position `e` of the test at position `t`. -/
def putExamples (f : Feature) (t e : Nat) (x : Examples) : Feature :=
  { f with tests := f.tests.modify t (Test.putExamples e x) }

end Feature

namespace Node

/-- The examples at a place: none for examples themselves, a position for an outline, and the
positions of a test and of examples in it for a feature or a file. -/
def examplesAt? : List Nat → Node → Option Examples
  | [], examples x => some x
  | [e], outline o => o.examples[e]?
  | [t, e], feature f => f.examples? t e
  | [t, e], featureFile f => f.feature.bind fun f => f.examples? t e
  | _, _ => none

/-- The node with other examples at a place. -/
def putExamplesAt (x : Examples) : List Nat → Node → Node
  | [], examples _ => examples x
  | [e], outline o => outline (o.putExamples e x)
  | [t, e], feature f => feature (f.putExamples t e x)
  | [t, e], featureFile f =>
    featureFile { f with feature := f.feature.map fun f => f.putExamples t e x }
  | _, n => n

end Node

end FeatureTree
