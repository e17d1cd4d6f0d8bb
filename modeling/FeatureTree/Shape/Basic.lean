import FeatureTree.Document.Locate
import FeatureTree.Shape.Definitions
import FeatureTree.Shape.Elements
import FeatureTree.Shape.Messages

/-!
A document that some other program has parsed, in one of five shapes: four of JSON, and the tree
of the grammar beside its text.
-/

namespace FeatureTree

inductive Parsed where
  | version2 (v : Json)
  | version3 (v : Json)
  | version4 (v : Json)
  | messages (v : Json)
  | tree (feature : Option Grammar.Feature) (text : Text)

namespace Parsed

/-- What a shape is called. -/
def shape : Parsed → String
  | version2 _ => "gherkin2"
  | version3 _ => "gherkin3"
  | version4 _ => "gherkin4"
  | messages _ => "messages"
  | tree _ _ => "native"

/-- What a value without a shape is called. -/
def kindOfJson : Json → String
  | .null => "null"
  | .bool _ => "boolean"
  | .int _ => "number"
  | .double _ => "number"
  | .str _ => "string"
  | .arr _ => "array"
  | .obj _ => "untyped object"

/-- The shape of a JSON document. A list is of version 2; an object goes by its wrapper, by its
type, and last by the keys of a message. -/
def detect (v : Json) : Except Error Parsed :=
  match v with
  | .arr _ => .ok (version2 v)
  | .obj _ =>
    match v.get? "gherkinDocument" with
    | some d => .ok (messages d)
    | none =>
      match v.strAt? "type" with
      | some "GherkinDocument" => .ok (version4 v)
      | some "Feature" => .ok (version3 v)
      | some other => Shape.unknown other
      | none =>
        if (v.get? "feature").isSome || (v.get? "uri").isSome then .ok (messages v)
        else Shape.unknown (kindOfJson v)
  | _ => Shape.unknown (kindOfJson v)

/-- The feature file of a document, under a name. -/
def file (name : Text) : Parsed → Except Error FeatureFile
  | version2 v => Shape.Elements.file (Locate.path? name) v
  | version3 v => Shape.Definitions.file3 (Locate.path? name) v
  | version4 v => Shape.Definitions.file4 (Locate.path? name) v
  | messages v => Shape.Messages.file (Locate.path? name) v
  | tree f t => Locate.file ⟨Source.ofText t, 0⟩ name f

end Parsed

end FeatureTree
