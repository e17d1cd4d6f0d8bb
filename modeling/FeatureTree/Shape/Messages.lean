import FeatureTree.Shape.Fields

/-!
The shape of messages: a child of a feature is an object whose first key says what it is, and a
scenario with examples is an outline.
-/

namespace FeatureTree.Shape.Messages

/-- The parts of a definition that become nodes. -/
def definitionParts : List String := ["steps", "examples", "tags"]

/-- The table of a step, or else its doc string. -/
def block (v : Json) : Option Block :=
  match v.present? "dataTable" with
  | some t => some (.table (table t))
  | none => (v.present? "docString").map fun d =>
    .docString ⟨line d, (trimmedAt? "mediaType" d).or (trimmedAt? "contentType" d),
      d.textAt "content", some d⟩

def steps (v : Json) : List Step :=
  (v.itemsAt "steps").map fun s => step "text" ["dataTable", "docString"] (block s) s

def test (v : Json) : Test :=
  match v.itemsAt "examples" with
  | [] => .scenario (scenario definitionParts (steps v) v)
  | xs => .outline (outline definitionParts (steps v) (xs.map headedExamples) v)

def child : Json → Except Error Child
  | .obj ((key, v) :: _) =>
    match key with
    | "background" => .ok (.background (background definitionParts (steps v) v))
    | "scenario" => .ok (.test (test v))
    | "rule" => unknown "Rule"
    | other => unknown other
  | _ => unknown "<empty child>"

def feature (v : Json) : Except Error Feature := do
  let cs ← (v.itemsAt "children").mapM child
  return Shape.feature ["children", "tags"] (Child.background? cs) (Child.tests cs) v

def file (path : Option Text) (v : Json) : Except Error FeatureFile := do
  let feature ← match v.present? "feature" with
    | some f => some <$> feature f
    | none => .ok none
  return ⟨path, feature, comments v, some (v.without ["feature", "comments"])⟩

end FeatureTree.Shape.Messages
