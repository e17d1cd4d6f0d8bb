import FeatureTree.Shape.Fields

/-!
The shapes of versions 3 and 4, whose nodes have a type in capitals and a location. In version 3
the document is the feature, with its background and its scenario definitions apart; in version 4
the document holds the feature, and the background is one of its children.
-/

namespace FeatureTree.Shape.Definitions

/-- The parts of a feature that become nodes. -/
def featureParts : List String :=
  ["background", "scenarioDefinitions", "children", "tags", "comments"]

/-- The parts of a definition that become nodes. -/
def definitionParts : List String := ["steps", "examples", "tags"]

def argument (v : Json) : Except Error Block := do
  match ← typeOf v with
  | "DataTable" => return .table (table v)
  | "DocString" =>
    return .docString ⟨line v, trimmedAt? "contentType" v, v.textAt "content", some v⟩
  | other => unknown other

def step (v : Json) : Except Error Step := do
  let block ← match v.present? "argument" with
    | some a => some <$> argument a
    | none => .ok none
  return Shape.step "text" ["argument"] block v

def steps (v : Json) : Except Error (List Step) := (v.itemsAt "steps").mapM step

def background (v : Json) : Except Error Background := do
  return Shape.background definitionParts (← steps v) v

/-- The steps of a definition are read before its type. -/
def definition (v : Json) : Except Error Test := do
  let steps ← steps v
  match ← typeOf v with
  | "Scenario" => return .scenario (scenario definitionParts steps v)
  | "ScenarioOutline" =>
    return .outline (outline definitionParts steps ((v.itemsAt "examples").map headedExamples) v)
  | other => unknown other

/-- A child of a feature of version 4. -/
def child (v : Json) : Except Error Child := do
  match ← typeOf v with
  | "Background" => return .background (← background v)
  | _ => return .test (← definition v)

/-- A feature of version 3. -/
def feature3 (v : Json) : Except Error Feature := do
  let background ← match v.present? "background" with
    | some b => some <$> background b
    | none => .ok none
  let tests ← (v.itemsAt "scenarioDefinitions").mapM definition
  return Shape.feature featureParts background tests v

/-- A feature of version 4. -/
def feature4 (v : Json) : Except Error Feature := do
  let cs ← (v.itemsAt "children").mapM child
  return Shape.feature featureParts (Child.background? cs) (Child.tests cs) v

/-- A document of version 3. -/
def file3 (path : Option Text) (v : Json) : Except Error FeatureFile := do
  return ⟨path, some (← feature3 v), comments v, none⟩

/-- A document of version 4. -/
def file4 (path : Option Text) (v : Json) : Except Error FeatureFile := do
  let feature ← match v.present? "feature" with
    | some f => some <$> feature4 f
    | none => .ok none
  return ⟨path, feature, comments v, some (v.without ["feature", "comments"])⟩

end FeatureTree.Shape.Definitions
