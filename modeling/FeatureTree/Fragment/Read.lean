import FeatureTree.Document.Read
import FeatureTree.Node.Basic

/-!
Reading parts of a feature file on their own.

A fragment is put into the smallest shell of lines that makes it a feature file. It is read as a
file, and the part is taken out again. Lines are counted from the first line of the fragment.
-/

namespace FeatureTree.Fragment

def featureShell : Text := "Feature: stand-alone shell\n".toList

def scenarioShell : Text := featureShell ++ "Scenario: stand-alone shell\n".toList

def stepShell : Text := scenarioShell ++ "Given a shell step\n".toList

def outlineShell : Text :=
  featureShell ++ "Scenario Outline: stand-alone shell\nGiven a shell step\n".toList

/-- A fragment in its shell, and the number of shell lines above it. -/
def wrap (t : Text) : Fragment → Text × Nat
  | feature => (t, 0)
  | background => (featureShell ++ t, 1)
  | scenario => (featureShell ++ t, 1)
  | outline => (featureShell ++ t, 1)
  | step => (scenarioShell ++ t, 2)
  | examples => (outlineShell ++ t, 3)
  | table => (stepShell ++ t, 3)
  | row => (stepShell ++ t, 3)
  | docString => (stepShell ++ t, 3)
  | tag => (t ++ '\n' :: featureShell, 0)

def firstStep? (f : Feature) : Option Step := f.tests.head?.bind fun t => t.steps.head?

def firstTable? (f : Feature) : Option Table :=
  match (firstStep? f).bind Step.block with
  | some (.table t) => some t
  | _ => none

/-- The part of a feature that a fragment stands for. -/
def extract? (f : Feature) : Fragment → Option Node
  | feature => some (.feature f)
  | background => f.background.map .background
  | scenario =>
    match f.tests.head? with
    | some (.scenario s) => some (.scenario s)
    | _ => none
  | outline =>
    match f.tests.head? with
    | some (.outline o) => some (.outline o)
    | _ => none
  | examples =>
    match f.tests.head? with
    | some (.outline o) => o.examples.head?.map .examples
    | _ => none
  | step => (firstStep? f).map .step
  | table => (firstTable? f).map .table
  | row => ((firstTable? f).bind fun t => t.rows.head?).map .row
  | docString =>
    match (firstStep? f).bind Step.block with
    | some (.docString d) => some (.docString d)
    | _ => none
  | tag => f.tags.head?.map .tag

/-- The node that a text of this kind holds. -/
def read (k : Fragment) (d : Dialect) (t : Text) : Except Error Node := do
  let (wrapped, shell) := k.wrap t
  let file ← Document.readInShell shell k.file d wrapped
  match file.feature.bind (extract? · k) with
  | some n => .ok n
  | none => .error (.missing k)

/-- The fragments by the kind of node that they hold. Directories, files, cells and comments are
not read on their own. -/
def ofKind? : Kind → Option Fragment
  | .feature => some feature
  | .background => some background
  | .scenario => some scenario
  | .outline => some outline
  | .examples => some examples
  | .step => some step
  | .table => some table
  | .row => some row
  | .docString => some docString
  | .tag => some tag
  | .directory => none
  | .featureFile => none
  | .cell => none
  | .comment => none

end FeatureTree.Fragment
