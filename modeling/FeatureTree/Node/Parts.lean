import FeatureTree.Json.Basic

/-!
The parts of a feature file.

A file holds a feature, a feature its background and tests, a test its steps, a step perhaps a
table or a doc string. Each part knows the line it was read from and the raw element it was read
from, where there was one.
-/

namespace FeatureTree

structure Cell where
  line : Option Nat := none
  value : Text := []
  raw : Option Json := none
  deriving Inhabited

structure Row where
  line : Option Nat := none
  cells : List Cell := []
  raw : Option Json := none
  deriving Inhabited

structure Table where
  line : Option Nat := none
  rows : List Row := []
  raw : Option Json := none
  deriving Inhabited

structure DocString where
  line : Option Nat := none
  contentType : Option Text := none
  content : Text := []
  raw : Option Json := none
  deriving Inhabited

/-- What may stand below the line of a step. -/
inductive Block where
  | table (t : Table)
  | docString (d : DocString)
  deriving Inhabited

structure Tag where
  line : Option Nat := none
  name : Text := []
  raw : Option Json := none
  deriving Inhabited

structure Comment where
  line : Option Nat := none
  text : Text := []
  raw : Option Json := none
  deriving Inhabited

structure Step where
  line : Option Nat := none
  keyword : Text := []
  text : Text := []
  block : Option Block := none
  raw : Option Json := none
  deriving Inhabited

structure Background where
  line : Option Nat := none
  keyword : Text := []
  name : Text := []
  description : Text := []
  steps : List Step := []
  raw : Option Json := none
  deriving Inhabited

structure Scenario where
  line : Option Nat := none
  keyword : Text := []
  name : Text := []
  description : Text := []
  tags : List Tag := []
  steps : List Step := []
  raw : Option Json := none
  deriving Inhabited

/-- A block of example rows. The first row holds the parameters, the others the arguments. -/
structure Examples where
  line : Option Nat := none
  keyword : Text := []
  name : Text := []
  description : Text := []
  tags : List Tag := []
  rows : List Row := []
  raw : Option Json := none
  deriving Inhabited

/-- A scenario that runs once for each argument row of its examples. -/
structure Outline where
  line : Option Nat := none
  keyword : Text := []
  name : Text := []
  description : Text := []
  tags : List Tag := []
  steps : List Step := []
  examples : List Examples := []
  raw : Option Json := none
  deriving Inhabited

inductive Test where
  | scenario (s : Scenario)
  | outline (o : Outline)
  deriving Inhabited

structure Feature where
  line : Option Nat := none
  keyword : Text := []
  name : Text := []
  description : Text := []
  tags : List Tag := []
  background : Option Background := none
  tests : List Test := []
  raw : Option Json := none
  deriving Inhabited

/-- A feature file. Its path is as it was given, and a file without a path has none. -/
structure FeatureFile where
  path : Option Text := none
  feature : Option Feature := none
  comments : List Comment := []
  raw : Option Json := none
  deriving Inhabited

structure Directory where
  path : Option Text := none
  featureFiles : List FeatureFile := []
  deriving Inhabited

/-- A cell with a value, from nowhere. -/
def Cell.ofValue (v : Text) : Cell where
  value := v

/-- A row with these values, from nowhere. -/
def Row.ofValues (vs : List Text) : Row where
  cells := vs.map Cell.ofValue

def Row.values (r : Row) : List Text := r.cells.map Cell.value

namespace Examples

/-- The row of parameters. -/
def parameterRow? (x : Examples) : Option Row := x.rows.head?

/-- The rows of arguments. -/
def argumentRows (x : Examples) : List Row := x.rows.tail

/-- The names of the parameters. -/
def parameters (x : Examples) : List Text :=
  match x.parameterRow? with
  | some r => r.values
  | none => []

end Examples

/-- The sum of some numbers. -/
def total (ns : List Nat) : Nat := ns.foldr (· + ·) 0

@[simp] theorem total_cons (n : Nat) (ns : List Nat) : total (n :: ns) = n + total ns := rfl

@[simp] theorem total_append (ns ms : List Nat) : total (ns ++ ms) = total ns + total ms := by
  induction ns with
  | nil => simp [total]
  | cons n ns ih => rw [List.cons_append, total_cons, total_cons, ih, Nat.add_assoc]

namespace Test

def name : Test → Text
  | .scenario s => s.name
  | .outline o => o.name

def tags : Test → List Tag
  | .scenario s => s.tags
  | .outline o => o.tags

def steps : Test → List Step
  | .scenario s => s.steps
  | .outline o => o.steps

def isOutline : Test → Bool
  | .scenario _ => false
  | .outline _ => true

/-- How often a test runs: a scenario once, an outline once for each argument row. -/
def caseCount : Test → Nat
  | .scenario _ => 1
  | .outline o => total (o.examples.map fun x => x.argumentRows.length)

end Test

namespace Feature

def scenarios (f : Feature) : List Scenario :=
  f.tests.filterMap fun
    | .scenario s => some s
    | .outline _ => none

def outlines (f : Feature) : List Outline :=
  f.tests.filterMap fun
    | .scenario _ => none
    | .outline o => some o

def testCaseCount (f : Feature) : Nat := total (f.tests.map Test.caseCount)

end Feature

end FeatureTree
