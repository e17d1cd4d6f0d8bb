import FeatureTree.Text.Blank

/-!
The tree that the grammar gives a feature text. It keeps keywords, names and values as they were
written, and for each element the bytes it spans.
-/

namespace FeatureTree.Grammar

/-- The bytes from `start` up to `stop`. -/
structure Span where
  start : Nat := 0
  stop : Nat := 0
  deriving DecidableEq, Inhabited

/-- A line and a column of bytes, both counted from 1. -/
structure Position where
  line : Nat := 0
  column : Nat := 0
  deriving DecidableEq, Inhabited

/-- What a step is about: what is given, what happens, and what then holds. -/
inductive StepType where
  | context | action | outcome
  deriving DecidableEq, Inhabited

def StepType.name : StepType → Text
  | context => "Given".toList
  | action => "When".toList
  | outcome => "Then".toList

structure Table where
  rows : List (List Text) := []
  span : Span := {}
  position : Position := {}
  deriving DecidableEq, Inhabited

structure Step where
  keyword : Text := []
  type : StepType := .context
  value : Text := []
  docString : Option Text := none
  table : Option Table := none
  span : Span := {}
  position : Position := {}
  deriving DecidableEq, Inhabited

structure Background where
  keyword : Text := []
  name : Text := []
  description : Text := []
  steps : List Step := []
  span : Span := {}
  position : Position := {}
  deriving DecidableEq, Inhabited

structure Examples where
  keyword : Text := []
  name : Text := []
  description : Text := []
  tags : List Text := []
  table : Option Table := none
  span : Span := {}
  position : Position := {}
  deriving DecidableEq, Inhabited

structure Scenario where
  keyword : Text := []
  name : Text := []
  description : Text := []
  tags : List Text := []
  steps : List Step := []
  examples : List Examples := []
  span : Span := {}
  position : Position := {}
  deriving DecidableEq, Inhabited

structure Rule where
  keyword : Text := []
  name : Text := []
  scenarios : List Scenario := []
  deriving DecidableEq, Inhabited

structure Feature where
  keyword : Text := []
  name : Text := []
  description : Text := []
  tags : List Text := []
  background : Option Background := none
  scenarios : List Scenario := []
  rules : List Rule := []
  span : Span := {}
  position : Position := {}
  deriving DecidableEq, Inhabited

end FeatureTree.Grammar
