import FeatureTree.Error
import FeatureTree.Node.Parts
import FeatureTree.Text.Layout

/-!
The fields that the JSON shapes of a feature file share.

Keywords and names are trimmed, descriptions and tag names normalised. A raw element is the object
without the fields that have become parts of their own.
-/

namespace FeatureTree.Shape

/-- The line of a node: its own line or that of its location. A line that is not a natural number
counts as none. -/
def line (v : Json) : Option Nat :=
  match v.get? "line" with
  | some n => n.nat?
  | none => (v.get? "location" >>= Json.get? "line") >>= Json.nat?

def keyword (v : Json) : Text := Text.trim (v.textAt "keyword")

def name (v : Json) : Text := Text.trim (v.textAt "name")

def description (v : Json) : Text := Text.normalise (v.textAt "description")

/-- The trimmed text at a key, unless nothing is left of it. -/
def trimmedAt? (key : String) (v : Json) : Option Text := Text.trimmed? (v.textAt key)

/-- The word that says what a node is. -/
def typeOf (v : Json) : Except Error String :=
  match v.strAt? "type" with
  | some s => .ok s
  | none => .error (.unknownElementType "<missing type>".toList)

/-- An element of a type that there is none of. -/
def unknown (type : String) : Except Error α := .error (.unknownElementType type.toList)

def tag (v : Json) : Tag := ⟨line v, Text.tagName (v.textAt "name"), some v⟩

def tags (v : Json) : List Tag := (v.itemsAt "tags").map tag

/-- A comment has a text, or else a value. -/
def comment (v : Json) : Comment :=
  let key := if (v.get? "text").isSome then "text" else "value"
  ⟨line v, Text.trim (v.textAt key), some v⟩

def comments (v : Json) : List Comment := (v.itemsAt "comments").map comment

/-- A cell is a string, or an object with a value. It is on the line of its row if it says no
other. -/
def cell (rowLine : Option Nat) (v : Json) : Cell :=
  match v with
  | .str s => ⟨rowLine, s.toList, some v⟩
  | v => ⟨(line v).or rowLine, v.textAt "value", some v⟩

def row (v : Json) : Row :=
  ⟨line v, (v.itemsAt "cells").map (cell (line v)), some (v.without ["cells"])⟩

/-- A header row, if there is one, and the rows of the body. -/
def headedRows (v : Json) : List Row :=
  ((v.present? "tableHeader").toList ++ v.itemsAt "tableBody").map row

/-- A table on its own line, or else on that of its first row. -/
def table (v : Json) : Table :=
  let rows := (v.itemsAt "rows").map row
  ⟨(line v).or (rows.head?.bind Row.line), rows, some (v.without ["rows"])⟩

def step (textKey : String) (parts : List String) (block : Option Block) (v : Json) : Step :=
  ⟨line v, keyword v, Text.trim (v.textAt textKey), block, some (v.without parts)⟩

def background (parts : List String) (steps : List Step) (v : Json) : Background :=
  ⟨line v, keyword v, name v, description v, steps, some (v.without parts)⟩

def scenario (parts : List String) (steps : List Step) (v : Json) : Scenario :=
  ⟨line v, keyword v, name v, description v, tags v, steps, some (v.without parts)⟩

def outline (parts : List String) (steps : List Step) (examples : List Examples) (v : Json) :
    Outline :=
  ⟨line v, keyword v, name v, description v, tags v, steps, examples, some (v.without parts)⟩

def examples (parts : List String) (rows : List Row) (v : Json) : Examples :=
  ⟨line v, keyword v, name v, description v, tags v, rows, some (v.without parts)⟩

/-- Examples whose first row is kept apart as their header. -/
def headedExamples (v : Json) : Examples :=
  examples ["tableHeader", "tableBody", "tags"] (headedRows v) v

/-- A child of a feature. -/
inductive Child where
  | background (b : Background)
  | test (t : Test)

/-- The last background among children. -/
def Child.background? (cs : List Child) : Option Background :=
  (cs.filterMap fun
    | .background b => some b
    | .test _ => none).getLast?

/-- The tests among children. -/
def Child.tests (cs : List Child) : List Test :=
  cs.filterMap fun
    | .background _ => none
    | .test t => some t

def feature (parts : List String) (background : Option Background) (tests : List Test)
    (v : Json) : Feature :=
  ⟨line v, keyword v, name v, description v, tags v, background, tests, some (v.without parts)⟩

end FeatureTree.Shape
