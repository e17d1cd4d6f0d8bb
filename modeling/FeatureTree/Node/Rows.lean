import FeatureTree.Error
import FeatureTree.Node.Parts

/-!
Adding rows to examples and removing them.

A row is given as a list of values or as values by parameter. A list is taken as it is; values by
parameter are put in the order of the parameters, with an empty cell where there is none.
-/

namespace FeatureTree

inductive RowInput where
  | values (vs : List Text)
  | mapping (pairs : List (Text × Text))
  deriving DecidableEq

namespace RowInput

/-- The cells of a row under these parameters. -/
def arrange (parameters : List Text) : RowInput → List Text
  | values vs => vs
  | mapping pairs => parameters.map fun p => (pairs.lookup p).getD []

/-- A list of values, each of them trimmed. -/
def ofList (vs : List Text) : RowInput := values (vs.map Text.trim)

/-- Values by parameter, each of them and its key trimmed. -/
def ofPairs (pairs : List (Text × Text)) : RowInput :=
  mapping (pairs.map fun (k, v) => (Text.trim k, Text.trim v))

/-- A value as a cell: nothing for null, a string as it is, and the compact text of all else. -/
def cellOfJson : Json → Text
  | .null => []
  | .str s => Text.trim s.toList
  | v => Text.trim v.compact

def ofJson : Json → Except Error RowInput
  | .arr vs => .ok (values (vs.map cellOfJson))
  | .obj fs => .ok (mapping (fs.map fun (k, v) => (Text.trim k.toList, cellOfJson v)))
  | v => .error (.notARow v)

end RowInput

/-- What a row can be made from. -/
inductive RowSource where
  | json (v : Json)
  | list (vs : List Text)
  | pairs (ps : List (Text × Text))
  | input (r : RowInput)

/-- The row of a source. Only a JSON value that is neither a list nor an object has none. -/
def RowSource.row : RowSource → Except Error RowInput
  | json v => RowInput.ofJson v
  | list vs => .ok (RowInput.ofList vs)
  | pairs ps => .ok (RowInput.ofPairs ps)
  | input r => .ok r

namespace Examples

/-- Puts a row at the end; there must be a row of parameters. -/
def addRow (x : Examples) (input : RowInput) : Except Error Examples :=
  match x.rows with
  | [] => .error .noParameters
  | _ => .ok { x with rows := x.rows ++ [Row.ofValues (input.arrange x.parameters)] }

/-- Takes away the first row after the parameters that has the given values. -/
def removeRow (x : Examples) (input : RowInput) : Examples :=
  match x.rows with
  | [] => x
  | p :: rs => { x with rows := p :: rs.eraseP (·.values == input.arrange x.parameters) }

end Examples

end FeatureTree
