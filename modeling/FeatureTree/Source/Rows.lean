import FeatureTree.Markup.Cells
import FeatureTree.Source.Tags

/-!
Table rows read back from the lines of a text.
-/

namespace FeatureTree.Source

/-- The first `k` rows of numbered lines. Lines without content are passed over, and any other
line that is no row, or the end of the text, comes too early. -/
def rowsFrom? : Nat → List (Nat × Text) → Option (List (Located (List Text)))
  | 0, _ => some []
  | _ + 1, [] => none
  | k + 1, (n, l) :: ls =>
    if isSkipped l then rowsFrom? (k + 1) ls
    else match Cells.split? l with
      | some cells => (rowsFrom? k ls).map (⟨n, cells⟩ :: ·)
      | none => none

/-- The `k` rows from line `first` on. -/
def rows? (s : Source) (first k : Nat) : Option (List (Located (List Text))) :=
  rowsFrom? k (s.linesFrom first)

end FeatureTree.Source
