import FeatureTree.Text.Blank

/-!
The kinds of text that can be read on their own, without a file around them.
-/

namespace FeatureTree

inductive Fragment where
  | feature | background | scenario | outline | examples | step | table | row | docString | tag
  deriving DecidableEq

namespace Fragment

/-- What messages call a fragment. -/
def label : Fragment → Text
  | feature => "feature".toList
  | background => "background".toList
  | scenario => "scenario".toList
  | outline => "outline".toList
  | examples => "example".toList
  | step => "step".toList
  | table => "table".toList
  | row => "table_row".toList
  | docString => "doc_string".toList
  | tag => "tag".toList

/-- The file that messages about a fragment name. -/
def file (f : Fragment) : Text := "stand_alone_".toList ++ f.label ++ ".feature".toList

end Fragment

end FeatureTree
