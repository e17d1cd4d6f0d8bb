import FeatureTree.Text.Lines

/-!
The layout of prose: indented lines, descriptions and tag names.
-/

namespace FeatureTree.Text

/-- One level of indentation. -/
def level : Text := [' ', ' ']

/-- A line moved right by `k` levels; an empty line stays empty. -/
def indentLine (k : Nat) : Text → Text
  | [] => []
  | l => (List.replicate k level).flatten ++ l

def indent (k : Nat) (ls : List Text) : List Text := ls.map (indentLine k)

/-- The least indentation of the lines that are not empty. -/
def commonIndent (ls : List Text) : Nat :=
  ((ls.filter (! ·.isEmpty)).map indentation).min?.getD 0

/-- Without the empty lines at the start and at the end. -/
def dropOuterEmpty (ls : List Text) : List Text :=
  ((ls.dropWhile List.isEmpty).reverse.dropWhile List.isEmpty).reverse

/-- A description without the indentation its lines share, without blanks at the ends of lines,
and without empty lines around it. -/
def normalise (t : Text) : Text :=
  let ls := (lines t).map trimEnd
  joinLines (dropOuterEmpty (ls.map (stripIndent (commonIndent ls))))

/-- A tag name is trimmed and starts with an at sign. -/
def tagName (t : Text) : Text :=
  match trim t with
  | '@' :: n => '@' :: n
  | n => '@' :: n

end FeatureTree.Text
