import FeatureTree.Text.Lines

/-!
Text without the blanks that all its lines start with.
-/

namespace FeatureTree.Grammar

/-- The start that two texts share. -/
def sharedStart : Text → Text → Text
  | a :: s, b :: t => if a = b then a :: sharedStart s t else []
  | _, _ => []

/-- Whether two texts differ within the shorter of them. -/
def diverge : Text → Text → Bool
  | a :: s, b :: t => a != b || diverge s t
  | _, _ => false

/-- The margin up to where a line departs from it. -/
def narrow (margin line : Text) : Text :=
  if diverge margin line then sharedStart margin line else margin

/-- The blanks that the first line with content starts with, up to where a later line departs from
them. -/
def margin (ls : List Text) : Text :=
  match ls.dropWhile Text.isBlankText with
  | [] => []
  | l :: later => later.foldl narrow (l.takeWhile Text.isBlank)

/-- A line without the margin; a line that has no content, or not the whole margin, is left
empty. -/
def dedentLine (m line : Text) : Text :=
  if m.isPrefixOf line && !Text.isBlankText line then line.drop m.length else []

def dedent (t : Text) : Text :=
  let ls := t.lines
  let out := ls.flatMap fun l => dedentLine (margin ls) l ++ ['\n']
  if t.getLast? = some '\n' then out else out.dropLast

end FeatureTree.Grammar
