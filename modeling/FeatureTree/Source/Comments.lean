import FeatureTree.Markup.Fence
import FeatureTree.Source.Tags

/-!
The comments of a text: the lines outside doc strings that start with a number sign, apart from
those that name a language.
-/

namespace FeatureTree.Source

/-- A line that names the language of a file. -/
def isLanguageHeader (line : Text) : Bool :=
  match Text.trimStart line with
  | '#' :: t => "language:".toList.isPrefixOf (Text.trimStart t)
  | _ => false

/-- Whether a line outside doc strings is a comment. -/
def isComment (line : Text) : Bool :=
  (Text.trimStart line).head? == some '#' && !isLanguageHeader line

/-- The comments of numbered lines, by the fence that is open before them. -/
def commentsFrom : Option Fence → List (Nat × Text) → List (Located Text)
  | _, [] => []
  | some f, (_, l) :: ls => commentsFrom (if f.starts l then none else some f) ls
  | none, (n, l) :: ls =>
    match Fence.opening? l with
    | some f => commentsFrom (some f) ls
    | none =>
      if isComment l then ⟨n, Text.trim l⟩ :: commentsFrom none ls else commentsFrom none ls

def comments (s : Source) : List (Located Text) := commentsFrom none s.numbered

end FeatureTree.Source
