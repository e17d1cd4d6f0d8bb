import FeatureTree.Markup.Fence
import FeatureTree.Source.Tags

/-!
Doc strings read back from the lines of a text.

The first line with content after a step must open a fence. What follows the fence on that line is
the content type. The content runs up to the line that closes the fence; each of its lines loses
the indentation of the opening line, and escaped fences become plain ones.
-/

namespace FeatureTree

/-- The content type and the content between two fences. -/
structure Fenced where
  contentType : Option Text
  content : Text
  deriving DecidableEq

namespace Source

/-- The lines up to the one that closes a fence; none if it stays open. -/
def body? (f : Fence) : List Text → Option (List Text)
  | [] => none
  | l :: ls => if f.starts l then some [] else (body? f ls).map (l :: ·)

/-- What an opening line says after its fence. -/
def typeOf (f : Fence) (opening : Text) : Option Text :=
  Text.trimmed? ((Text.trimStart opening).drop f.mark.length)

/-- A line of content inside a fence that stands `indent` blanks to the right. -/
def contentLine (f : Fence) (indent : Nat) (l : Text) : Text :=
  Text.replace f.escaped f.mark (Text.stripIndent indent l)

/-- The doc string after line `step`, located at its opening line. -/
def docString? (s : Source) (step : Nat) : Option (Located Fenced) :=
  match (s.linesFrom (step + 1)).dropWhile fun (_, l) => isSkipped l with
  | [] => none
  | (n, opening) :: ls => do
    let f ← Fence.opening? opening
    let body ← body? f (ls.map Prod.snd)
    let content := body.map (contentLine f (Text.indentation opening))
    return ⟨n, typeOf f opening, Text.joinLines content⟩

end Source

end FeatureTree
