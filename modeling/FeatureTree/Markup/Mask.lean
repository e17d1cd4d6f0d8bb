import FeatureTree.Markup.Fence
import FeatureTree.Markup.Cells

/-!
The masking of a whole text: every table row outside doc strings has its escapes masked, and all
else stays as it is.
-/

namespace FeatureTree

namespace Mask

/-- Whether the first character after the blanks is a pipe. -/
def isRow (line : Text) : Bool := (Text.trimStart line).head? == some '|'

/-- A piece of text, by the fence that is open after it. -/
def piece (fence : Option Fence) (p : Text) : Text :=
  if fence.isNone && isRow p then Cells.mask p else p

/-- The pieces of a text, by the fence that is open before them. -/
def pieces : Option Fence → List Text → List Text
  | _, [] => []
  | fence, p :: ps => piece (Fence.after fence p) p :: pieces (Fence.after fence p) ps

end Mask

/-- A text with the escapes of its table rows masked. -/
def Text.masked (t : Text) : Text := (Mask.pieces none t.pieces).flatten

end FeatureTree
