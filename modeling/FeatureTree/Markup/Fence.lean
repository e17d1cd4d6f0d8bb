import FeatureTree.Text.Blank

/-!
The fences around doc strings: three double quotes or three backquotes, after any blanks. A line
that starts with the fence which is open closes it; the other fence is then plain content.
-/

namespace FeatureTree

inductive Fence where
  | quotes | backquotes
  deriving DecidableEq

namespace Fence

/-- The three characters of a fence. -/
def mark : Fence → Text
  | quotes => ['"', '"', '"']
  | backquotes => ['\x60', '\x60', '\x60']

/-- How content writes the characters of a fence: a backslash stands before each of them. -/
def escaped (f : Fence) : Text := f.mark.flatMap fun c => ['\\', c]

/-- Whether a line starts with this fence. -/
def starts (f : Fence) (line : Text) : Bool := f.mark.isPrefixOf (Text.trimStart line)

/-- The fence a line starts with. -/
def opening? (line : Text) : Option Fence :=
  if quotes.starts line then some quotes
  else if backquotes.starts line then some backquotes
  else none

/-- The fence that is open after a line, by the one open before it. -/
def after : Option Fence → Text → Option Fence
  | some f, line => if f.starts line then none else some f
  | none, line => opening? line

end Fence

end FeatureTree
