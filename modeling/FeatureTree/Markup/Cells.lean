import FeatureTree.Text.Lines

/-!
The text of table cells.

In a row a pipe ends a cell, so a cell writes a pipe, a backslash or a newline of its value as a
backslash and a second character. A mask hides the first two of these escapes from a reader that
cuts at every pipe; it takes as many bytes as the escape it hides, so offsets stay true.
-/

namespace FeatureTree.Cells

/-- A value as a cell writes it. -/
def escape (v : Text) : Text :=
  v.flatMap fun
    | '\\' => ['\\', '\\']
    | '|' => ['\\', '|']
    | '\n' => ['\\', 'n']
    | c => [c]

/-- The cells of a row after its first pipe, `cur` being the cell in progress with its escapes
resolved. What follows the last pipe is no cell. -/
def splitFrom (cur : Text) : Text → List Text
  | '\\' :: '|' :: t => splitFrom (cur ++ ['|']) t
  | '\\' :: '\\' :: t => splitFrom (cur ++ ['\\']) t
  | '\\' :: 'n' :: t => splitFrom (cur ++ ['\n']) t
  | '\\' :: c :: t => splitFrom (cur ++ ['\\', c]) t
  | '|' :: t => Text.trim cur :: splitFrom [] t
  | c :: t => splitFrom (cur ++ [c]) t
  | [] => []

/-- The trimmed cells of a line, if it starts with a pipe. -/
def split? (line : Text) : Option (List Text) :=
  match Text.trim line with
  | '|' :: t => some (splitFrom [] t)
  | _ => none

/-- A row with its escaped pipes and backslashes masked. -/
def mask : Text → Text
  | '\\' :: '|' :: t => '\x01' :: '\x01' :: mask t
  | '\\' :: '\\' :: t => '\x02' :: '\x02' :: mask t
  | '\\' :: c :: t => '\\' :: c :: mask t
  | c :: t => c :: mask t
  | [] => []

/-- Each mask becomes the escape it hides. -/
def unmask : Text → Text
  | '\x01' :: '\x01' :: t => '\\' :: '|' :: unmask t
  | '\x02' :: '\x02' :: t => '\\' :: '\\' :: unmask t
  | c :: t => c :: unmask t
  | [] => []

/-- Each mask becomes the character that its escape stands for. -/
def resolve : Text → Text
  | '\x01' :: '\x01' :: t => '|' :: resolve t
  | '\x02' :: '\x02' :: t => '\\' :: resolve t
  | c :: t => c :: resolve t
  | [] => []

end FeatureTree.Cells
