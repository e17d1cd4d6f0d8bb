import FeatureTree.Text.Lines

/-!
A text indexed by lines. Lines are numbered from 1, and an offset counts bytes from the start of
the text.
-/

namespace FeatureTree

structure Source where
  /-- The lines without their line ends. -/
  lines : List Text
  /-- The offset at which each line starts. -/
  starts : List Nat

namespace Source

/-- A piece without its newline and then without one carriage return at its end. -/
def lineOfPiece (p : Text) : Text :=
  Text.dropReturn (if p.getLast? = some '\n' then p.dropLast else p)

/-- The offset of each piece, the first being at `o`. -/
def offsets (o : Nat) : List Text → List Nat
  | [] => []
  | p :: ps => o :: offsets (o + Text.byteLength p) ps

def ofText (t : Text) : Source where
  lines := t.pieces.map lineOfPiece
  starts := offsets 0 t.pieces

def lineCount (s : Source) : Nat := s.lines.length

/-- The number of the line that holds the byte at an offset: as many lines start up to there. An
offset beyond the text is on the last line. -/
def lineOf (s : Source) (offset : Nat) : Nat := max 1 (s.starts.countP (· ≤ offset))

/-- The line with a number. -/
def line? (s : Source) : Nat → Option Text
  | 0 => none
  | n + 1 => s.lines[n]?

/-- The lines with their numbers. -/
def numbered (s : Source) : List (Nat × Text) :=
  s.lines.zipIdx.map fun (l, i) => (i + 1, l)

/-- The numbered lines from line `n` on. -/
def linesFrom (s : Source) (n : Nat) : List (Nat × Text) := s.numbered.drop (n - 1)

/-- A line without content: blanks only, or a comment. -/
def isSkipped (line : Text) : Bool :=
  match Text.trimStart line with
  | [] => true
  | c :: _ => c == '#'

/-- A line that may stand above a keyword: one without content, or of tags. -/
def isMarker (line : Text) : Bool :=
  match Text.trimStart line with
  | [] => true
  | c :: _ => c == '#' || c == '@'

/-- The first line from line `n` on that can hold a keyword, or `n` if there is none. -/
def keywordLine (s : Source) (n : Nat) : Nat :=
  match (s.linesFrom n).find? fun (_, l) => !isMarker l with
  | some (k, _) => k
  | none => n

end Source

end FeatureTree
