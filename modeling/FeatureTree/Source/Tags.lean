import FeatureTree.Source.Basic

/-!
The tags written above a keyword, each with its line.

Tag lines, comments and blank lines may alternate above a keyword; the first other line ends the
search. On a tag line the words that start with an at sign are the tags, up to a word that starts
a comment.
-/

namespace FeatureTree

/-- Something that was found on a line. -/
structure Located (α : Type) where
  line : Nat
  value : α
  deriving DecidableEq

namespace Source

/-- The tags of one line. -/
def tagsOf (line : Text) : List Text :=
  ((Text.words line).takeWhile (·.head? != some '#')).filter (·.head? == some '@')

/-- The tags on line `n` and on the lines above it, from the top down. The search goes up line by
line and ends at the first that is no marker; there is nothing to find from beyond the last line. -/
def tagsUpFrom (s : Source) : Nat → List (Located Text)
  | 0 => []
  | n + 1 =>
    match s.line? (n + 1) with
    | none => []
    | some l => if isMarker l then s.tagsUpFrom n ++ (tagsOf l).map (⟨n + 1, ·⟩) else []

/-- The tags above line `k`, from the top down. -/
def tagsAbove (s : Source) (k : Nat) : List (Located Text) := s.tagsUpFrom (k - 1)

/-- The line of the first tag of that name, and the tags without it. -/
def take? (name : Text) : List (Located Text) → Option (Nat × List (Located Text))
  | [] => none
  | t :: ts =>
    if t.value = name then some (t.line, ts)
    else (take? name ts).map fun (n, r) => (n, t :: r)

/-- The line of each name, where no tag serves two names. -/
def assign : List Text → List (Located Text) → List (Option Nat)
  | [], _ => []
  | name :: names, ts =>
    match take? name ts with
    | some (n, r) => some n :: assign names r
    | none => none :: assign names ts

end Source

end FeatureTree
