import FeatureTree.Text.Lines

/-!
Paths as texts. A path keeps the spelling it was given; only its components are read off it.
-/

namespace FeatureTree.Path

/-- The components of a path, without empty ones and those that stand for the directory itself. -/
def components (p : Text) : List Text :=
  (p.cutAt '/').filter fun c => !(c.isEmpty || c == ['.'])

/-- The last component, unless the path ends by going up or has none. -/
def fileName? (p : Text) : Option Text :=
  (components p).getLast?.filter (· != ['.', '.'])

/-- The part of a file name after its last dot. A dot at the very start begins no extension. -/
def extension? (p : Text) : Option Text :=
  match fileName? p with
  | none => none
  | some n =>
    match n.reverse.span (· != '.') with
    | (ext, '.' :: _ :: _) => some ext.reverse
    | _ => none

/-- A name below a directory. -/
def join (dir name : Text) : Text :=
  if dir.getLast? = some '/' then dir ++ name else dir ++ '/' :: name

end FeatureTree.Path
