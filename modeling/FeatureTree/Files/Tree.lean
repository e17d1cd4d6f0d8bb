import FeatureTree.Files.Path

/-!
A tree of files as plain data. The entries of a directory are sorted by name, so a walk through
the tree meets them in that order, a directory in its place among the files.
-/

namespace FeatureTree

inductive FileTree where
  | file (content : ByteArray)
  | dir (entries : List (Text × FileTree))

namespace FileTree

def empty : FileTree := .dir []

/-- Puts an entry at its place in the order of names, in the stead of any of the same name. -/
def putEntry (n : Text) (t : FileTree) : List (Text × FileTree) → List (Text × FileTree)
  | [] => [(n, t)]
  | (m, u) :: es =>
    if n < m then (n, t) :: (m, u) :: es
    else if n = m then (n, t) :: es
    else (m, u) :: putEntry n t es

/-- Writes a tree at a place below a directory, making the directories on the way. None if a file
is in the way. -/
def write? (t : FileTree) : List Text → FileTree → Option FileTree
  | _, .file _ => none
  | [], .dir _ => none
  | [n], .dir es =>
    match es.lookup n, t with
    | some (.dir _), .file _ => none
    | some (.dir fs), .dir _ => some (.dir (putEntry n (.dir fs) es))
    | some (.file _), .dir _ => none
    | _, _ => some (.dir (putEntry n t es))
  | n :: ns, .dir es =>
    (write? t ns ((es.lookup n).getD empty)).map fun u => .dir (putEntry n u es)

/-- The entry that components lead to, from the first of nested directories. An empty component
and a dot stay in a directory, two dots leave it, and nothing leads on from a file. -/
def follow? : List FileTree → List Text → Option FileTree
  | [], _ => none
  | t :: _, [] => some t
  | .file _ :: _, _ :: _ => none
  | .dir es :: up, c :: cs =>
    if c.isEmpty || c == ['.'] then follow? (.dir es :: up) cs
    else if c == ['.', '.'] then follow? up cs
    else match es.lookup c with
      | some t => follow? (t :: .dir es :: up) cs
      | none => none
termination_by _ cs => cs.length

/-- The entry at a path below the root. An empty path and one from the top of the system lead
nowhere. -/
def get? (root : FileTree) (path : Text) : Option FileTree :=
  match path with
  | [] => none
  | '/' :: _ => none
  | p => follow? [root] (p.cutAt '/')

mutual

/-- All files at and below a path, with their paths. -/
def files (path : Text) : FileTree → List (Text × ByteArray)
  | .file b => [(path, b)]
  | .dir es => filesIn path es

def filesIn (path : Text) : List (Text × FileTree) → List (Text × ByteArray)
  | [] => []
  | (n, t) :: es => files (Path.join path n) t ++ filesIn path es

end

end FileTree

end FeatureTree
