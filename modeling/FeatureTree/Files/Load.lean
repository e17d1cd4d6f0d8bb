import FeatureTree.Document.Read
import FeatureTree.Files.Tree

/-!
Loading feature files, and all the feature files of a directory. The first file that cannot be
read or parsed decides.
-/

namespace FeatureTree

/-- A file with this path and content. -/
def FeatureFile.ofContent (path : Text) (d : Dialect) (content : ByteArray) :
    Except Error FeatureFile := do
  match String.fromUTF8? content with
  | some s =>
    let file ← Document.read path d s.toList
    return { file with path := some path }
  | none => .error (.notUtf8 path)

/-- The feature file at a path. -/
def FeatureFile.load (root : FileTree) (path : Text) (d : Dialect) : Except Error FeatureFile :=
  match root.get? path with
  | some (.file content) => FeatureFile.ofContent path d content
  | _ => .error (.notAFile path)

/-- Whether a path has the extension of a feature file. -/
def Path.isFeatureFile (p : Text) : Bool := Path.extension? p == some "feature".toList

/-- The directory at a path, with all the feature files below it. -/
def Directory.load (root : FileTree) (path : Text) (d : Dialect) : Except Error Directory :=
  match root.get? path with
  | some (.dir es) => do
    let found := (FileTree.filesIn path es).filter fun f => Path.isFeatureFile f.1
    return ⟨some path, ← found.mapM fun f => FeatureFile.ofContent f.1 d f.2⟩
  | _ => .error (.notADirectory path)

/-- The last component of the path. -/
def FeatureFile.name? (f : FeatureFile) : Option Text := f.path.bind Path.fileName?

/-- The last component of the path. -/
def Directory.name? (d : Directory) : Option Text := d.path.bind Path.fileName?

end FeatureTree
