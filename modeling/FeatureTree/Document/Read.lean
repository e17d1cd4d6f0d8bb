import FeatureTree.Dialect.Basic
import FeatureTree.Document.Locate
import FeatureTree.Grammar.Rules
import FeatureTree.Markup.Mask

/-!
Reading the text of a feature file.

The text is masked, parsed in the dialect that it declares or that is given, and located in the
text without masks. A text of comments and blank lines only is a file without a feature.
-/

namespace FeatureTree.Document

/-- Whether no line of a text has content. -/
def isFeatureless (t : Text) : Bool := t.lines.all Source.isSkipped

/-- The file that a text holds, whose first `shell` lines do not count. -/
def readInShell (shell : Nat) (file : Text) (d : Dialect) (t : Text) :
    Except Error FeatureFile := do
  let t := t.terminated
  let frame : Frame := ⟨Source.ofText t, shell⟩
  if isFeatureless t then Locate.file frame file none
  else
    let keywords ← ((Dialect.declared? t).getD d).keywords
    match Grammar.parse? keywords t.masked with
    | some f => Locate.file frame file (some f)
    | none => .error (.rejected file)

/-- The file that a text holds. -/
def read (file : Text) (d : Dialect) (t : Text) : Except Error FeatureFile :=
  readInShell 0 file d t

end FeatureTree.Document
