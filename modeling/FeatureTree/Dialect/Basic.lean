import FeatureTree.Dialect.Keywords
import FeatureTree.Error
import FeatureTree.Source.Comments

/-!
A dialect is a language code. A file can name its own in a comment above its first statement.
-/

namespace FeatureTree

structure Dialect where
  code : Text
  deriving DecidableEq

namespace Dialect

def ofCode (code : Text) : Dialect := ⟨Text.trim code⟩

/-- English is written where nothing else is said. -/
def english : Dialect := ofCode "en".toList

def keywords (d : Dialect) : Except Error Keywords :=
  match Keywords.ofCode? d.code with
  | some k => .ok k
  | none => .error (.unsupportedDialect d.code)

/-- The characters of a language code in a header. -/
def isCodeChar (c : Char) : Bool := c.isAlphanum || c == '_' || c == '-'

/-- The code in a language header: one word of code characters after the colon. -/
def headerCode? (line : Text) : Option Text :=
  match Text.trim line with
  | '#' :: t =>
    let t := Text.trimStart t
    if "language:".toList.isPrefixOf t then
      let code := Text.trim (t.drop 9)
      if code.all isCodeChar && !code.isEmpty then some code else none
    else none
  | _ => none

/-- The dialect named by the first language header among the comments at the top of a text. -/
def declared? (t : Text) : Option Dialect :=
  let top := ((t.lines.map Text.trim).filter (! ·.isEmpty)).takeWhile (·.head? == some '#')
  (top.find? Source.isLanguageHeader).bind fun line => (headerCode? line).map ofCode

end Dialect

end FeatureTree
