import FeatureTree.Dialect.Basic

/-!
The settings of the program: which events are logged, and the dialect of files that name none.
-/

namespace FeatureTree

inductive LogLevel where
  | trace | debug | info | warn | error
  deriving DecidableEq

namespace LogLevel

def all : List LogLevel := [trace, debug, info, warn, error]

def name : LogLevel → Text
  | trace => "trace".toList
  | debug => "debug".toList
  | info => "info".toList
  | warn => "warn".toList
  | error => "error".toList

/-- The level with a name. The case of letters from A to Z does not count, and a warning may be
written out. -/
def ofText (t : Text) : Except Error LogLevel :=
  let wanted := (Text.trim t).map Char.toLower
  let wanted := if wanted = "warning".toList then "warn".toList else wanted
  match all.find? (·.name == wanted) with
  | some l => .ok l
  | none => .error (.unknownLogLevel t)

end LogLevel

structure Config where
  logLevel : LogLevel := .warn
  dialect : Dialect := .english
  deriving DecidableEq

/-- The settings that two variables give. -/
def Config.ofVariables (logLevel dialect : Option Text) : Except Error Config := do
  let level ← match logLevel with
    | some t => LogLevel.ofText t
    | none => .ok .warn
  let dialect ← match dialect with
    | some t => if Text.isBlankText t then .error .emptyDialect else .ok (Dialect.ofCode t)
    | none => .ok .english
  return ⟨level, dialect⟩

end FeatureTree
