import FeatureTree.Fragment.Basic
import FeatureTree.Json.Print

/-!
What can go wrong, and how it is reported.
-/

namespace FeatureTree

inductive Error where
  /-- The text of a file does not follow the grammar. -/
  | rejected (file : Text)
  /-- A stand-alone text follows the grammar and does not hold what it should. -/
  | missing (part : Fragment)
  /-- A document names an element that no feature file has. -/
  | unknownElementType (name : Text)
  | unsupportedDialect (code : Text)
  /-- A value that is neither a list nor an object cannot become a row. -/
  | notARow (value : Json)
  /-- Examples without a parameter row cannot take another row. -/
  | noParameters
  | notAFile (path : Text)
  | notADirectory (path : Text)
  | notUtf8 (path : Text)
  | unknownLogLevel (text : Text)
  | emptyDialect

/-- The groups in which errors are reported. -/
inductive ErrorClass where
  | grammar | unknownElementType | argument | state | input | config
  deriving DecidableEq

namespace Error

def errorClass : Error → ErrorClass
  | rejected _ => .grammar
  | missing _ => .grammar
  | unknownElementType _ => .unknownElementType
  | unsupportedDialect _ => .argument
  | notARow _ => .argument
  | noParameters => .state
  | notAFile _ => .argument
  | notADirectory _ => .argument
  | notUtf8 _ => .input
  | unknownLogLevel _ => .config
  | emptyDialect => .config

/-- A text in single quotes. -/
def quote (t : Text) : Text := '\'' :: t ++ ['\'']

/-- The report of an error. -/
def message : Error → Text
  | rejected file => "failed to parse ".toList ++ quote file ++ ": unexpected text".toList
  | missing part =>
    "failed to parse ".toList ++ quote part.file ++ ": no ".toList ++ part.label
      ++ " found in stand-alone text".toList
  | unknownElementType name => "unknown element type ".toList ++ quote name
  | unsupportedDialect code =>
    "invalid argument: unsupported dialect ".toList ++ quote code
      ++ ": Requested language ".toList ++ quote code ++ " is not supported.".toList
  | notARow value =>
    "invalid argument: can only add rows from sequences or mappings, got ".toList
      ++ value.compact
  | noParameters => "invalid state: cannot add a row: no parameters have been set".toList
  | notAFile path =>
    "invalid argument: ".toList ++ quote path ++ " is not an existing feature file".toList
  | notADirectory path =>
    "invalid argument: ".toList ++ quote path ++ " is not a directory".toList
  | notUtf8 path =>
    "failed to read ".toList ++ quote path ++ ": stream did not contain valid UTF-8".toList
  | unknownLogLevel text =>
    "invalid configuration: GHERKIN_MODEL_LOG_LEVEL: unknown log level ".toList ++ quote text
      ++ ", expected trace, debug, info, warn or error".toList
  | emptyDialect =>
    "invalid configuration: GHERKIN_MODEL_DIALECT is set but empty, expected a language code".toList

/-- The file that a grammar error names. -/
def file? : Error → Option Text
  | rejected file => some file
  | missing part => some part.file
  | _ => none

end Error

end FeatureTree
