import FeatureTree.Grammar.Dedent
import FeatureTree.Grammar.Parse
import FeatureTree.Markup.Fence
import FeatureTree.Text.Layout

/-!
The rules of the grammar, from doc strings and tables up to the feature.

Choices are tried in order and never taken back once a rule has found something. A feature text
is one that the feature rule reads to its end without a fault.
-/

namespace FeatureTree.Grammar

open Parse

/-- A doc string in either fence, without its margin. -/
def docString : Parse Text := do
  let body ← orElse (read (fence? Fence.quotes.mark)) (read (fence? Fence.backquotes.mark))
  return dedent body

/-- A table. The first row says how many cells a row has: more are dropped, and fewer are a
fault. -/
def table : Parse Table := do
  let start ← mark
  skip skipSpaces
  let rows ← spaced1 (read row?)
  let stop ← mark
  let width := (rows.headD []).length
  if rows.any (·.length < width) then reject
  else return ⟨rows.map (·.take width), ← span start stop, ← position start⟩

/-- A step with one of some keywords. -/
def stepWith (f : Keywords → List String) (type : Parse StepType) : Parse Step := do
  let start ← mark
  let keyword ← keyword f
  skip skipSpaces
  let value ← read lineText?
  let stop ← mark
  skip skipSpaces
  expect layout?
  skip skipSpaces
  let docString ← optional docString
  let table ← optional table
  let type ← type
  setLast (some type)
  return ⟨keyword, type, Text.trimEnd value, docString, table, ← span start stop, ← position start⟩

/-- A step. A conjunction is of the type of the step before it. -/
def step : Parse Step :=
  orElse (do skip skipComments; stepWith Keywords.stepGiven (pure .context)) <|
  orElse (stepWith Keywords.stepWhen (pure .action)) <|
  orElse (stepWith Keywords.stepThen (pure .outcome)) <|
  orElse (stepWith Keywords.stepAnd last) (stepWith Keywords.stepBut last)

def steps : Parse (List Step) := do
  let ss ← spaced step
  setLast none
  return ss

/-- The words that end the description of a test. -/
def stepWords (k : Keywords) : List String :=
  k.scenario ++ k.outline ++ k.stepGiven ++ k.stepWhen ++ k.stepThen ++ k.stepAnd ++ k.stepBut

/-- The words that end the description of examples. -/
def examplesWords (k : Keywords) : List String := stepWords k ++ ["|"]

/-- The words that end the description of a rule. -/
def ruleWords (k : Keywords) : List String := k.background ++ k.scenario ++ k.outline

/-- The words that end the description of a feature. -/
def featureWords (k : Keywords) : List String :=
  k.background ++ k.rule ++ k.scenario ++ k.outline

/-- A line of a description: no tag and none of the words. -/
def descriptionLine (f : Keywords → List String) : Parse Text := do
  skip skipSpaces
  refuse fun t => t.head? == some '@'
  let ws ← words f
  refuse fun t => (keyword? ws t).isSome
  skip skipSpaces
  let l ← read lineText?
  expect layout?
  return l

/-- The lines of a description, joined; nothing if they are blank. -/
def description (f : Keywords → List String) : Parse Text := do
  let ls ← spaced (descriptionLine f)
  skip skipLayout
  let text := Text.joinLines ls
  return if Text.isBlankText text then [] else text

/-- The colon and the name after a keyword, to the end of the line. -/
def name : Parse Text := do
  expect (afterWord? [':'])
  skip skipSpaces
  let n ← optional (read lineText?)
  skip skipSpaces
  expect layout?
  return Text.trimEnd (n.getD [])

/-- Tags with any layout between them, and the line ends after them. -/
def tags : Parse (List Text) := do
  let first ← optional (read tag?)
  let ts ← match first with
    | some t => do
      let ts ← many (do skip skipLayout; read tag?)
      pure (t :: ts)
    | none => pure []
  skip skipSpaces
  skip skipLineEnds
  return ts

def background : Parse Background := do
  skip skipComments
  skip skipSpaces
  let start ← mark
  let keyword ← keyword Keywords.background
  let name ← name
  let description ← description stepWords
  let steps ← steps
  let stop ← mark
  return ⟨keyword, name, description, steps, ← span start stop, ← position start⟩

def examples : Parse Examples := do
  skip skipComments
  skip skipSpaces
  let tags ← tags
  skip skipSpaces
  let start ← mark
  let keyword ← keyword Keywords.examples
  let name ← name
  let description ← description examplesWords
  let table ← optional table
  let stop ← mark
  return ⟨keyword, name, description, tags, table, ← span start stop, ← position start⟩

def scenarioWith (f : Keywords → List String) : Parse Scenario := do
  skip skipComments
  skip skipSpaces
  let tags ← tags
  skip skipSpaces
  let start ← mark
  let keyword ← keyword f
  let name ← name
  let description ← description stepWords
  let steps ← steps
  let examples ← many examples
  let stop ← mark
  return ⟨keyword, name, description, tags, steps, examples, ← span start stop, ← position start⟩

def scenario : Parse Scenario :=
  orElse (scenarioWith Keywords.scenario) (scenarioWith Keywords.outline)

def scenarios : Parse (List Scenario) := do
  skip skipSpaces
  spaced scenario

def rule : Parse Rule := do
  skip skipSpaces
  let _ ← tags
  skip skipSpaces
  let keyword ← keyword Keywords.rule
  let name ← name
  let _ ← description ruleWords
  let _ ← optional background
  skip skipLineEnds
  let scenarios ← scenarios
  skip skipLineEnds
  return ⟨keyword, name, scenarios⟩

def rules : Parse (List Rule) := do
  skip skipSpaces
  spaced rule

/-- A line that switches to another language. A language that is not known is a fault. -/
def language : Parse Unit := do
  skip (repeated fun t => space? t <|> newline? t)
  expect (afterWord? ['#'])
  skip skipSpaces
  expect (afterWord? "language".toList)
  skip skipSpaces
  expect (afterWord? [':'])
  skip skipSpaces
  let code ← read lineText?
  skip skipSpaces
  expect lineEnd?
  match Keywords.ofCode? code with
  | some k => setKeywords k
  | none => reject

def feature : Parse Feature := do
  skip skipSpaces
  let _ ← optional language
  skip skipLineEnds
  let tags ← tags
  let start ← mark
  let keyword ← keyword Keywords.feature
  let name ← name
  let description ← description featureWords
  let background ← optional background
  skip skipLineEnds
  let scenarios ← scenarios
  skip skipLineEnds
  let rules ← rules
  let stop ← mark
  skip skipLineEnds
  return ⟨keyword, name, description, tags, background, scenarios, rules, ← span start stop,
    ← position start⟩

/-- The feature that a text holds in a language, if the grammar accepts the text. -/
def parse? (k : Keywords) (t : Text) : Option Feature :=
  match feature ⟨t, Text.byteLength t, t, k, none, false⟩ with
  | (some f, s) => if s.fatal || !s.rest.isEmpty then none else some f
  | (none, _) => none

end FeatureTree.Grammar
