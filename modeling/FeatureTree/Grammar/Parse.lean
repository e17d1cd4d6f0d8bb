import FeatureTree.Dialect.Keywords
import FeatureTree.Grammar.Lexical
import FeatureTree.Grammar.Tree

/-!
Parsing with ordered choice.

A parser that fails leaves the text where it was for the next choice. What it learned stays: the
language that was switched to, the type of the last step, and whether a fault was met that rejects
the text whatever else is found.
-/

namespace FeatureTree.Grammar

structure State where
  /-- The text from its start. -/
  whole : Text
  /-- The number of bytes of the whole text. -/
  size : Nat
  /-- The text that is still to be read. -/
  rest : Text
  keywords : Keywords
  /-- The type of the step before. -/
  last : Option StepType := none
  /-- A fault that rejects the text was met. -/
  fatal : Bool := false

def Parse (α : Type) : Type := State → Option α × State

namespace Parse

instance : Monad Parse where
  pure a := fun s => (some a, s)
  bind p f := fun s =>
    match p s with
    | (some a, s) => f a s
    | (none, s) => (none, s)

@[simp] theorem pure_run (a : α) (s : State) : (pure a : Parse α) s = (some a, s) := rfl

theorem bind_run (p : Parse α) (f : α → Parse β) (s : State) :
    (p >>= f) s =
      match p s with
      | (some a, s) => f a s
      | (none, s) => (none, s) := rfl

/-- The first parser, or the second one from the same place. -/
def orElse (p q : Parse α) : Parse α := fun s =>
  match p s with
  | (some a, s') => (some a, s')
  | (none, s') => q { s' with rest := s.rest }

/-- What a parser finds, if anything. -/
def optional (p : Parse α) : Parse (Option α) := fun s =>
  match p s with
  | (some a, s') => (some (some a), s')
  | (none, s') => (some none, { s' with rest := s.rest })

/-- All that a parser finds in a row, as long as it gets ahead. -/
def collect (p : Parse α) (s : State) : List α × State :=
  match p s with
  | (some a, s') =>
    if s'.rest.length < s.rest.length then
      let (as, s'') := collect p s'
      (a :: as, s'')
    else ([a], s')
  | (none, s') => ([], { s' with rest := s.rest })
termination_by s.rest.length

def many (p : Parse α) : Parse (List α) := fun s =>
  let (as, s) := collect p s
  (some as, s)

/-- Moves on in the text. -/
def skip (f : Text → Text) : Parse Unit := fun s => (some (), { s with rest := f s.rest })

/-- Reads a value off the front of the text. -/
def read (f : Text → Option (α × Text)) : Parse α := fun s =>
  match f s.rest with
  | some (a, r) => (some a, { s with rest := r })
  | none => (none, s)

/-- Moves on in the text, where it can. -/
def expect (f : Text → Option Text) : Parse Unit := read fun t => (f t).map fun r => ((), r)

/-- Succeeds where the text does not go on like that, and reads nothing. -/
def refuse (f : Text → Bool) : Parse Unit := fun s =>
  if f s.rest then (none, s) else (some (), s)

/-- Items with spaces between them, at least one. -/
def spaced1 (p : Parse α) : Parse (List α) := do
  let a ← p
  let as ← many (do skip skipSpaces; p)
  return a :: as

/-- Items with spaces between them. -/
def spaced (p : Parse α) : Parse (List α) := orElse (spaced1 p) (pure [])

/-- The words of the current language. -/
def words (f : Keywords → List String) : Parse (List String) := fun s => (some (f s.keywords), s)

/-- A keyword of the current language. -/
def keyword (f : Keywords → List String) : Parse Text := do
  let ws ← words f
  read (keyword? ws)

/-- Remembers a fault, and fails. -/
def reject : Parse α := fun s => (none, { s with fatal := true })

def setLast (ty : Option StepType) : Parse Unit := fun s => (some (), { s with last := ty })

def setKeywords (k : Keywords) : Parse Unit := fun s => (some (), { s with keywords := k })

/-- The type of the step before; fails if there is none. -/
def last : Parse StepType := fun s => (s.last, s)

/-- The text from here on, as a mark of the place. -/
def mark : Parse Text := fun s => (some s.rest, s)

/-- The bytes between two marks. -/
def span (start stop : Text) : Parse Span := fun s =>
  (some ⟨s.size - Text.byteLength start, s.size - Text.byteLength stop⟩, s)

/-- The line and column of a mark. -/
def position (start : Text) : Parse Position := fun s =>
  let before := readPart s.whole start
  let column := Text.byteLength (before.reverse.takeWhile (· != '\n'))
  (some ⟨before.count '\n' + 1, column + 1⟩, s)

end Parse

end FeatureTree.Grammar
