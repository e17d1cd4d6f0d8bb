import FeatureTree.Text.Lines

/-!
The lexical rules of the grammar: blanks, line ends, comments, keywords, cells, tags and fenced
text. Each reads off the front of a text.

A line may end in a comment wherever it may end at all, and a comment runs to the end of its line.
-/

namespace FeatureTree.Grammar

/-- Reads as often as it can, as long as it gets ahead. -/
def repeated (f : Text → Option Text) (t : Text) : Text :=
  match f t with
  | some r => if r.length < t.length then repeated f r else r
  | none => t
termination_by t.length

/-- What was read between a text and its rest. -/
def readPart (t rest : Text) : Text := t.take (t.length - rest.length)

/-- A text after a word it starts with. -/
def afterWord? : Text → Text → Option Text
  | [], t => some t
  | _ :: _, [] => none
  | a :: w, b :: t => if a = b then afterWord? w t else none

theorem afterWord?_eq_some_iff {w t r : Text} : afterWord? w t = some r ↔ t = w ++ r := by
  induction w generalizing t with
  | nil => simp [afterWord?]
  | cons a w ih =>
    cases t with
    | nil => simp [afterWord?]
    | cons b t =>
      by_cases h : a = b
      · subst h
        simp [afterWord?, ih]
      · simp [afterWord?, h, Ne.symm h]

def isSpace (c : Char) : Bool := c == ' ' || c == '\t'

def skipSpaces (t : Text) : Text := t.dropWhile isSpace

/-- A newline, perhaps after a carriage return. -/
def newline? : Text → Option Text
  | '\n' :: t => some t
  | '\r' :: '\n' :: t => some t
  | _ => none

/-- The rest of the line, and the text from its end on. -/
def restOfLine : Text → Text × Text
  | [] => ([], [])
  | c :: t =>
    if (newline? (c :: t)).isSome then ([], c :: t)
    else ((c :: (restOfLine t).1), (restOfLine t).2)

@[simp] theorem restOfLine_append (t : Text) : (restOfLine t).1 ++ (restOfLine t).2 = t := by
  induction t with
  | nil => rfl
  | cons c t ih =>
    rw [restOfLine]
    split <;> simp [ih]

/-- The rest of the line, which must not be empty. -/
def lineText? (t : Text) : Option (Text × Text) :=
  match restOfLine t with
  | ([], _) => none
  | p => some p

/-- A comment up to the end of its line. -/
def commentText? (t : Text) : Option Text :=
  match skipSpaces t with
  | '#' :: r => some (restOfLine r).2
  | _ => none

/-- The end of a line, perhaps after a comment. -/
def lineEnd? (t : Text) : Option Text := newline? ((commentText? t).getD t)

def space? : Text → Option Text
  | c :: t => if isSpace c then some t else none
  | [] => none

/-- Passes over line ends and spaces. -/
def skipLayout (t : Text) : Text := repeated (fun t => lineEnd? t <|> space? t) t

/-- Passes over line ends. -/
def skipLineEnds (t : Text) : Text := repeated lineEnd? t

/-- At least one line end or space, or the end of the text. -/
def layout? (t : Text) : Option Text :=
  let r := skipLayout t
  if r.length < t.length || t.isEmpty then some r else none

/-- A comment and the layout after it. -/
def comment? (t : Text) : Option Text := (commentText? t).bind layout?

/-- Passes over comments. -/
def skipComments (t : Text) : Text := repeated comment? t

/-- The first of some words that the text starts with, after any comments. -/
def keyword? (ws : List String) (t : Text) : Option (Text × Text) :=
  let t := skipComments t
  ws.findSome? fun w => (afterWord? w.toList t).map fun r => (w.toList, r)

/-- The text up to a pipe or the end of the line. -/
def cellText : Text → Text × Text
  | [] => ([], [])
  | c :: t =>
    if c = '|' || (newline? (c :: t)).isSome then ([], c :: t)
    else ((c :: (cellText t).1), (cellText t).2)

/-- A pipe and the cell after it. A pipe at the end of a line opens no cell. -/
def cell? : Text → Option (Text × Text)
  | '|' :: t =>
    let t := skipSpaces t
    if t.isEmpty || (newline? t).isSome then none else some (cellText t)
  | _ => none

/-- Cells up to the last pipe. -/
def cells (t : Text) : List Text × Text :=
  match cell? t with
  | some (c, r) =>
    if r.length < t.length then
      let next := skipSpaces r
      match cell? next with
      | some _ =>
        if next.length < t.length then
          let (cs, r) := cells next
          (Text.trim c :: cs, r)
        else ([Text.trim c], r)
      | none => ([Text.trim c], r)
    else ([Text.trim c], r)
  | none => ([], t)
termination_by t.length

/-- A row of cells between pipes, and the layout after it. -/
def row? (t : Text) : Option (List Text × Text) :=
  let (cs, r) := cells t
  match skipSpaces r with
  | '|' :: r => (layout? (skipSpaces r)).map fun r => (cs, r)
  | _ => none

/-- An at sign and a name without blanks and at signs. -/
def tag? : Text → Option (Text × Text)
  | '@' :: t =>
    match t.span fun c => !(Text.isBlank c || c == '@') with
    | ([], _) => none
    | p => some p
  | _ => none

/-- Passes over a line end or a character that does not start the mark. -/
def fenced? (mark : Text) (t : Text) : Option Text :=
  if mark.isPrefixOf t then none else lineEnd? t <|> t.tail?

/-- The text between two marks. A comment on one of its lines hides any mark up to the end of
that line. -/
def fence? (mark : Text) (t : Text) : Option (Text × Text) := do
  let body ← afterWord? mark t
  let stop := repeated (fenced? mark) body
  let r ← afterWord? mark stop
  let r ← layout? r
  return (readPart body stop, r)

end FeatureTree.Grammar
