/-!
Texts as lists of characters, and the blanks around them.

A blank is a character with the Unicode property White_Space. Trimming, indentation and the
split of a tag line into words all go by this one class; the separators U+001C to U+001F, the
zero width space and the byte order mark are not in it.
-/

namespace FeatureTree

/-- A text is the list of its characters. -/
abbrev Text := List Char

namespace Text

/-- The characters with the property White_Space. -/
def isBlank (c : Char) : Bool :=
  let n := c.toNat
  (9 ≤ n && n ≤ 13) || n == 0x20 || n == 0x85 || n == 0xA0 || n == 0x1680
    || (0x2000 ≤ n && n ≤ 0x200A) || n == 0x2028 || n == 0x2029 || n == 0x202F
    || n == 0x205F || n == 0x3000

def trimStart (t : Text) : Text := t.dropWhile isBlank

def trimEnd (t : Text) : Text := (t.reverse.dropWhile isBlank).reverse

def trim (t : Text) : Text := trimEnd (trimStart t)

/-- A text of blanks only. -/
def isBlankText (t : Text) : Bool := t.all isBlank

/-- The trimmed text, unless nothing is left of it. -/
def trimmed? (t : Text) : Option Text :=
  match trim t with
  | [] => none
  | s => some s

/-- The number of blanks a line starts with. -/
def indentation (t : Text) : Nat := (t.takeWhile isBlank).length

/-- A line without its first `w` blanks, or without all of them if it has fewer. -/
def stripIndent : Nat → Text → Text
  | 0, t => t
  | _, [] => []
  | w + 1, c :: t => if isBlank c then stripIndent w t else c :: t

/-- The words of a line: its maximal parts without blanks. -/
def words : Text → List Text
  | [] => []
  | c :: t =>
    if isBlank c then words t
    else if (t.head?.map isBlank).getD true then [c] :: words t
    else match words t with
      | [] => [[c]]
      | w :: ws => (c :: w) :: ws

end Text

end FeatureTree
