import FeatureTree.Text.Blank

/-!
Texts cut into lines and lines joined into texts.

A piece is a line together with the newline that ends it, so the pieces of a text put one after
the other are the text. A line is a piece without its newline and without the carriage return
before the newline.
-/

namespace FeatureTree.Text

/-- The pieces of a text: each ends in a newline, the last one perhaps not. -/
def pieces : Text → List Text
  | [] => []
  | c :: t =>
    if c = '\n' then [c] :: pieces t
    else match pieces t with
      | [] => [[c]]
      | p :: ps => (c :: p) :: ps

/-- Nothing is lost between the pieces. -/
@[simp] theorem flatten_pieces (t : Text) : (pieces t).flatten = t := by
  induction t with
  | nil => rfl
  | cons c t ih =>
    rw [pieces]
    split
    · simp [ih]
    · split
      · rename_i h
        rw [h] at ih
        simp_all
      · rename_i p ps h
        rw [h] at ih
        simp_all

/-- A line without one carriage return at its end. -/
def dropReturn (t : Text) : Text :=
  if t.getLast? = some '\r' then t.dropLast else t

/-- A piece without its line end, which is a newline or a carriage return and a newline. -/
def dropLineEnd (p : Text) : Text :=
  if p.getLast? = some '\n' then dropReturn p.dropLast else p

/-- The lines of a text. A newline at the end starts no further line, and a carriage return that
no newline follows belongs to its line. -/
def lines (t : Text) : List Text := (pieces t).map dropLineEnd

/-- A text cut at every `sep`, the cuts themselves left out. -/
def cutAt (sep : Char) : Text → List Text
  | [] => [[]]
  | c :: t =>
    if c = sep then [] :: cutAt sep t
    else match cutAt sep t with
      | [] => [[c]]
      | l :: ls => (c :: l) :: ls

/-- The lines with a newline between any two of them. -/
def joinLines : List Text → Text
  | [] => []
  | [l] => l
  | l :: ls => l ++ '\n' :: joinLines ls

theorem cutAt_ne_nil (sep : Char) (t : Text) : cutAt sep t ≠ [] := by
  cases t with
  | nil => simp [cutAt]
  | cons c t =>
    rw [cutAt]
    split
    · simp
    · split <;> simp

theorem joinLines_cons {ls : List Text} (l : Text) (h : ls ≠ []) :
    joinLines (l :: ls) = l ++ '\n' :: joinLines ls := by
  cases ls with
  | nil => exact absurd rfl h
  | cons _ _ => rfl

/-- A text cut at its newlines and joined again is the text. -/
@[simp] theorem joinLines_cutAt (t : Text) : joinLines (cutAt '\n' t) = t := by
  induction t with
  | nil => rfl
  | cons c t ih =>
    rw [cutAt]
    split
    · rename_i h
      rw [joinLines_cons _ (cutAt_ne_nil _ _), ih, h]
      rfl
    · split
      · rename_i h
        exact absurd h (cutAt_ne_nil _ _)
      · rename_i l ls h
        rw [h] at ih
        cases ls with
        | nil => simpa [joinLines] using ih
        | cons m ms => simpa [joinLines] using ih

/-- Texts with a separator between any two of them. -/
def joinWith (sep : Text) : List Text → Text
  | [] => []
  | [t] => t
  | t :: ts => t ++ sep ++ joinWith sep ts

/-- The text with a newline at its end, if it has none there. -/
def terminated (t : Text) : Text :=
  if t.getLast? = some '\n' then t else t ++ ['\n']

/-- The number of bytes a text takes. -/
def byteLength : Text → Nat
  | [] => 0
  | c :: t => c.utf8Size + byteLength t

@[simp] theorem byteLength_append (s t : Text) :
    byteLength (s ++ t) = byteLength s + byteLength t := by
  induction s with
  | nil => simp [byteLength]
  | cons c s ih => simp only [List.cons_append, byteLength, ih]; omega

/-- Every occurrence of `old`, from the left and without overlap, becomes `new`. The counter is
the number of characters of an occurrence that are still to be passed over. -/
def replaceFrom (old new : Text) : Nat → Text → Text
  | _, [] => []
  | k + 1, _ :: t => replaceFrom old new k t
  | 0, c :: t =>
    if old.isPrefixOf (c :: t) then new ++ replaceFrom old new (old.length - 1) t
    else c :: replaceFrom old new 0 t

/-- Every occurrence of the nonempty text `old` becomes `new`. -/
def replace (old new t : Text) : Text := replaceFrom old new 0 t

end FeatureTree.Text
