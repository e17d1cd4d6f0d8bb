import FeatureTree.Proofs.Source.Placed
import FeatureTree.Proofs.Text.Stretch

/-!
The line index by offsets.

A line starts at the first byte of a text and behind each newline, if anything stands there, and
goes up to the byte before the next start. Lines that are cut out of the text at these offsets are
the lines of its pieces.
-/

namespace FeatureTree

namespace Text

/-! ### Parts between offsets -/

/-- What follows the first `n` bytes, which must be those of whole characters. -/
def dropBytes : Nat → Text → Text
  | _, [] => []
  | n, c :: t => if n = 0 then c :: t else dropBytes (n - c.utf8Size) t

/-- The first `n` bytes, which must be those of whole characters. -/
def takeBytes : Nat → Text → Text
  | _, [] => []
  | n, c :: t => if n = 0 then [] else c :: takeBytes (n - c.utf8Size) t

/-- The part of a text from one offset up to another. -/
def slice (t : Text) (start stop : Nat) : Text := takeBytes (stop - start) (dropBytes start t)

lemma byteLength_cons_sub (c : Char) (t : Text) :
    byteLength (c :: t) ≠ 0 ∧ byteLength (c :: t) - c.utf8Size = byteLength t := by
  have := c.utf8Size_pos
  rw [byteLength]
  omega

lemma dropBytes_append (s t : Text) : dropBytes (byteLength s) (s ++ t) = t := by
  induction s with
  | nil => cases t <;> rfl
  | cons c s ih =>
    obtain ⟨hne, hrest⟩ := byteLength_cons_sub c s
    rw [List.cons_append, dropBytes, if_neg hne, hrest, ih]

lemma takeBytes_append (s t : Text) : takeBytes (byteLength s) (s ++ t) = s := by
  induction s with
  | nil => cases t <;> rfl
  | cons c s ih =>
    obtain ⟨hne, hrest⟩ := byteLength_cons_sub c s
    rw [List.cons_append, takeBytes, if_neg hne, hrest, ih]

lemma slice_append (s l t : Text) {stop : Nat} (h : stop = byteLength s + byteLength l) :
    slice (s ++ (l ++ t)) (byteLength s) stop = l := by
  have hlength : stop - byteLength s = byteLength l := by omega
  rw [slice, dropBytes_append, hlength, takeBytes_append]

end Text

namespace Source

open Text

/-! ### Starts and the lines between them -/

/-- The offsets behind the newlines of a text that starts at offset `o`. -/
def behindNewlines (o : Nat) : Text → List Nat
  | [] => []
  | c :: t =>
    if c = '\n' then (o + 1) :: behindNewlines (o + 1) t else behindNewlines (o + c.utf8Size) t

/-- The lines that start at some offsets. Each goes up to the byte before the next start, and the
last one to the end of the text. -/
def linesBetween (t : Text) : List Nat → List Text
  | [] => []
  | [start] => [lineOfPiece (slice t start (byteLength t))]
  | start :: next :: starts =>
    lineOfPiece (slice t start (next - 1)) :: linesBetween t (next :: starts)

/-- The index of a text by the offsets at which its lines start. -/
def ofStarts (t : Text) : Source :=
  let starts := (0 :: behindNewlines 0 t).filter (· < byteLength t)
  ⟨linesBetween t starts, starts⟩

lemma eq_nil_of_pieces_eq_nil {t : Text} (h : t.pieces = []) : t = [] := by
  rw [← flatten_pieces t, h]
  rfl

/-- A piece starts at the first byte and behind each newline that is not the last character. -/
lemma offsets_pieces (o : Nat) (t : Text) :
    offsets o t.pieces = (o :: behindNewlines o t).filter (· < o + byteLength t) := by
  induction t generalizing o with
  | nil => simp [pieces, offsets, behindNewlines, byteLength]
  | cons c t ih =>
    have hpos := c.utf8Size_pos
    have hhead : o < o + byteLength (c :: t) := by
      rw [byteLength]
      omega
    have hend : o + byteLength (c :: t) = o + c.utf8Size + byteLength t := by
      rw [byteLength]
      omega
    rw [List.filter_cons_of_pos (by simpa using hhead), hend, pieces, behindNewlines]
    by_cases hc : c = '\n'
    · subst hc
      rw [if_pos rfl, if_pos rfl, offsets]
      exact congrArg (o :: ·) (ih (o + 1))
    · rw [if_neg hc, if_neg hc]
      have hrest := ih (o + c.utf8Size)
      cases hp : pieces t with
      | nil =>
        -- nothing follows, so there are no further starts
        obtain rfl := eq_nil_of_pieces_eq_nil hp
        rfl
      | cons p ps =>
        -- the first piece starts one character earlier, and the others where they did
        have ht : t ≠ [] := by
          rintro rfl
          simp [pieces] at hp
        have hlt : o + c.utf8Size < o + c.utf8Size + byteLength t := by
          have := byteLength_pos ht
          omega
        rw [hp, List.filter_cons_of_pos (by simpa using hlt), offsets] at hrest
        have htail := (List.cons.inj hrest).2
        dsimp only
        rw [offsets, byteLength, ← Nat.add_assoc, htail]

/-- What is cut out of a text at the offsets of its pieces are their lines. -/
lemma linesBetween_offsets (s t : Text) :
    linesBetween (s ++ t) (offsets (byteLength s) t.pieces) = t.pieces.map lineOfPiece := by
  induction t using line_induction generalizing s with
  | nil => rfl
  | last l hne hl =>
    rw [pieces_of_not_mem hne hl, offsets, offsets, linesBetween]
    have hslice := slice_append s l [] rfl
    rw [List.append_nil] at hslice
    rw [byteLength_append, hslice]
    rfl
  | line l t hl ih =>
    have hpiece : byteLength (l ++ ['\n']) = byteLength l + 1 := by
      rw [byteLength_append]
      rfl
    have hrest := ih (s ++ (l ++ ['\n']))
    have htext : s ++ (l ++ ['\n']) ++ t = s ++ (l ++ '\n' :: t) := by simp
    rw [htext, byteLength_append, hpiece] at hrest
    rw [pieces_line hl, offsets, hpiece, List.map_cons]
    cases hp : pieces t with
    | nil =>
      obtain rfl := eq_nil_of_pieces_eq_nil hp
      have hslice := slice_append s (l ++ ['\n']) [] rfl
      rw [List.append_nil] at hslice
      rw [offsets, linesBetween, byteLength_append, hslice]
      rfl
    | cons p ps =>
      rw [hp, offsets] at hrest
      rw [offsets, linesBetween, hrest]
      have hstop : byteLength s + (byteLength l + 1) - 1 = byteLength s + byteLength l := by omega
      rw [slice_append s l _ hstop, lineOfPiece_of_not_mem hl, lineOfPiece_newline]

/-- **The index by pieces is the index by offsets.** -/
theorem ofText_eq_ofStarts (t : Text) : ofText t = ofStarts t := by
  have hstarts : offsets 0 t.pieces = (0 :: behindNewlines 0 t).filter (· < byteLength t) := by
    have h := offsets_pieces 0 t
    rwa [Nat.zero_add] at h
  have hlines := linesBetween_offsets [] t
  rw [ofStarts, ← hstarts, ofText, ← hlines]
  rfl

end Source

end FeatureTree
