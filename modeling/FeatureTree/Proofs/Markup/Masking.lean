import FeatureTree.Proofs.Markup.Masked
import FeatureTree.Proofs.Table.ReadBack

/-!
What a reader of a masked text may rely on.

A mask takes the place of an escape byte for byte, so every line starts where it started. On a row
outside doc strings the pipes that are left are those that end a cell, and taking the masks off
gives the row back. All other lines stay as they are.
-/

namespace FeatureTree

open Text

/-! ### The masks of one row -/

namespace Cells

/-- A masked row has no escapes left to mask. -/
lemma mask_mask (t : Text) : mask (mask t) = mask t := by
  induction t using escape_induction with
  | nil => rfl
  | lone => rfl
  | pair c t ih =>
    by_cases h₁ : c = '|'
    · subst h₁
      simp [mask, ih]
    · by_cases h₂ : c = '\\'
      · subst h₂
        simp [mask, ih]
      · rw [mask_pair_of_ne t h₁ h₂, mask_pair_of_ne _ h₁ h₂, ih]
  | plain c t hc ih => rw [mask_cons_of_ne t hc, mask_cons_of_ne _ hc, ih]

lemma unmask_cons_of_ne {c : Char} (t : Text) (h₁ : c ≠ '\x01') (h₂ : c ≠ '\x02') :
    unmask (c :: t) = c :: unmask t := by
  rw [unmask]
  · exact fun _ h _ => h₁ h
  · exact fun _ h _ => h₂ h

/-- Taking the masks off gives the row back, if it had nothing that looks like a mask itself. -/
lemma unmask_mask {t : Text} (h₁ : '\x01' ∉ t) (h₂ : '\x02' ∉ t) : unmask (mask t) = t := by
  induction t using escape_induction with
  | nil => rfl
  | lone => rfl
  | pair c t ih =>
    simp only [List.mem_cons, not_or] at h₁ h₂
    have ih := ih h₁.2.2 h₂.2.2
    by_cases hp : c = '|'
    · subst hp
      simp [mask, unmask, ih]
    · by_cases hb : c = '\\'
      · subst hb
        simp [mask, unmask, ih]
      · rw [mask_pair_of_ne t hp hb, unmask_cons_of_ne _ (by simp) (by simp),
          unmask_cons_of_ne _ (Ne.symm h₁.2.1) (Ne.symm h₂.2.1), ih]
  | plain c t hc ih =>
    simp only [List.mem_cons, not_or] at h₁ h₂
    rw [mask_cons_of_ne t hc, unmask_cons_of_ne _ (Ne.symm h₁.1) (Ne.symm h₂.1),
      ih h₁.2 h₂.2]

/-- An escape adds to the cell in progress and ends none. -/
lemma splitFrom_pair (cur : Text) (c : Char) (t : Text) :
    ∃ cur', splitFrom cur ('\\' :: c :: t) = splitFrom cur' t := by
  by_cases h₁ : c = '|'
  · subst h₁
    exact ⟨_, by rw [splitFrom]⟩
  by_cases h₂ : c = '\\'
  · subst h₂
    exact ⟨_, by rw [splitFrom]⟩
  by_cases h₃ : c = 'n'
  · subst h₃
    exact ⟨_, by rw [splitFrom]⟩
  · refine ⟨cur ++ ['\\', c], ?_⟩
    rw [splitFrom]
    · exact fun h => h₁ h
    · exact fun h => h₂ h
    · exact fun h => h₃ h

/-- **A pipe that no mask hides ends a cell**, and only such a pipe does. -/
lemma count_pipe_mask (t cur : Text) : (mask t).count '|' = (splitFrom cur t).length := by
  induction t using escape_induction generalizing cur with
  | nil => simp [mask]
  | lone => simp [mask, splitFrom]
  | pair c t ih =>
    obtain ⟨cur', hcur⟩ := splitFrom_pair cur c t
    rw [hcur, ← ih cur']
    by_cases h₁ : c = '|'
    · subst h₁
      simp [mask]
    · by_cases h₂ : c = '\\'
      · subst h₂
        simp [mask]
      · rw [mask_pair_of_ne t h₁ h₂, List.count_cons_of_ne (by simp), List.count_cons_of_ne h₁]
  | plain c t hc ih =>
    rw [mask_cons_of_ne t hc]
    by_cases hp : c = '|'
    · subst hp
      rw [List.count_cons_self, splitFrom_pipe, List.length_cons, ih []]
    · rw [List.count_cons_of_ne hp, splitFrom_cons hc hp, ih]

lemma exists_trim_of_isRow {l : Text} (h : Mask.isRow l = true) : ∃ v, trim l = '|' :: v := by
  rw [Mask.isRow, beq_iff_eq, ← head?_trim] at h
  exact List.head?_eq_some_iff.mp h

lemma ne_of_isBlank {c : Char} (h : isBlank c = true) : c ≠ '|' ∧ c ≠ '\\' := by
  constructor <;> rintro rfl <;> simp at h

/-- Blanks around a row are not masked. -/
lemma mask_between_blanks {s u : Text} (t : Text) (hs : ∀ c ∈ s, isBlank c = true)
    (hu : ∀ c ∈ u, isBlank c = true) : mask (s ++ t ++ u) = s ++ mask t ++ u := by
  rw [mask_append fun c hc => ne_of_isBlank (hu c hc)]
  congr 1
  induction s with
  | nil => rfl
  | cons c s ih =>
    rw [List.cons_append, mask_cons_of_ne _ (ne_of_isBlank (hs c (by simp))).2,
      ih fun d hd => hs d (by simp [hd])]
    rfl

/-- A row that is masked is a row still. -/
lemma isRow_mask {l : Text} (h : Mask.isRow l = true) : Mask.isRow (mask l) = true := by
  obtain ⟨s, u, hl, hs, hu⟩ := exists_blanks_trim l
  obtain ⟨v, hv⟩ := exists_trim_of_isRow h
  rw [hl, mask_between_blanks _ hs hu, hv, mask_cons_of_ne _ (by simp), Mask.isRow,
    List.append_assoc, trimStart_blanks_append _ hs, List.cons_append,
    trimStart_cons_of_not_blank _ (by simp)]
  rfl

/-- A row has one more pipe than cells when it is masked. -/
lemma exists_split_of_isRow {l : Text} (h : Mask.isRow l = true) :
    ∃ cells, split? l = some cells ∧ (mask l).count '|' = cells.length + 1 := by
  obtain ⟨s, u, hl, hs, hu⟩ := exists_blanks_trim l
  obtain ⟨v, hv⟩ := exists_trim_of_isRow h
  have hcount : ∀ w : Text, (∀ c ∈ w, isBlank c = true) → w.count '|' = 0 := by
    intro w hw
    rw [List.count_eq_zero]
    exact fun hp => (ne_of_isBlank (hw _ hp)).1 rfl
  refine ⟨splitFrom [] v, by simp [split?, hv], ?_⟩
  rw [hl, mask_between_blanks _ hs hu, hv, mask_cons_of_ne _ (by simp), List.count_append,
    List.count_append, hcount s hs, hcount u hu, List.count_cons_self, count_pipe_mask v []]
  omega

end Cells

/-! ### The lines of a masked text -/

namespace Mask

/-- A row neither opens nor closes a fence. -/
lemma after_of_isRow (o : Option Fence) {l : Text} (h : isRow l = true) : Fence.after o l = o := by
  refine Fence.after_of_not_starts (Fence.not_starts_of_head fun c hc => ?_) o
  rw [isRow, beq_iff_eq] at h
  obtain rfl : '|' = c := by simpa [h] using hc
  simp

/-- The fence that is open after a line is the one after the masked line. -/
lemma after_piece (o : Option Fence) (l : Text) :
    Fence.after o (piece (Fence.after o l) l) = Fence.after o l := by
  rw [piece]
  split
  · rename_i h
    simp only [Bool.and_eq_true] at h
    rw [after_of_isRow o (Cells.isRow_mask h.2), after_of_isRow o h.2]
  · rfl

lemma piece_piece (o : Option Fence) (l : Text) : piece o (piece o l) = piece o l := by
  rw [piece.eq_def o l]
  split
  · rw [piece, Cells.mask_mask]
    split <;> rfl
  · rename_i h
    rw [piece, if_neg h]

lemma pieces_pieces (o : Option Fence) (ls : List Text) :
    pieces o (pieces o ls) = pieces o ls := by
  induction ls generalizing o with
  | nil => rfl
  | cons l ls ih => rw [pieces_cons, pieces_cons, after_piece, piece_piece, ih]

@[simp] lemma length_pieces (o : Option Fence) (ls : List Text) :
    (pieces o ls).length = ls.length := by
  induction ls generalizing o with
  | nil => rfl
  | cons l ls ih => simp [ih]

/-- Masked pieces start where the pieces did. -/
lemma offsets_pieces (o : Option Fence) (n : Nat) (ps : List Text) :
    Source.offsets n (pieces o ps) = Source.offsets n ps := by
  induction ps generalizing o n with
  | nil => rfl
  | cons p ps ih =>
    rw [pieces_cons, Source.offsets, Source.offsets, ih,
      Cells.byteLength_veils (veils_piece _ p)]

end Mask

lemma Source.trim_lineOfPiece (p : Text) : trim (lineOfPiece p) = trim p := by
  rw [lineOfPiece, trim_dropReturn]
  split
  · rename_i h
    obtain ⟨s, rfl⟩ := List.getLast?_eq_some_iff.mp h
    rw [List.dropLast_concat, trim_append_blank s (by simp)]
  · rfl

namespace Text

/-- The pieces of a masked text are the masked pieces of the text. -/
lemma pieces_masked (t : Text) : t.masked.pieces = Mask.pieces none t.pieces := by
  obtain ⟨ls, l, rfl, hls, hl⟩ := exists_unlines_append t
  have hmasked : ∀ q ∈ Mask.pieces none ls, '\n' ∉ q := by
    intro q hq
    obtain ⟨m, hm, o, rfl⟩ := Mask.exists_of_mem_pieces hq
    exact mt (Mask.newline_mem_piece_iff o m).mp (hls m hm)
  rw [masked, pieces_unlines_append hls, Mask.pieces_append, List.flatten_append,
    Mask.flatten_pieces_newline, pieces_unlines_append hmasked, Mask.pieces_newline]
  congr 1
  -- the last line has no newline, and it is a piece only if it is not empty
  by_cases hnil : l = []
  · subst hnil
    rfl
  · rw [pieces_of_not_mem hnil hl, Mask.pieces_cons, Mask.pieces_nil, List.flatten_singleton]
    refine pieces_of_not_mem ?_ (mt (Mask.newline_mem_piece_iff _ l).mp hl)
    exact fun h => hnil (List.forall₂_nil_right_iff.mp (h ▸ Mask.veils_piece _ l))

/-- A text is masked once and for all. -/
lemma masked_masked (t : Text) : t.masked.masked = t.masked := by
  rw [masked, pieces_masked, Mask.pieces_pieces, ← masked]

/-- A line is masked by the fence that is open before it. -/
lemma getElem?_pieces_masked {t p : Text} {before after : List Text}
    (h : t.pieces = before ++ p :: after) :
    t.masked.pieces[before.length]?
      = some (Mask.piece (Fence.after (Fence.run none before) p) p) := by
  rw [pieces_masked, h, Mask.pieces_append, Mask.pieces_cons,
    List.getElem?_append_right (by simp)]
  simp

lemma length_cutAt (sep : Char) (t : Text) : (cutAt sep t).length = t.count sep + 1 := by
  induction t with
  | nil => rfl
  | cons c t ih =>
    rw [cutAt]
    split
    · rename_i h
      rw [h, List.count_cons_self, List.length_cons, ih]
    · rename_i h
      rw [List.count_cons_of_ne h, ← ih]
      split
      · rename_i hn
        exact absurd hn (cutAt_ne_nil _ _)
      · rename_i hc
        rw [hc, List.length_cons, List.length_cons]

/-- **Masking is sound.** It keeps the number of bytes and the offset of every line, and doing it
twice changes nothing more. A line that is no row stays as it is, and so does every line of a doc
string, the lines of its fences included. On a row outside doc strings a reader that cuts at every
pipe finds as many cells as there are, and the masks can be taken off again. -/
theorem masked_sound (t : Text) :
    byteLength t.masked = byteLength t
      ∧ (Source.ofText t.masked).starts = (Source.ofText t).starts
      ∧ t.masked.masked = t.masked
      ∧ t.masked.pieces.length = t.pieces.length
      ∧ ∀ before line after, t.pieces = before ++ line :: after →
        ∃ masked, t.masked.pieces[before.length]? = some masked
          ∧ ((trimStart line).head? ≠ some '|' → masked = line)
          ∧ ((Fence.run none before).isSome ∨ (Fence.run none (before ++ [line])).isSome →
            masked = line)
          ∧ (Fence.run none before = none → (trimStart line).head? = some '|' →
            (∃ cells, Cells.split? line = some cells
              ∧ Cells.split? (Source.lineOfPiece line) = some cells
              ∧ masked.count '|' = cells.length + 1
              ∧ (cutAt '|' masked).length = cells.length + 2)
            ∧ ('\x01' ∉ line → '\x02' ∉ line → Cells.unmask masked = line)) := by
  refine ⟨Cells.byteLength_veils t.veils_masked, ?_, t.masked_masked, ?_, ?_⟩
  · rw [Source.ofText, Source.ofText, pieces_masked, Mask.offsets_pieces]
  · rw [pieces_masked, Mask.length_pieces]
  · intro before line after h
    refine ⟨_, getElem?_pieces_masked h, fun hrow => ?_, fun hfence => ?_, fun hnone hrow => ?_⟩
    · exact Mask.piece_of_not_isRow (by simpa [Mask.isRow] using hrow) _
    · rw [Fence.run_append, Fence.run_cons, Fence.run_nil] at hfence
      by_cases hrow : Mask.isRow line = true
      · rw [Mask.after_of_isRow _ hrow, or_self, Option.isSome_iff_ne_none] at hfence
        rw [Mask.after_of_isRow _ hrow, Mask.piece, if_neg (by simp [hfence])]
      · exact Mask.piece_of_not_isRow (by simpa using hrow) _
    · have hrow : Mask.isRow line = true := by simp [Mask.isRow, hrow]
      obtain ⟨cells, hcells, hcount⟩ := Cells.exists_split_of_isRow hrow
      have hpiece : Mask.piece (Fence.after (Fence.run none before) line) line
          = Cells.mask line := by
        rw [hnone, Mask.after_of_isRow _ hrow, Mask.piece, if_pos (by simp [hrow])]
      rw [hpiece]
      refine ⟨⟨cells, hcells, ?_, hcount, ?_⟩, fun h₁ h₂ => Cells.unmask_mask h₁ h₂⟩
      · rw [← hcells, Cells.split?, Cells.split?, Source.trim_lineOfPiece]
      · rw [length_cutAt, hcount]

/-- A row in a doc string, and one below it whose cell has an escaped pipe and ends in an escaped
backslash. -/
theorem masked_sound_escapes :
    let fence := "\"\"\"\n".toList
    let inner := "|a\\|b|\n".toList
    let row := " |c\\|d\\\\|\n".toList
    let t : Text := fence ++ inner ++ fence ++ row
    (Fence.run none [fence]).isSome ∧ Fence.run none [fence, inner, fence] = none
      ∧ (trimStart row).head? = some '|'
      ∧ t.masked.pieces[1]? = some inner
      ∧ ∃ masked, t.masked.pieces[3]? = some masked ∧ masked ≠ row
        ∧ masked.count '|' = 2 ∧ Cells.unmask masked = row := by
  intro fence inner row t
  have hopen : (Fence.run none [fence]).isSome := by decide
  have hclosed : Fence.run none [fence, inner, fence] = none := by decide
  have hrow : (trimStart row).head? = some '|' := by decide
  have hcells : Cells.split? row = some ["c|d\\".toList] := by decide
  obtain ⟨-, -, -, -, hline⟩ := masked_sound t
  obtain ⟨masked, hget, -, hfence, -⟩ := hline [fence] inner [fence, row] (by decide)
  obtain ⟨masked', hget', -, -, hsound⟩ := hline [fence, inner, fence] row [] (by decide)
  obtain ⟨⟨cells, hsplit, -, hcount, -⟩, hunmask⟩ := hsound hclosed hrow
  obtain rfl : ["c|d\\".toList] = cells := Option.some.inj (hcells.symm.trans hsplit)
  refine ⟨hopen, hclosed, hrow, ?_, masked', hget', ?_, hcount, hunmask (by decide) (by decide)⟩
  · rw [← hfence (.inl hopen)]
    exact hget
  · rintro rfl
    exact absurd hcount (by decide)

end Text

end FeatureTree
