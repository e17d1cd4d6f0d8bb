import FeatureTree.Proofs.Text.Lines
import FeatureTree.Source.Basic

/-!
Where the lines of a text are found.

The line of an offset is one more than the number of newlines before it. Lines that are placed
behind whole lines are found there, numbered one after the other. What follows them adds to the last
of them, unless it starts at the end of a line.
-/

namespace FeatureTree.Source

open Text

/-- Lines with their numbers, the first being `n`. -/
def countFrom : Nat → List Text → List (Nat × Text)
  | _, [] => []
  | n, l :: ls => (n, l) :: countFrom (n + 1) ls

@[simp] lemma countFrom_nil (n : Nat) : countFrom n [] = [] := rfl

@[simp] lemma countFrom_cons (n : Nat) (l : Text) (ls : List Text) :
    countFrom n (l :: ls) = (n, l) :: countFrom (n + 1) ls := rfl

lemma countFrom_append (n : Nat) (ls ms : List Text) :
    countFrom n (ls ++ ms) = countFrom n ls ++ countFrom (n + ls.length) ms := by
  induction ls generalizing n with
  | nil => simp
  | cons l ls ih =>
    rw [List.cons_append, countFrom_cons, ih]
    simp [Nat.add_assoc, Nat.add_comm 1]

@[simp] lemma length_countFrom (n : Nat) (ls : List Text) :
    (countFrom n ls).length = ls.length := by
  induction ls generalizing n with
  | nil => rfl
  | cons l ls ih => simp [ih]

@[simp] lemma map_snd_countFrom (n : Nat) (ls : List Text) :
    (countFrom n ls).map Prod.snd = ls := by
  induction ls generalizing n with
  | nil => rfl
  | cons l ls ih => simp [ih]

lemma map_fst_countFrom (n : Nat) (ls : List Text) :
    (countFrom n ls).map Prod.fst = List.range' n ls.length := by
  induction ls generalizing n with
  | nil => rfl
  | cons l ls ih => rw [countFrom_cons, List.map_cons, ih, List.length_cons, List.range'_succ]

lemma numbered_eq (s : Source) : s.numbered = countFrom 1 s.lines := by
  have key : ∀ (ls : List Text) (n : Nat),
      (ls.zipIdx n).map (fun p => (p.2 + 1, p.1)) = countFrom (n + 1) ls := by
    intro ls
    induction ls with
    | nil => intro n; rfl
    | cons l ls ih => intro n; simp [ih]
  exact key s.lines 0

/-- The lines from the next line on are those without the first. -/
lemma linesFrom_succ (s : Source) (n : Nat) : s.linesFrom (n + 2) = (s.linesFrom (n + 1)).tail := by
  simp [linesFrom]

/-! ### Lines of pieces -/

lemma lineOfPiece_newline (l : Text) : lineOfPiece (l ++ ['\n']) = dropReturn l := by
  simp [lineOfPiece]

lemma lineOfPiece_of_not_mem {l : Text} (h : '\n' ∉ l) : lineOfPiece l = dropReturn l := by
  have : l.getLast? ≠ some '\n' := fun e => h (List.mem_of_getLast? e)
  simp [lineOfPiece, this]

@[simp] lemma lines_ofText (t : Text) : (ofText t).lines = t.pieces.map lineOfPiece := rfl

/-- Whole lines are found above the text behind them, less a carriage return at the end of each. -/
lemma lines_unlines_append {ls : List Text} (h : ∀ l ∈ ls, '\n' ∉ l) (t : Text) :
    (ofText (unlines ls ++ t)).lines = ls.map dropReturn ++ (ofText t).lines := by
  rw [lines_ofText, pieces_unlines_append h, List.map_append, List.map_map]
  congr 1
  exact List.map_congr_left fun l _ => lineOfPiece_newline l

lemma lines_ofText_unlines {ls : List Text} (h : ∀ l ∈ ls, '\n' ∉ l) :
    (ofText (unlines ls)).lines = ls.map dropReturn := by
  have := lines_unlines_append h []
  rwa [List.append_nil, lines_ofText [], pieces, List.map_nil, List.append_nil] at this

/-- After `n` whole lines the numbered lines of the rest begin. -/
lemma linesFrom_unlines_append {ls : List Text} (h : ∀ l ∈ ls, '\n' ∉ l) (t : Text) :
    (ofText (unlines ls ++ t)).linesFrom (ls.length + 1)
      = countFrom (ls.length + 1) (t.pieces.map lineOfPiece) := by
  rw [linesFrom, numbered_eq, lines_ofText, pieces_unlines_append h, List.map_append,
    countFrom_append]
  rw [List.drop_append]
  simp [Nat.add_comm 1]

/-- Lines that end where a line ends are the first lines of what follows them. -/
lemma lines_joinLines_append {ls : List Text} {after : Text} (hne : ls ≠ [])
    (h : ∀ l ∈ ls, '\n' ∉ l) (hlast : ls.getLast? ≠ some []) (ha : StartsAtEnd after) :
    ∃ rest, (pieces (joinLines ls ++ after)).map lineOfPiece = ls.map dropReturn ++ rest := by
  rcases ha with rfl | ha
  · -- the last line has no newline, and is a piece because it is not empty
    obtain ⟨init, last, rfl⟩ := List.eq_nil_or_concat ls |>.resolve_left hne
    have hl : '\n' ∉ last := h last (by simp)
    have hlne : last ≠ [] := by simpa using hlast
    rw [List.append_nil, List.concat_eq_append, joinLines_concat,
      pieces_unlines_append fun l hl => h l (by simp [hl]), pieces_of_not_mem hlne hl]
    exact ⟨[], by simp [Function.comp_def, lineOfPiece_newline, lineOfPiece_of_not_mem hl]⟩
  · obtain ⟨t, rfl⟩ := List.head?_eq_some_iff.mp ha
    rw [joinLines_append_newline hne, pieces_unlines_append h]
    exact ⟨(pieces t).map lineOfPiece, by simp [Function.comp_def, lineOfPiece_newline]⟩

/-- Lines placed between whole lines and the end of a line are found where they were placed. -/
lemma linesFrom_placed {before after : Text} {ls : List Text} (hb : Ended before)
    (ha : StartsAtEnd after) (hne : ls ≠ []) (h : ∀ l ∈ ls, '\n' ∉ l)
    (hlast : ls.getLast? ≠ some []) :
    ∃ rest, (ofText (before ++ joinLines ls ++ after)).linesFrom (before.count '\n' + 1)
      = countFrom (before.count '\n' + 1) (ls.map dropReturn ++ rest) := by
  obtain ⟨bs, rfl, hbs⟩ := hb.exists_unlines
  obtain ⟨rest, hrest⟩ := lines_joinLines_append hne h hlast ha
  refine ⟨rest, ?_⟩
  rw [count_newline_unlines hbs, List.append_assoc, linesFrom_unlines_append hbs, hrest]

/-- Lines placed behind whole lines are found where they were placed, whatever follows them. The last
of them goes on to the next newline. -/
lemma linesFrom_placed_concat {before last : Text} {ls : List Text} (hb : Ended before)
    (h : ∀ l ∈ ls, '\n' ∉ l) (hl : '\n' ∉ last) (hne : last ≠ []) (after : Text) :
    ∃ u rest, (ofText (before ++ joinLines (ls ++ [last]) ++ after)).linesFrom
        (before.count '\n' + 1)
      = countFrom (before.count '\n' + 1) (ls.map dropReturn ++ dropReturn (last ++ u) :: rest) := by
  obtain ⟨u, r, rfl, hu, hr⟩ := exists_append_startsAtEnd after
  have hjoin : before ++ joinLines (ls ++ [last]) ++ (u ++ r)
      = before ++ joinLines (ls ++ [last ++ u]) ++ r := by
    simp only [joinLines_concat, List.append_assoc]
  have hmem : ∀ l ∈ ls ++ [last ++ u], '\n' ∉ l := by
    intro l hmem
    rcases List.mem_append.mp hmem with hmem | hmem
    · exact h l hmem
    · rw [List.mem_singleton.mp hmem, List.mem_append, not_or]
      exact ⟨hl, hu⟩
  obtain ⟨rest, hrest⟩ := linesFrom_placed hb hr (by simp) hmem (by simp [hne])
  refine ⟨u, rest, ?_⟩
  rw [hjoin, hrest, List.map_append, List.append_assoc]
  rfl

/-! ### The line of an offset -/

lemma byteLength_pos {t : Text} (h : t ≠ []) : 0 < byteLength t := by
  cases t with
  | nil => exact absurd rfl h
  | cons c t =>
    have := c.utf8Size_pos
    rw [byteLength]; omega

lemma le_of_mem_offsets {o n : Nat} {ps : List Text} (h : n ∈ offsets o ps) : o ≤ n := by
  induction ps generalizing o with
  | nil => simp [offsets] at h
  | cons p ps ih =>
    rcases List.mem_cons.mp h with rfl | h
    · exact Nat.le_refl _
    · have := ih h
      omega

lemma length_offsets (o : Nat) (ps : List Text) : (offsets o ps).length = ps.length := by
  induction ps generalizing o with
  | nil => rfl
  | cons p ps ih => rw [offsets, List.length_cons, List.length_cons, ih]

lemma offsets_append (o : Nat) (ps qs : List Text) :
    offsets o (ps ++ qs) = offsets o ps ++ offsets (o + byteLength ps.flatten) qs := by
  induction ps generalizing o with
  | nil => rfl
  | cons p ps ih =>
    rw [List.cons_append, offsets, ih, offsets, List.flatten_cons, byteLength_append,
      Nat.add_assoc]
    rfl

lemma offsets_shift (d o : Nat) (ps : List Text) :
    offsets (d + o) ps = (offsets o ps).map (d + ·) := by
  induction ps generalizing o with
  | nil => rfl
  | cons p ps ih => rw [offsets, offsets, List.map_cons, Nat.add_assoc, ih]

/-- Every piece starts before the end of the text. -/
lemma lt_of_mem_offsets {o n : Nat} {ps : List Text} (hps : ∀ p ∈ ps, p ≠ [])
    (h : n ∈ offsets o ps) : n < o + byteLength ps.flatten := by
  induction ps generalizing o with
  | nil => simp [offsets] at h
  | cons p ps ih =>
    have hpos := byteLength_pos (hps p (by simp))
    rw [List.flatten_cons, byteLength_append]
    rcases List.mem_cons.mp h with rfl | h
    · omega
    · have := ih (fun q hq => hps q (by simp [hq])) h
      omega

/-- What is found at an offset is found as many lines later behind whole lines. -/
lemma lineOf_unlines_append {ls : List Text} (h : ∀ l ∈ ls, '\n' ∉ l) {t : Text} (ht : t ≠ [])
    (o : Nat) :
    (ofText (unlines ls ++ t)).lineOf (byteLength (unlines ls) + o)
      = ls.length + (ofText t).lineOf o := by
  set d := byteLength (unlines ls) with hd
  set ps := ls.map (· ++ ['\n']) with hps
  have hflat : ps.flatten = unlines ls := by rw [hps, unlines, List.flatMap_def]
  have hstarts : (ofText (unlines ls ++ t)).starts
      = offsets 0 ps ++ (ofText t).starts.map (d + ·) := by
    rw [ofText, ofText, pieces_unlines_append h, offsets_append, hflat, ← hd, Nat.add_comm,
      offsets_shift]
  have habove : (offsets 0 ps).countP (· ≤ d + o) = ls.length := by
    have hlen : (offsets 0 ps).length = ls.length := by rw [length_offsets, hps, List.length_map]
    rw [← hlen, List.countP_eq_length]
    intro n hn
    have := lt_of_mem_offsets (by simp [hps]) hn
    rw [hflat, ← hd] at this
    simp; omega
  have hpos : 1 ≤ (ofText t).starts.countP (· ≤ o) := by
    -- the first line starts at the first byte
    rcases hp : pieces t with _ | ⟨p, qs⟩
    · exact absurd hp (pieces_ne_nil ht)
    · rw [ofText, hp, offsets, List.countP_cons_of_pos (by simp)]
      omega
  have hrest : ((ofText t).starts.map (d + ·)).countP (· ≤ d + o)
      = (ofText t).starts.countP (· ≤ o) := by
    rw [List.countP_map]
    congr 1
    funext n
    simp
  rw [lineOf, lineOf, hstarts, List.countP_append, habove, hrest]
  omega

/-- Up to the end of the first piece every offset is on the first line. -/
lemma lineOf_first_piece {t p : Text} {ps : List Text} {o : Nat} (hp : pieces t = p :: ps)
    (ho : o < byteLength p) : (ofText t).lineOf o = 1 := by
  have hstarts : (ofText t).starts = 0 :: offsets (byteLength p) ps := by
    rw [ofText, hp, offsets, Nat.zero_add]
  have hlater : (offsets (byteLength p) ps).countP (· ≤ o) = 0 := by
    rw [List.countP_eq_zero]
    intro n hn
    have := le_of_mem_offsets hn
    simp; omega
  rw [lineOf, hstarts, List.countP_cons_of_pos (by simp), hlater]
  rfl

/-- An offset inside a text is on the line that the newlines before it say. -/
lemma lineOf_byteLength (s : Text) {u : Text} (hu : u ≠ []) :
    (ofText (s ++ u)).lineOf (byteLength s) = s.count '\n' + 1 := by
  obtain ⟨ls, l, rfl, hls, hl⟩ := exists_unlines_append s
  obtain ⟨p, ps, hp⟩ := List.exists_cons_of_ne_nil (pieces_ne_nil hu)
  have hpos : 0 < byteLength p := byteLength_pos (ne_nil_of_mem_pieces (by rw [hp]; simp))
  have hfirst : (ofText (l ++ u)).lineOf (byteLength l) = 1 :=
    lineOf_first_piece (pieces_append hl hp) (by rw [byteLength_append]; omega)
  rw [List.append_assoc, byteLength_append, lineOf_unlines_append hls (by simp [hu]), hfirst,
    List.count_append, count_newline_unlines hls, count_newline_of_not_mem hl]

end FeatureTree.Source
