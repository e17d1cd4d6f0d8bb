import FeatureTree.Proofs.Text.Lines

/-!
Normalised descriptions.

What normalising leaves of a text is prose: lines without blanks at their ends, none of the outer
ones empty, and at least one of them at the left margin. Prose has nothing to normalise.
-/

namespace FeatureTree.Text

structure Prose (ls : List Text) : Prop where
  newline : ∀ l ∈ ls, '\n' ∉ l
  trimmed : ∀ l ∈ ls, trimEnd l = l
  outer : dropOuterEmpty ls = ls
  margin : commonIndent ls = 0

/-! ### Outer empty lines -/

lemma dropOuterEmpty_subset {ls : List Text} {l : Text} (h : l ∈ dropOuterEmpty ls) : l ∈ ls := by
  rw [dropOuterEmpty, List.mem_reverse] at h
  have := (List.dropWhile_sublist _).mem h
  exact (List.dropWhile_sublist _).mem (List.mem_reverse.mp this)

lemma mem_dropWhile_isEmpty {ls : List Text} {l : Text} (h : l ∈ ls) (hne : l ≠ []) :
    l ∈ ls.dropWhile List.isEmpty := by
  rw [← List.takeWhile_append_dropWhile (p := List.isEmpty) (l := ls), List.mem_append] at h
  refine h.resolve_left fun ht => hne ?_
  exact List.isEmpty_iff.mp (List.mem_takeWhile_imp ht)

lemma mem_dropOuterEmpty {ls : List Text} {l : Text} (h : l ∈ ls) (hne : l ≠ []) :
    l ∈ dropOuterEmpty ls := by
  rw [dropOuterEmpty, List.mem_reverse]
  exact mem_dropWhile_isEmpty (List.mem_reverse.mpr (mem_dropWhile_isEmpty h hne)) hne

lemma dropOuterEmpty_idem (ls : List Text) :
    dropOuterEmpty (dropOuterEmpty ls) = dropOuterEmpty ls := by
  have h := dropWhile_reverse_dropWhile (p := List.isEmpty)
    (List.dropWhile_idempotent List.isEmpty (l := ls))
  rw [dropOuterEmpty, dropOuterEmpty, h, List.reverse_reverse, List.dropWhile_idempotent]

lemma dropOuterEmpty_between {as bs : List Text} (ls : List Text)
    (ha : ∀ l ∈ as, l.isEmpty = true) (hb : ∀ l ∈ bs, l.isEmpty = true) :
    dropOuterEmpty (as ++ ls ++ bs) = dropOuterEmpty ls := by
  have hb' : ∀ l ∈ bs.reverse, l.isEmpty = true := fun l hl => hb l (List.mem_reverse.mp hl)
  rw [dropOuterEmpty, dropOuterEmpty, List.append_assoc, List.dropWhile_append_of_pos ha,
    List.dropWhile_append]
  split
  · rename_i h
    rw [List.isEmpty_iff.mp h, List.dropWhile_eq_nil_iff.mpr hb]
  · rw [List.reverse_append, List.dropWhile_append_of_pos hb']

/-! ### The left margin -/

lemma indentation_stripIndent {l : Text} (h : trimEnd l = l) (hne : l ≠ []) :
    stripIndent (indentation l) l ≠ [] ∧ indentation (stripIndent (indentation l) l) = 0 := by
  -- the blanks are stripped one by one, and a character that is none stops both
  induction l with
  | nil => exact absurd rfl hne
  | cons c l ih =>
    by_cases hc : isBlank c = true
    · have hl : l ≠ [] := by
        rintro rfl
        have := trimEnd_eq_self_iff.mp h c (by simp)
        simp [this] at hc
      have hlast : trimEnd l = l := by
        rw [trimEnd_eq_self_iff] at h ⊢
        intro d hd
        refine h d ?_
        rcases l with _ | ⟨e, l⟩
        · simp at hd
        · simpa using hd
      have hin : indentation (c :: l) = indentation l + 1 := by simp [indentation, hc]
      rw [hin, stripIndent, if_pos hc]
      exact ih hlast hl
    · have hin : indentation (c :: l) = 0 := by simp [indentation, hc]
      rw [hin, stripIndent]
      exact ⟨by simp, hin⟩

lemma trimEnd_stripIndent (w : Nat) {l : Text} (h : trimEnd l = l) :
    trimEnd (stripIndent w l) = stripIndent w l := by
  induction w generalizing l with
  | zero => simpa [stripIndent] using h
  | succ w ih =>
    rcases l with _ | ⟨c, l⟩
    · rfl
    · rw [stripIndent]
      split
      · refine ih ?_
        rw [trimEnd_eq_self_iff] at h ⊢
        intro d hd
        refine h d ?_
        rcases l with _ | ⟨e, l⟩
        · simp at hd
        · simpa using hd
      · exact h

lemma mem_of_mem_stripIndent {w : Nat} {l : Text} {c : Char} (h : c ∈ stripIndent w l) : c ∈ l := by
  induction w generalizing l with
  | zero => simpa [stripIndent] using h
  | succ w ih =>
    rcases l with _ | ⟨d, l⟩
    · simp at h
    · rw [stripIndent] at h
      split at h
      · exact List.mem_cons_of_mem d (ih h)
      · exact h

/-- The common indentation is that of a line, if there is one with content. -/
lemma commonIndent_spec (ls : List Text) :
    ((∀ l ∈ ls, l = []) ∧ commonIndent ls = 0)
      ∨ ∃ l ∈ ls, l ≠ [] ∧ indentation l = commonIndent ls := by
  rcases hm : ((ls.filter (! ·.isEmpty)).map indentation).min? with _ | m
  · left
    have hnil : ls.filter (! ·.isEmpty) = [] := by simpa using List.min?_eq_none_iff.mp hm
    refine ⟨fun l hl => ?_, by rw [commonIndent, hm]; rfl⟩
    by_contra hne
    have : l ∈ ls.filter (! ·.isEmpty) := List.mem_filter.mpr ⟨hl, by simpa using hne⟩
    simp [hnil] at this
  · right
    obtain ⟨l, hl, hlm⟩ := List.mem_map.mp (List.min?_eq_some_iff.mp hm).1
    obtain ⟨hmem, hne⟩ := List.mem_filter.mp hl
    exact ⟨l, hmem, by simpa using hne, by rw [hlm, commonIndent, hm]; rfl⟩

lemma commonIndent_le {ls : List Text} {l : Text} (hl : l ∈ ls) (hne : l ≠ []) :
    commonIndent ls ≤ indentation l := by
  have hmem : indentation l ∈ (ls.filter (! ·.isEmpty)).map indentation :=
    List.mem_map.mpr ⟨l, List.mem_filter.mpr ⟨hl, by simpa using hne⟩, rfl⟩
  rcases hm : ((ls.filter (! ·.isEmpty)).map indentation).min? with _ | m
  · rw [List.min?_eq_none_iff.mp hm] at hmem
    simp at hmem
  · rw [commonIndent, hm]
    exact (List.min?_eq_some_iff.mp hm).2 _ hmem

lemma commonIndent_eq_zero {ls : List Text} {l : Text} (hl : l ∈ ls) (hne : l ≠ [])
    (hin : indentation l = 0) : commonIndent ls = 0 := by
  have := commonIndent_le hl hne
  omega

/-- Moving all lines right moves the margin, if one of them has content. -/
lemma commonIndent_indent (k : Nat) {ls : List Text} {l : Text} (hl : l ∈ ls) (hne : l ≠ []) :
    commonIndent (indent k ls) = 2 * k + commonIndent ls := by
  have hmoved : ∀ m : Text, m ≠ [] → indentation (indentLine k m) = 2 * k + indentation m := by
    intro m hm
    rw [indentLine_of_ne_nil k hm, indentation,
      List.takeWhile_append_of_pos fun _ hc => isBlank_of_mem_margin hc]
    simp [margin, indentation]
  refine Nat.le_antisymm ?_ ?_
  · -- the line that is indented least
    rcases commonIndent_spec ls with ⟨hall, -⟩ | ⟨m, hm, hmne, hin⟩
    · exact absurd (hall l hl) hne
    · rw [← hin, ← hmoved m hmne]
      exact commonIndent_le (List.mem_map_of_mem hm) (mt indentLine_eq_nil_iff.mp hmne)
  · rcases commonIndent_spec (indent k ls) with ⟨hall, -⟩ | ⟨_, hmem, hmne, hin⟩
    · exact absurd (indentLine_eq_nil_iff.mp (hall _ (List.mem_map_of_mem hl))) hne
    · obtain ⟨m, hm, rfl⟩ := List.mem_map.mp hmem
      have hne' : m ≠ [] := mt indentLine_eq_nil_iff.mpr hmne
      rw [← hin, hmoved m hne']
      have := commonIndent_le hm hne'
      omega

/-! ### Normalising -/

/-- Lines without the indentation they share and without empty lines around them. -/
def relaid (ls : List Text) : List Text :=
  dropOuterEmpty (ls.map (stripIndent (commonIndent ls)))

lemma normalise_eq (t : Text) : normalise t = joinLines (relaid ((lines t).map trimEnd)) := rfl

/-- Normalising leaves prose. -/
lemma prose_relaid (t : Text) : Prose (relaid ((lines t).map trimEnd)) := by
  set ms := (lines t).map trimEnd with hms
  have htrim : ∀ m ∈ ms, trimEnd m = m := by
    intro m hm
    obtain ⟨l, -, rfl⟩ := List.mem_map.mp hm
    exact trimEnd_trimEnd l
  have hmem : ∀ l ∈ relaid ms, ∃ m ∈ ms, l = stripIndent (commonIndent ms) m := by
    intro l hl
    obtain ⟨m, hm, rfl⟩ := List.mem_map.mp (dropOuterEmpty_subset hl)
    exact ⟨m, hm, rfl⟩
  refine ⟨?_, ?_, dropOuterEmpty_idem _, ?_⟩
  · intro l hl hn
    obtain ⟨m, hm, rfl⟩ := hmem l hl
    obtain ⟨k, hk, rfl⟩ := List.mem_map.mp hm
    exact newline_not_mem_lines hk (mem_of_mem_trimEnd (mem_of_mem_stripIndent hn))
  · intro l hl
    obtain ⟨m, hm, rfl⟩ := hmem l hl
    exact trimEnd_stripIndent _ (htrim m hm)
  · rcases commonIndent_spec ms with ⟨hall, -⟩ | ⟨m, hm, hne, hin⟩
    · -- nothing but empty lines
      rcases commonIndent_spec (relaid ms) with ⟨-, h⟩ | ⟨l, hl, hne, -⟩
      · exact h
      · obtain ⟨m, hm, rfl⟩ := hmem l hl
        rw [hall m hm, stripIndent_nil] at hne
        exact absurd rfl hne
    · -- the line that is indented least comes to stand at the margin
      obtain ⟨hne', hin'⟩ := indentation_stripIndent (htrim m hm) hne
      rw [hin] at hne' hin'
      exact commonIndent_eq_zero (mem_dropOuterEmpty (List.mem_map_of_mem hm) hne') hne' hin'

lemma exists_prose (t : Text) : ∃ ls, normalise t = joinLines ls ∧ Prose ls :=
  ⟨_, normalise_eq t, prose_relaid t⟩

/-- Empty lines around the others make no difference. -/
lemma relaid_between_empty {as bs : List Text} (ls : List Text) (ha : ∀ l ∈ as, l = [])
    (hb : ∀ l ∈ bs, l = []) : relaid (as ++ ls ++ bs) = relaid ls := by
  have hempty : ∀ {es : List Text}, (∀ l ∈ es, l = []) → es.filter (! ·.isEmpty) = [] := by
    intro es he
    simpa [List.filter_eq_nil_iff] using he
  have hmargin : commonIndent (as ++ ls ++ bs) = commonIndent ls := by
    simp [commonIndent, List.filter_append, hempty ha, hempty hb]
  have hstrip : ∀ (w : Nat) {es : List Text}, (∀ l ∈ es, l = []) →
      ∀ l ∈ es.map (stripIndent w), l.isEmpty = true := by
    intro w es he l hl
    obtain ⟨m, hm, rfl⟩ := List.mem_map.mp hl
    rw [he m hm, stripIndent_nil]
    rfl
  rw [relaid, relaid, hmargin, List.map_append, List.map_append]
  exact dropOuterEmpty_between _ (hstrip _ ha) (hstrip _ hb)

lemma Prose.getLast?_ne {ls : List Text} (h : Prose ls) : ls.getLast? ≠ some [] := by
  intro hl
  have houter := h.outer
  rw [dropOuterEmpty] at houter
  have := congrArg List.reverse houter
  rw [List.reverse_reverse] at this
  have hhead : ls.reverse.head? = some [] := by rwa [List.head?_reverse]
  rw [← this] at hhead
  have := List.head?_dropWhile_not List.isEmpty (ls.dropWhile List.isEmpty).reverse
  rw [hhead] at this
  simp at this

/-- Prose that is not empty has content. -/
lemma Prose.eq_nil_of_isBlankText {ls : List Text} (h : Prose ls)
    (hb : isBlankText (joinLines ls) = true) : joinLines ls = [] := by
  rcases List.eq_nil_or_concat ls with rfl | ⟨init, l, rfl⟩
  · rfl
  · exfalso
    rw [List.concat_eq_append] at h hb
    have hne : l ≠ [] := by simpa using h.getLast?_ne
    obtain ⟨c, hc⟩ := Option.ne_none_iff_exists'.mp (mt List.getLast?_eq_none_iff.mp hne)
    have hcontent := trimEnd_eq_self_iff.mp (h.trimmed l (by simp)) c hc
    have hmem : c ∈ joinLines (init ++ [l]) :=
      (infix_joinLines (by simp : l ∈ init ++ [l])).subset (List.mem_of_getLast? hc)
    rw [isBlankText, List.all_eq_true] at hb
    simp [hb c hmem] at hcontent

/-- The lines of prose are its lines. -/
lemma Prose.lines_joinLines {ls : List Text} (h : Prose ls) : lines (joinLines ls) = ls := by
  rcases List.eq_nil_or_concat ls with rfl | ⟨init, last, rfl⟩
  · rfl
  · rw [List.concat_eq_append] at h ⊢
    have hne : last ≠ [] := by simpa using h.getLast?_ne
    have hlast : '\n' ∉ last := h.newline last (by simp)
    have hinit : ∀ l ∈ init, '\n' ∉ l := fun l hl => h.newline l (by simp [hl])
    rw [lines, joinLines_concat, pieces_unlines_append hinit, pieces_of_not_mem hne hlast]
    have hdrop : ∀ l ∈ init, dropLineEnd (l ++ ['\n']) = l := by
      intro l hl
      rw [dropLineEnd, List.getLast?_concat, if_pos rfl, List.dropLast_concat]
      exact dropReturn_of_getLast? (getLast?_ne_return_of_trimEnd (h.trimmed l (by simp [hl])))
    have hend : dropLineEnd last = last := by
      rw [dropLineEnd, if_neg fun e => hlast (List.mem_of_getLast? e)]
    rw [List.map_append, List.map_map, List.map_singleton, hend]
    congr 1
    conv_rhs => rw [← List.map_id init]
    exact List.map_congr_left fun l hl => hdrop l hl

lemma Prose.relaid_indent {ls : List Text} (h : Prose ls) (k : Nat) : relaid (indent k ls) = ls := by
  rcases List.eq_nil_or_concat ls with rfl | ⟨init, last, rfl⟩
  · rfl
  · have hne : last ≠ [] := by simpa using h.getLast?_ne
    have hback : ∀ ms : List Text, (indent k ms).map (stripIndent (2 * k)) = ms := by
      intro ms
      simp [indent, stripIndent_indentLine, Function.comp_def]
    rw [relaid, commonIndent_indent k (l := last) (by simp) hne, h.margin, Nat.add_zero, hback,
      h.outer]

/-- Lines that are joined are cut again, up to blanks at their ends and an empty one at the end. -/
lemma exists_lines_joinLines {ls : List Text} (h : ∀ l ∈ ls, '\n' ∉ l) :
    ∃ es, (∀ l ∈ es, l = []) ∧ ls.map trimEnd = (lines (joinLines ls)).map trimEnd ++ es := by
  rcases List.eq_nil_or_concat ls with rfl | ⟨init, last, rfl⟩
  · exact ⟨[], by simp, rfl⟩
  · rw [List.concat_eq_append] at h ⊢
    have hlast : '\n' ∉ last := h last (by simp)
    have hinit : ∀ l ∈ init, '\n' ∉ l := fun l hl => h l (by simp [hl])
    have hends : trimEnd ∘ dropLineEnd = trimEnd := funext trimEnd_dropLineEnd
    have hdrop : (init.map (· ++ ['\n'])).map trimEnd = init.map trimEnd := by
      rw [List.map_map]
      exact List.map_congr_left fun l _ => trimEnd_append_blanks l (by simp)
    rw [lines, joinLines_concat, pieces_unlines_append hinit, List.map_map, hends, List.map_append,
      List.map_append, hdrop]
    by_cases hne : last = []
    · exact ⟨[[]], by simp, by simp [hne, pieces]⟩
    · exact ⟨[], by simp, by simp [pieces_of_not_mem hne hlast]⟩

/-- **Prose is normalised to itself wherever it stands**: moved right, and between blank lines. -/
lemma Prose.normalise_placed {ls : List Text} (h : Prose ls) (k : Nat) {before after : List Text}
    (hb : ∀ l ∈ before, isBlankText l = true ∧ '\n' ∉ l)
    (ha : ∀ l ∈ after, isBlankText l = true ∧ '\n' ∉ l) :
    normalise (joinLines (before ++ indent k ls ++ after)) = joinLines ls := by
  have hempty : ∀ {es : List Text}, (∀ l ∈ es, isBlankText l = true ∧ '\n' ∉ l) →
      ∀ l ∈ es.map trimEnd, l = [] := by
    intro es he l hl
    obtain ⟨m, hm, rfl⟩ := List.mem_map.mp hl
    exact trimEnd_eq_nil_iff.mpr (he m hm).1
  have htrim : (indent k ls).map trimEnd = indent k ls := by
    rw [indent, List.map_map]
    refine List.map_congr_left fun l hl => ?_
    exact trimEnd_indentLine k (h.trimmed l hl)
  have hnl : ∀ l ∈ before ++ indent k ls ++ after, '\n' ∉ l := by
    intro l hl
    rcases List.mem_append.mp hl with hl | hl
    · rcases List.mem_append.mp hl with hl | hl
      · exact (hb l hl).2
      · obtain ⟨m, hm, rfl⟩ := List.mem_map.mp hl
        exact newline_not_mem_indentLine k (h.newline m hm)
    · exact (ha l hl).2
  obtain ⟨es, hes, hlines⟩ := exists_lines_joinLines hnl
  have hrelaid := relaid_between_empty
    ((lines (joinLines (before ++ indent k ls ++ after))).map trimEnd)
    (List.forall_mem_nil (· = [])) hes
  rw [List.nil_append, ← hlines, List.map_append, List.map_append, htrim,
    relaid_between_empty _ (hempty hb) (hempty ha), h.relaid_indent k] at hrelaid
  rw [normalise_eq, ← hrelaid]

/-- **Prose has nothing to normalise.** -/
lemma Prose.normalise_joinLines {ls : List Text} (h : Prose ls) :
    normalise (joinLines ls) = joinLines ls := by
  simpa using h.normalise_placed 0 (List.forall_mem_nil _) (List.forall_mem_nil _)

/-- The text of prose, cut at its newlines. -/
lemma cutAt_joinLines {ls : List Text} (hne : ls ≠ []) (h : ∀ l ∈ ls, '\n' ∉ l) :
    cutAt '\n' (joinLines ls) = ls := by
  induction ls with
  | nil => exact absurd rfl hne
  | cons l ls ih =>
    by_cases hls : ls = []
    · subst hls
      exact cutAt_of_not_mem (h l (by simp))
    · rw [joinLines_cons l hls, cutAt_append_self (h l (by simp)),
        ih hls fun m hm => h m (by simp [hm])]

/-! ### Normal descriptions -/

/-- A description that has nothing to normalise: no blanks at the ends of its lines, and neither the
first nor the last of them blank. -/
structure Normal (d : Text) : Prop where
  fixed : normalise d = d
  trimmed : ∀ l ∈ cutAt '\n' d, trimEnd l = l
  first : ∀ l, (cutAt '\n' d).head? = some l → isBlankText l = true → d = []
  last : ∀ l, (cutAt '\n' d).getLast? = some l → isBlankText l = true → d = []

lemma eq_nil_of_trimEnd_of_isBlankText {l : Text} (h : trimEnd l = l)
    (hb : isBlankText l = true) : l = [] := by
  rw [isBlankText, List.all_eq_true] at hb
  calc l = trimEnd ([] ++ l) := h.symm
    _ = trimEnd [] := trimEnd_append_blanks [] hb
    _ = [] := rfl

lemma Prose.head?_ne {ls : List Text} (h : Prose ls) : ls.head? ≠ some [] := by
  intro hl
  have hdrop : ls.dropWhile List.isEmpty = ls := by
    have hidem := dropWhile_reverse_dropWhile (p := List.isEmpty)
      (List.dropWhile_idempotent List.isEmpty (l := ls))
    rwa [← dropOuterEmpty, h.outer] at hidem
  have hhead := List.head?_dropWhile_not List.isEmpty ls
  rw [hdrop, hl] at hhead
  simp at hhead

lemma normal_normalise (t : Text) : Normal (normalise t) := by
  obtain ⟨ls, ht, h⟩ := exists_prose t
  rw [ht]
  by_cases hne : ls = []
  · subst hne
    exact ⟨rfl, by simp [joinLines, cutAt], fun _ _ _ => rfl, fun _ _ _ => rfl⟩
  · have hcut := cutAt_joinLines hne h.newline
    refine ⟨h.normalise_joinLines, ?_, fun l hl hb => ?_, fun l hl hb => ?_⟩
    · rw [hcut]
      exact h.trimmed
    · rw [hcut] at hl
      have hnil := eq_nil_of_trimEnd_of_isBlankText (h.trimmed l (List.mem_of_mem_head? hl)) hb
      exact absurd (hnil ▸ hl) h.head?_ne
    · rw [hcut] at hl
      have hnil := eq_nil_of_trimEnd_of_isBlankText (h.trimmed l (List.mem_of_getLast? hl)) hb
      exact absurd (hnil ▸ hl) h.getLast?_ne

end FeatureTree.Text
