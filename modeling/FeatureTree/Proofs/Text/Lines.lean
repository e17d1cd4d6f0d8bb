import FeatureTree.Proofs.Text.Trim
import FeatureTree.Text.Lines

/-!
Lines and the text they make up.

A text that is empty or ends in a newline consists of whole lines. The pieces of such a text
followed by another one are the pieces of both.
-/

namespace FeatureTree.Text

/-- The lines, each ended by a newline. -/
def unlines (ls : List Text) : Text := ls.flatMap (· ++ ['\n'])

@[simp] lemma unlines_nil : unlines [] = [] := rfl

@[simp] lemma unlines_cons (l : Text) (ls : List Text) :
    unlines (l :: ls) = l ++ '\n' :: unlines ls := by
  simp [unlines]

@[simp] lemma unlines_append (ls ms : List Text) :
    unlines (ls ++ ms) = unlines ls ++ unlines ms := by
  simp [unlines]

/-- A text of whole lines: it is empty or ends in a newline. -/
def Ended (t : Text) : Prop := t = [] ∨ t.getLast? = some '\n'

/-- A text that starts at the end of a line: it is empty or starts with a newline. -/
def StartsAtEnd (t : Text) : Prop := t = [] ∨ t.head? = some '\n'

lemma count_newline_of_not_mem {l : Text} (h : '\n' ∉ l) : l.count '\n' = 0 :=
  List.count_eq_zero.mpr h

lemma count_newline_unlines {ls : List Text} (h : ∀ l ∈ ls, '\n' ∉ l) :
    (unlines ls).count '\n' = ls.length := by
  induction ls with
  | nil => rfl
  | cons l ls ih =>
    rw [unlines_cons, List.count_append, List.count_cons_self,
      count_newline_of_not_mem (h l (by simp)), ih fun m hm => h m (by simp [hm])]
    simp

/-! ### Cuts and joined lines -/

lemma cutAt_self (sep : Char) (t : Text) : cutAt sep (sep :: t) = [] :: cutAt sep t := by
  rw [cutAt, if_pos rfl]

/-- What stands before the first cut belongs to the first part. -/
lemma cutAt_append {sep : Char} {w : Text} (hw : sep ∉ w) (t : Text) :
    cutAt sep (w ++ t) = (cutAt sep t).modifyHead (w ++ ·) := by
  obtain ⟨p, ps, hp⟩ := List.exists_cons_of_ne_nil (cutAt_ne_nil sep t)
  induction w with
  | nil => rw [List.nil_append, hp, List.modifyHead_cons, List.nil_append]
  | cons c w ih =>
    simp only [List.mem_cons, not_or] at hw
    rw [List.cons_append, cutAt, if_neg (Ne.symm hw.1), ih hw.2, hp]
    rfl

lemma cutAt_of_not_mem {sep : Char} {t : Text} (h : sep ∉ t) : cutAt sep t = [t] := by
  have := cutAt_append h []
  rwa [List.append_nil, cutAt, List.modifyHead_cons, List.append_nil] at this

lemma cutAt_cons_of_ne {sep c : Char} (hc : c ≠ sep) (t : Text) :
    cutAt sep (c :: t) = (cutAt sep t).modifyHead (c :: ·) :=
  cutAt_append (w := [c]) (by simpa using Ne.symm hc) t

lemma cutAt_append_self {sep : Char} {w : Text} (hw : sep ∉ w) (t : Text) :
    cutAt sep (w ++ sep :: t) = w :: cutAt sep t := by
  rw [cutAt_append hw, cutAt_self, List.modifyHead_cons, List.append_nil]

/-- What stands after the last cut belongs to the last part. -/
lemma exists_cutAt_append {sep : Char} {w : Text} (hw : sep ∉ w) (t : Text) :
    ∃ ps p, cutAt sep t = ps ++ [p] ∧ cutAt sep (t ++ w) = ps ++ [p ++ w] := by
  induction t with
  | nil => exact ⟨[], [], rfl, cutAt_of_not_mem hw⟩
  | cons c t ih =>
    obtain ⟨ps, p, h, hw⟩ := ih
    by_cases hc : c = sep
    · subst hc
      exact ⟨[] :: ps, p, by rw [cutAt_self, h]; rfl, by rw [List.cons_append, cutAt_self, hw]; rfl⟩
    · rw [List.cons_append, cutAt_cons_of_ne hc, cutAt_cons_of_ne hc, h, hw]
      rcases ps with _ | ⟨q, ps⟩
      · exact ⟨[], c :: p, rfl, rfl⟩
      · exact ⟨(c :: q) :: ps, p, rfl, rfl⟩

/-- A text is cut on either side of a separator. -/
lemma cutAt_append_sep (sep : Char) (s t : Text) :
    cutAt sep (s ++ sep :: t) = cutAt sep s ++ cutAt sep t := by
  induction s with
  | nil => exact cutAt_self sep t
  | cons c s ih =>
    by_cases hc : c = sep
    · subst hc
      rw [List.cons_append, cutAt_self, cutAt_self, ih, List.cons_append]
    · obtain ⟨l, ls, hs⟩ := List.exists_cons_of_ne_nil (cutAt_ne_nil sep s)
      rw [List.cons_append, cutAt_cons_of_ne hc, cutAt_cons_of_ne hc, ih, hs]
      rfl

lemma newline_not_mem_of_mem_cutAt {t l : Text} (h : l ∈ cutAt '\n' t) : '\n' ∉ l := by
  induction t generalizing l with
  | nil => simp [cutAt] at h; simp [h]
  | cons c t ih =>
    rw [cutAt] at h
    split at h
    · rcases List.mem_cons.mp h with rfl | h
      · simp
      · exact ih h
    · rename_i hc
      split at h
      · rename_i hn
        exact absurd hn (cutAt_ne_nil _ _)
      · rename_i m ms hms
        rcases List.mem_cons.mp h with rfl | h
        · have := ih (l := m) (by rw [hms]; simp)
          simp [this, Ne.symm hc]
        · exact ih (by rw [hms]; simp [h])

lemma joinLines_append_newline {ls : List Text} (h : ls ≠ []) (t : Text) :
    joinLines ls ++ '\n' :: t = unlines ls ++ t := by
  induction ls with
  | nil => exact absurd rfl h
  | cons l ls ih =>
    cases ls with
    | nil => simp [joinLines]
    | cons m ms => simpa [joinLines] using ih (by simp)

/-- The last of some lines has no newline after it when they are joined. -/
lemma joinLines_concat (ls : List Text) (l : Text) : joinLines (ls ++ [l]) = unlines ls ++ l := by
  induction ls with
  | nil => rfl
  | cons m ms ih =>
    rw [List.cons_append, joinLines_cons _ (by simp), ih]
    simp

lemma joinLines_ne_nil {ls : List Text} {l : Text} (hl : l ∈ ls) (hne : l ≠ []) :
    joinLines ls ≠ [] := by
  cases ls with
  | nil => simp at hl
  | cons m ms =>
    cases ms with
    | nil =>
      rw [List.mem_singleton.mp hl] at hne
      exact hne
    | cons n ns => simp [joinLines]

/-- Each of some lines is a part of the text they are joined to. -/
lemma infix_joinLines {ls : List Text} {l : Text} (h : l ∈ ls) : l <:+: joinLines ls := by
  induction ls with
  | nil => simp at h
  | cons m ms ih =>
    by_cases hms : ms = []
    · subst hms
      rw [List.mem_singleton.mp h]
      exact List.infix_refl _
    · rw [joinLines_cons m hms]
      rcases List.mem_cons.mp h with rfl | h
      · exact (List.prefix_append _ _).isInfix
      · exact (ih h).trans ((List.suffix_cons _ _).trans (List.suffix_append _ _)).isInfix

/-- A text of whole lines is made up of lines. -/
lemma Ended.exists_unlines {t : Text} (h : Ended t) :
    ∃ ls, t = unlines ls ∧ ∀ l ∈ ls, '\n' ∉ l := by
  rcases h with rfl | h
  · exact ⟨[], rfl, by simp⟩
  · obtain ⟨s, rfl⟩ : ∃ s, t = s ++ ['\n'] := by
      obtain ⟨s, hs⟩ := List.getLast?_eq_some_iff.mp h
      exact ⟨s, hs⟩
    refine ⟨cutAt '\n' s, ?_, fun l hl => newline_not_mem_of_mem_cutAt hl⟩
    have := joinLines_append_newline (cutAt_ne_nil '\n' s) []
    rw [joinLines_cutAt] at this
    simpa using this

/-- A text is made up of whole lines and a last line that no newline ends. -/
lemma exists_unlines_append (t : Text) :
    ∃ ls l, t = unlines ls ++ l ∧ (∀ m ∈ ls, '\n' ∉ m) ∧ '\n' ∉ l := by
  obtain ⟨ls, l, hls⟩ := List.eq_nil_or_concat (cutAt '\n' t) |>.resolve_left (cutAt_ne_nil _ _)
  rw [List.concat_eq_append] at hls
  have hmem : ∀ m ∈ ls ++ [l], '\n' ∉ m := fun m hm => newline_not_mem_of_mem_cutAt (hls ▸ hm)
  refine ⟨ls, l, ?_, fun m hm => hmem m (by simp [hm]), hmem l (by simp)⟩
  rw [← joinLines_concat, ← hls, joinLines_cutAt]

lemma dropReturn_of_getLast? {l : Text} (h : l.getLast? ≠ some '\r') : dropReturn l = l := by
  rw [dropReturn, if_neg h]

lemma map_dropReturn {ls : List Text} (h : ∀ l ∈ ls, dropReturn l = l) :
    ls.map dropReturn = ls := by
  conv_rhs => rw [← List.map_id ls]
  exact List.map_congr_left h

/-- A carriage return that is lost is one of the text behind a line that has none. -/
lemma exists_dropReturn_append {l : Text} (h : l.getLast? ≠ some '\r') (t : Text) :
    ∃ u, dropReturn (l ++ t) = l ++ u := by
  by_cases hr : t.getLast? = some '\r'
  · obtain ⟨u, rfl⟩ := List.getLast?_eq_some_iff.mp hr
    refine ⟨u, ?_⟩
    rw [dropReturn, ← List.append_assoc, if_pos List.getLast?_concat, List.dropLast_concat]
  · refine ⟨t, dropReturn_of_getLast? ?_⟩
    rw [List.getLast?_append]
    cases ht : t.getLast? with
    | none => exact h
    | some c => rwa [ht] at hr

/-- A text is the rest of a line and what starts at the end of it. -/
lemma exists_append_startsAtEnd (t : Text) : ∃ l r, t = l ++ r ∧ '\n' ∉ l ∧ StartsAtEnd r := by
  induction t with
  | nil => exact ⟨[], [], rfl, by simp, .inl rfl⟩
  | cons c t ih =>
    by_cases hc : c = '\n'
    · exact ⟨[], c :: t, rfl, by simp, .inr (by rw [hc]; rfl)⟩
    · obtain ⟨l, r, rfl, hl, hr⟩ := ih
      exact ⟨c :: l, r, rfl, by simp [Ne.symm hc, hl], hr⟩

/-- What starts a text does not reach beyond a character that it does not have. -/
lemma prefix_append_cons_iff {w l : Text} {c : Char} (hc : c ∉ w) (t : Text) :
    w <+: l ++ c :: t ↔ w <+: l := by
  constructor
  · rintro ⟨r, hr⟩
    rcases List.append_eq_append_iff.mp hr with ⟨a, rfl, -⟩ | ⟨a, rfl, ha⟩
    · exact List.prefix_append _ _
    · rcases a with _ | ⟨d, a⟩
      · simp
      · obtain rfl : c = d := (List.cons.inj ha).1
        simp at hc
  · exact fun h => h.trans (List.prefix_append _ _)

/-- A line that ends in content has no carriage return to lose. -/
lemma getLast?_ne_return_of_trimEnd {l : Text} (h : trimEnd l = l) : l.getLast? ≠ some '\r' := by
  intro hr
  have := trimEnd_eq_self_iff.mp h _ hr
  simp at this

lemma exists_blanks_dropReturn (t : Text) :
    ∃ u, t = dropReturn t ++ u ∧ ∀ c ∈ u, isBlank c = true := by
  rw [dropReturn]
  split
  · rename_i h
    obtain ⟨s, rfl⟩ := List.getLast?_eq_some_iff.mp h
    exact ⟨['\r'], by rw [List.dropLast_concat], by simp⟩
  · exact ⟨[], by simp, by simp⟩

/-- What a line end is made of is blank. -/
lemma exists_blanks_dropLineEnd (p : Text) :
    ∃ u, p = dropLineEnd p ++ u ∧ ∀ c ∈ u, isBlank c = true := by
  rw [dropLineEnd]
  split
  · rename_i h
    obtain ⟨s, rfl⟩ := List.getLast?_eq_some_iff.mp h
    obtain ⟨u, hs, hu⟩ := exists_blanks_dropReturn s
    rw [List.dropLast_concat]
    refine ⟨u ++ ['\n'], by rw [← List.append_assoc, ← hs], fun c hc => ?_⟩
    rcases List.mem_append.mp hc with hc | hc
    · exact hu c hc
    · rw [List.mem_singleton.mp hc, isBlank_newline]
  · exact ⟨[], by simp, by simp⟩

lemma trim_dropReturn (t : Text) : trim (dropReturn t) = trim t := by
  obtain ⟨u, ht, hu⟩ := exists_blanks_dropReturn t
  conv_rhs => rw [ht]
  exact (trim_between_blanks (s := []) _ (by simp) hu).symm

lemma trim_dropLineEnd (p : Text) : trim (dropLineEnd p) = trim p := by
  obtain ⟨u, hp, hu⟩ := exists_blanks_dropLineEnd p
  conv_rhs => rw [hp]
  exact (trim_between_blanks (s := []) _ (by simp) hu).symm

lemma trimEnd_dropLineEnd (p : Text) : trimEnd (dropLineEnd p) = trimEnd p := by
  obtain ⟨u, hp, hu⟩ := exists_blanks_dropLineEnd p
  conv_rhs => rw [hp]
  exact (trimEnd_append_blanks _ hu).symm

/-! ### The pieces of lines -/

/-- What stands before a text and has no newline belongs to its first piece. -/
lemma pieces_append {l u p : Text} {ps : List Text} (hl : '\n' ∉ l) (hu : pieces u = p :: ps) :
    pieces (l ++ u) = (l ++ p) :: ps := by
  induction l with
  | nil => exact hu
  | cons c l ih =>
    simp only [List.mem_cons, not_or] at hl
    rw [List.cons_append, pieces, if_neg (Ne.symm hl.1), ih hl.2]
    rfl

lemma pieces_line {l : Text} (h : '\n' ∉ l) (t : Text) :
    pieces (l ++ '\n' :: t) = (l ++ ['\n']) :: pieces t :=
  pieces_append h (by rw [pieces, if_pos rfl])

lemma pieces_unlines_append {ls : List Text} (h : ∀ l ∈ ls, '\n' ∉ l) (t : Text) :
    pieces (unlines ls ++ t) = ls.map (· ++ ['\n']) ++ pieces t := by
  induction ls with
  | nil => rfl
  | cons l ls ih =>
    have hl : '\n' ∉ l := h l (by simp)
    rw [unlines_cons, List.append_assoc, List.cons_append, pieces_line hl,
      ih fun m hm => h m (by simp [hm])]
    rfl

/-- A line without a newline is one piece. -/
lemma pieces_of_not_mem {l : Text} (hne : l ≠ []) (h : '\n' ∉ l) : pieces l = [l] := by
  induction l with
  | nil => exact absurd rfl hne
  | cons c l ih =>
    have hc : c ≠ '\n' := fun e => h (by simp [e])
    rw [pieces, if_neg hc]
    by_cases hl : l = []
    · rw [hl]; rfl
    · rw [ih hl fun hm => h (by simp [hm])]

lemma pieces_ne_nil {t : Text} (h : t ≠ []) : pieces t ≠ [] := by
  intro hp
  have := flatten_pieces t
  rw [hp] at this
  exact h this.symm

lemma ne_nil_of_mem_pieces {t p : Text} (h : p ∈ pieces t) : p ≠ [] := by
  induction t generalizing p with
  | nil => simp [pieces] at h
  | cons c t ih =>
    rw [pieces] at h
    split at h
    · rcases List.mem_cons.mp h with rfl | h
      · simp
      · exact ih h
    · split at h
      · simp at h; simp [h]
      · rename_i q qs hq
        rcases List.mem_cons.mp h with rfl | h
        · simp
        · exact ih (by rw [hq]; simp [h])

/-- A piece is a line without newlines, with the newline that ends it or without. -/
lemma exists_of_mem_pieces {t p : Text} (h : p ∈ pieces t) :
    ∃ l, '\n' ∉ l ∧ (p = l ++ ['\n'] ∨ p = l) := by
  induction t generalizing p with
  | nil => simp [pieces] at h
  | cons c t ih =>
    rw [pieces] at h
    split at h
    · rename_i hc
      rcases List.mem_cons.mp h with rfl | h
      · exact ⟨[], by simp, .inl (by simp [hc])⟩
      · exact ih h
    · rename_i hc
      split at h
      · rw [List.mem_singleton.mp h]
        exact ⟨[c], by simpa using Ne.symm hc, .inr rfl⟩
      · rename_i q qs hq
        rcases List.mem_cons.mp h with rfl | h
        · obtain ⟨l, hl, hql⟩ := ih (p := q) (by simp [hq])
          refine ⟨c :: l, by simp [Ne.symm hc, hl], ?_⟩
          rcases hql with rfl | rfl
          · exact .inl rfl
          · exact .inr rfl
        · exact ih (by simp [hq, h])

lemma mem_of_mem_dropReturn {c : Char} {l : Text} (h : c ∈ dropReturn l) : c ∈ l := by
  rw [dropReturn] at h
  split at h
  · exact (List.dropLast_sublist l).mem h
  · exact h

lemma newline_not_mem_lines {t l : Text} (h : l ∈ lines t) : '\n' ∉ l := by
  obtain ⟨p, hp, rfl⟩ := List.mem_map.mp h
  obtain ⟨l, hl, rfl | rfl⟩ := exists_of_mem_pieces hp
  · intro hn
    rw [dropLineEnd, List.getLast?_concat, if_pos rfl, List.dropLast_concat] at hn
    exact hl (mem_of_mem_dropReturn hn)
  · have hlast : p.getLast? ≠ some '\n' := fun e => hl (List.mem_of_getLast? e)
    rwa [dropLineEnd, if_neg hlast]

end FeatureTree.Text
