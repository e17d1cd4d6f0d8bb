import FeatureTree.Proofs.Source.Placed
import FeatureTree.Source.Comments
import FeatureTree.Source.DocString
import FeatureTree.Source.Rows

/-!
The lines that the scans of a text report.

Whatever a scan is asked for, the lines it finds are lines of the text: none lies before the first
line or behind the last one, tags stand above the keyword, a doc string below its step, and the
rows of a table come one after the other.
-/

namespace FeatureTree.Source

open Text

variable {s : Source} {n k : Nat} {l : Text}

/-! ### Numbered lines -/

lemma getElem?_numbered (s : Source) (i : Nat) :
    s.numbered[i]? = s.lines[i]?.map fun l => (i + 1, l) := by
  simp [numbered, List.getElem?_zipIdx, Function.comp_def]

lemma mem_countFrom {ls : List Text} (h : (k, l) ∈ countFrom n ls) : n ≤ k ∧ k < n + ls.length := by
  have hk := List.mem_map_of_mem (f := Prod.fst) h
  rw [map_fst_countFrom, List.mem_range'_1] at hk
  exact hk

/-- The numbers of counted lines rise. -/
lemma pairwise_countFrom (n : Nat) (ls : List Text) :
    ((countFrom n ls).map Prod.fst).Pairwise (· < ·) := by
  rw [map_fst_countFrom]
  exact List.pairwise_lt_range'

lemma drop_countFrom (n i : Nat) (ls : List Text) :
    (countFrom n ls).drop i = countFrom (n + i) (ls.drop i) := by
  induction ls generalizing n i with
  | nil => simp
  | cons l ls ih =>
    cases i with
    | zero => rfl
    | succ i =>
      rw [countFrom_cons, List.drop_succ_cons, List.drop_succ_cons, ih]
      congr 1
      omega

lemma take_countFrom (n i : Nat) (ls : List Text) :
    (countFrom n ls).take i = countFrom n (ls.take i) := by
  induction ls generalizing n i with
  | nil => simp
  | cons l ls ih =>
    cases i with
    | zero => rfl
    | succ i => rw [countFrom_cons, List.take_succ_cons, List.take_succ_cons, ih, countFrom_cons]

lemma linesFrom_eq (s : Source) (n : Nat) :
    s.linesFrom n = countFrom (1 + (n - 1)) (s.lines.drop (n - 1)) := by
  rw [linesFrom, numbered_eq, drop_countFrom]

lemma mem_linesFrom (h : (k, l) ∈ s.linesFrom n) : 1 ≤ k ∧ n ≤ k ∧ k ≤ s.lineCount := by
  rw [linesFrom_eq] at h
  have := mem_countFrom h
  rw [List.length_drop] at this
  rw [lineCount]
  omega

/-! ### Offsets and keywords -/

/-- Every offset is on a line, also one beyond the text. -/
lemma lineOf_ofText_le (t : Text) (o : Nat) :
    1 ≤ (ofText t).lineOf o ∧ (ofText t).lineOf o ≤ max 1 (ofText t).lineCount := by
  have hle : (ofText t).starts.countP (· ≤ o) ≤ (ofText t).starts.length := List.countP_le_length
  have hlen : (ofText t).starts.length = (ofText t).lineCount := by
    rw [ofText, lineCount, List.length_map, length_offsets]
  rw [lineOf]
  omega

/-- A keyword is looked for downwards, and not beyond the last line. -/
lemma keywordLine_le (s : Source) (n : Nat) :
    n ≤ s.keywordLine n ∧ s.keywordLine n ≤ max n s.lineCount := by
  rw [keywordLine]
  split
  · rename_i k l h
    have := mem_linesFrom (List.mem_of_find?_eq_some h)
    omega
  · omega

/-! ### Tags, rows and doc strings -/

lemma line_of_mem_tagsUpFrom {t : Located Text} (h : t ∈ s.tagsUpFrom n) :
    1 ≤ t.line ∧ t.line ≤ n ∧ t.line ≤ s.lineCount := by
  induction n with
  | zero => simp [tagsUpFrom] at h
  | succ n ih =>
    rw [tagsUpFrom] at h
    split at h
    · simp at h
    · rename_i l hl
      split at h
      · rcases List.mem_append.mp h with h | h
        · have := ih h
          omega
        · obtain ⟨name, -, rfl⟩ := List.mem_map.mp h
          obtain ⟨hlt, -⟩ := List.getElem?_eq_some_iff.mp hl
          exact ⟨Nat.le_add_left 1 n, Nat.le_refl _, hlt⟩
      · simp at h

/-- Tags stand above the keyword that they are looked for from. -/
lemma line_of_mem_tagsAbove {t : Located Text} (h : t ∈ s.tagsAbove k) :
    1 ≤ t.line ∧ t.line < k ∧ t.line ≤ s.lineCount := by
  have := line_of_mem_tagsUpFrom h
  omega

lemma line_of_take? {name : Text} {ts r : List (Located Text)} (h : take? name ts = some (n, r)) :
    (∃ t ∈ ts, t.line = n) ∧ ∀ t ∈ r, t ∈ ts := by
  induction ts generalizing r with
  | nil => simp [take?] at h
  | cons t ts ih =>
    rw [take?] at h
    split at h
    · obtain ⟨rfl, rfl⟩ := Prod.mk.inj (Option.some.inj h)
      exact ⟨⟨t, by simp, rfl⟩, fun u hu => by simp [hu]⟩
    · obtain ⟨⟨m, r'⟩, hr, heq⟩ := Option.map_eq_some_iff.mp h
      obtain ⟨rfl, rfl⟩ := Prod.mk.inj heq
      obtain ⟨⟨u, hu, hline⟩, hsub⟩ := ih hr
      refine ⟨⟨u, by simp [hu], hline⟩, fun v hv => ?_⟩
      rcases List.mem_cons.mp hv with rfl | hv
      · simp
      · exact List.mem_cons_of_mem _ (hsub v hv)

/-- A name is given no other line than that of a located tag. -/
lemma exists_of_mem_assign {names : List Text} {ts : List (Located Text)}
    (h : some n ∈ assign names ts) : ∃ t ∈ ts, t.line = n := by
  induction names generalizing ts with
  | nil => simp [assign] at h
  | cons name names ih =>
    rw [assign] at h
    split at h
    · rename_i m r hr
      obtain ⟨⟨t, ht, hline⟩, hsub⟩ := line_of_take? hr
      rcases List.mem_cons.mp h with h | h
      · exact ⟨t, ht, by rw [hline, Option.some.inj h]⟩
      · obtain ⟨u, hu, hn⟩ := ih h
        exact ⟨u, hsub u hu, hn⟩
    · exact ih (by simpa using h)

/-- The lines of the rows are some of the lines that were looked at, in their order. -/
lemma sublist_rowsFrom? {ls : List (Nat × Text)} {rs : List (Located (List Text))}
    (h : rowsFrom? k ls = some rs) : (rs.map Located.line).Sublist (ls.map Prod.fst) := by
  fun_induction rowsFrom? k ls generalizing rs with
  | case1 => simp [← Option.some.inj h]
  | case2 => simp at h
  | case3 k n l ls hs ih => exact (ih h).cons _
  | case4 k n l ls hs cells hc ih =>
    obtain ⟨qs, hqs, rfl⟩ := Option.map_eq_some_iff.mp h
    exact (ih hqs).cons_cons _
  | case5 => simp at h

/-- Rows are found on lines of the text, one below the other. -/
lemma rows?_lines {rs : List (Located (List Text))} (h : s.rows? n k = some rs) :
    (rs.map Located.line).Pairwise (· < ·) ∧ ∀ r ∈ rs, 1 ≤ r.line ∧ r.line ≤ s.lineCount := by
  have hsub := sublist_rowsFrom? h
  constructor
  · refine List.Pairwise.sublist hsub ?_
    rw [linesFrom_eq]
    exact pairwise_countFrom _ _
  · intro r hr
    have hmem := hsub.mem (List.mem_map_of_mem hr)
    obtain ⟨⟨m, l⟩, hm, hline⟩ := List.mem_map.mp hmem
    have := mem_linesFrom hm
    rw [← hline]
    exact ⟨this.1, this.2.2⟩

/-- A doc string opens below its step. -/
lemma docString?_line {d : Located Fenced} (h : s.docString? n = some d) :
    n < d.line ∧ d.line ≤ s.lineCount := by
  rw [docString?] at h
  split at h
  · simp at h
  · rename_i m opening ls hls
    obtain ⟨f, -, h⟩ := Option.bind_eq_some_iff.mp h
    obtain ⟨body, -, h⟩ := Option.bind_eq_some_iff.mp h
    rw [← Option.some.inj h]
    have hmem : (m, opening) ∈ s.linesFrom (n + 1) :=
      (List.dropWhile_sublist _).mem (hls ▸ List.mem_cons_self)
    have := mem_linesFrom hmem
    exact ⟨this.2.1, this.2.2⟩

/-- The lines of the comments are some of the lines that were looked at, in their order. -/
lemma sublist_commentsFrom (o : Option Fence) (ls : List (Nat × Text)) :
    ((commentsFrom o ls).map Located.line).Sublist (ls.map Prod.fst) := by
  fun_induction commentsFrom o ls with
  | case1 => exact .slnil
  | case2 f n l ls ih => exact ih.cons _
  | case3 n l ls f hf ih => exact ih.cons _
  | case4 n l ls hf hc ih => exact ih.cons_cons _
  | case5 n l ls hf hc ih => exact ih.cons _

lemma line_of_mem_comments {c : Located Text} (h : c ∈ s.comments) :
    1 ≤ c.line ∧ c.line ≤ s.lineCount := by
  have hmem := (sublist_commentsFrom none s.numbered).mem (List.mem_map_of_mem h)
  obtain ⟨⟨m, l⟩, hm, hline⟩ := List.mem_map.mp hmem
  have := mem_linesFrom (n := 1) hm
  rw [← hline]
  exact ⟨this.1, this.2.2⟩

end FeatureTree.Source
