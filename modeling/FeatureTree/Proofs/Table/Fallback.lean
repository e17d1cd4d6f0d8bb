import FeatureTree.Proofs.RoundTrip.Shell
import FeatureTree.Proofs.Table.Cut

/-!
Tables whose rows are not those of the text.

A table has the rows of its lines if these are as many and as long as the rows of the tree. If they
are not, the cells of the tree stand, with their masks resolved. These are the cells that the pipes
of a masked line cut out, so that a cell has the same value either way if it writes no newline.
-/

namespace FeatureTree

open Text

namespace Grammar

open Cells (cut cut_pipe_of_not_mem cut_pipe_append cut_append_left cut_append_right)

/-! ### The cells of the tree -/

/-- Where a line ends there is neither a space nor a pipe. -/
lemma skipSpaces_restOfLine (t : Text) :
    skipSpaces (restOfLine t).2 = (restOfLine t).2 ∧ (restOfLine t).2.head? ≠ some '|' := by
  rcases restOfLine_end t with h | h
  · simp [h, skipSpaces]
  · unfold newline? at h
    split at h
    · rename_i hr
      simp [hr, skipSpaces, isSpace]
    · rename_i hr
      simp [hr, skipSpaces, isSpace]
    · simp at h

/-- After the last pipe of a line there is no further cell, and if anything but spaces stands there
the row does not end. -/
lemma cells_last {y r : Text} (h : restOfLine (y ++ r) = (y, r)) (hp : '|' ∉ y)
    (hend : (skipSpaces (cells ('|' :: (y ++ r))).2).head? = some '|') :
    (cells ('|' :: (y ++ r))).1 = [] := by
  have hr := skipSpaces_restOfLine (y ++ r)
  rw [h] at hr
  obtain ⟨s, -, hs⟩ := exists_spaces y
  have hcell : cellText (skipSpaces y ++ r) = (skipSpaces y, r) := by
    refine cellText_of_not_mem (restOfLine_of_append (a := s) ?_) fun hm => hp (mem_of_mem_skipSpaces hm)
    rw [← hs]
    exact h
  have hskip : skipSpaces (y ++ r) = skipSpaces y ++ r := by
    rw [skipSpaces, List.dropWhile_append]
    split
    · rename_i hy
      rw [skipSpaces, List.isEmpty_iff.mp hy]
      exact hr.1
    · rfl
  have hnext : cell? r = none := cell?_eq_none hr.2
  rcases hc : cell? ('|' :: (y ++ r)) with _ | ⟨c, u⟩
  · rw [cells, hc]
  · -- the cell goes on to the end of the line
    exfalso
    obtain rfl : u = r := by
      simp only [cell?, hskip, hcell] at hc
      split at hc
      · simp at hc
      · exact (Prod.mk.inj (Option.some.inj hc)).2.symm
    have hcells : (cells ('|' :: (y ++ u))).2 = u := by
      rw [cells, hc]
      simp only [hr.1, hnext]
      split <;> rfl
    rw [hcells, hr.1] at hend
    exact hr.2 hend

/-- The cells of a row are what the pipes of its line cut out. -/
lemma cells_eq_cut {y r : Text} (h : restOfLine (y ++ r) = (y, r))
    (hend : (skipSpaces (cells ('|' :: (y ++ r))).2).head? = some '|') :
    (cells ('|' :: (y ++ r))).1 = cut ('|' :: y) := by
  induction hn : y.length using Nat.strongRecOn generalizing y with
  | ind n ih =>
    by_cases hp : '|' ∈ y
    · obtain ⟨a, b, rfl, ha⟩ := List.eq_append_cons_of_mem hp
      have hline : '\n' ∉ a ++ '|' :: b := by
        have := newline_not_mem_restOfLine (a ++ '|' :: b ++ r)
        rwa [h] at this
      have hb : restOfLine (b ++ r) = (b, r) := by
        refine restOfLine_of_append (a := a ++ ['|']) ?_
        simpa using h
      have happ : a ++ '|' :: b ++ r = a ++ '|' :: (b ++ r) := by simp
      rw [happ, cells_append ha (fun hm => hline (by simp [hm]))] at hend ⊢
      rw [cut_pipe_append ha, ih b.length (by simp at hn; omega) hb hend rfl]
    · rw [cells_last h hp hend, cut_pipe_of_not_mem hp]

lemma row?_eq_cut {t r : Text} {cs : List Text} (h : row? ('|' :: t) = some (cs, r)) :
    cs = cut ('|' :: (restOfLine t).1) := by
  have hline : restOfLine ((restOfLine t).1 ++ (restOfLine t).2)
      = ((restOfLine t).1, (restOfLine t).2) := by rw [restOfLine_append]
  rw [row?] at h
  simp only at h
  split at h
  · rename_i u hu
    obtain ⟨v, -, hv⟩ := Option.map_eq_some_iff.mp h
    rw [← (Prod.mk.inj hv).1]
    have := cells_eq_cut hline
    rw [restOfLine_append] at this
    exact this (by rw [hu]; rfl)
  · simp at h

/-- A row that stands on a line of its own has the cells that the pipes of the line cut out. -/
lemma row?_line_eq_cut {l rest r : Text} {cs : List Text} (hn : '\n' ∉ l)
    (hrest : StartsAtEnd rest)
    (h : row? (skipSpaces l ++ rest) = some (cs, r)) : cs = cut l := by
  obtain ⟨s, hs, hl⟩ := exists_spaces l
  have hpipe : '|' ∉ s := fun hm => absurd (hs _ hm) (by decide)
  obtain ⟨y, hy⟩ : ∃ y, skipSpaces l = '|' :: y := by
    have hhead := head?_of_row? h
    rcases hsl : skipSpaces l with _ | ⟨c, y⟩
    · -- a newline, or nothing at all, is no row
      rw [hsl, List.nil_append] at hhead
      rcases hrest with rfl | hrest
      · simp [skipSpaces] at hhead
      · obtain ⟨u, rfl⟩ := List.head?_eq_some_iff.mp hrest
        simp [skipSpaces, isSpace] at hhead
    · have hc : isSpace c = false := by
        have := List.head?_dropWhile_not isSpace l
        rw [← skipSpaces, hsl] at this
        simpa using this
      rw [hsl] at hhead
      obtain rfl : c = '|' := by simpa [skipSpaces, hc] using hhead
      exact ⟨y, rfl⟩
  have hny : '\n' ∉ y := fun hm => hn (mem_of_mem_skipSpaces (by simp [hy, hm]))
  obtain ⟨e, he, hline⟩ := exists_restOfLine_line hny hrest
  have hpe : '|' ∉ e := by rcases he with rfl | rfl <;> simp
  rw [hy, List.cons_append] at h
  calc cs = cut ('|' :: (restOfLine (y ++ rest)).1) := row?_eq_cut h
    _ = cut ('|' :: (restOfLine (y ++ rest)).1 ++ e) := (cut_append_right hpe _).symm
    _ = cut (skipSpaces l) := by rw [hy, List.cons_append, ← hline]
    _ = cut l := by conv_rhs => rw [hl, cut_append_left hpipe]

end Grammar

/-! ### Tables -/

namespace Source

lemma line?_of_mem_linesFrom {s : Source} {n k : Nat} {l : Text} (h : (k, l) ∈ s.linesFrom n) :
    s.line? k = some l := by
  obtain ⟨⟨l', i⟩, hi, heq⟩ := List.mem_map.mp (List.mem_of_mem_drop h)
  obtain ⟨rfl, rfl⟩ := Prod.mk.inj heq
  exact List.mk_mem_zipIdx_iff_getElem?.mp hi

/-- The rows of a text are those of its lines. -/
lemma exists_line_of_mem_rowsFrom? {k : Nat} {ls : List (Nat × Text)} {rs : List (Located (List Text))}
    (h : rowsFrom? k ls = some rs) :
    ∀ r ∈ rs, ∃ l, (r.line, l) ∈ ls ∧ Cells.split? l = some r.value := by
  fun_induction rowsFrom? k ls generalizing rs with
  | case1 => simp_all
  | case2 => simp at h
  | case3 k n l ls hs ih =>
    intro r hr
    obtain ⟨m, hm, hsplit⟩ := ih h r hr
    exact ⟨m, List.mem_cons_of_mem _ hm, hsplit⟩
  | case4 k n l ls hs cells hc ih =>
    obtain ⟨qs, hqs, rfl⟩ := Option.map_eq_some_iff.mp h
    intro r hr
    rcases List.mem_cons.mp hr with rfl | hr
    · exact ⟨l, List.mem_cons_self, hc⟩
    · obtain ⟨m, hm, hsplit⟩ := ih hqs r hr
      exact ⟨m, List.mem_cons_of_mem _ hm, hsplit⟩
  | case5 => simp at h

end Source

namespace Locate

open Cells (cut split? resolve WritesNewline)

/-- The rows of a table among the lines of its text, if they are there and each of them is as long
as in the tree. -/
def scanned? (fr : Frame) (t : Grammar.Table) : Option (List (Located (List Text))) :=
  (fr.source.rows? (fr.source.lineOf t.span.start) t.rows.length).filter fun rs =>
    (rs.zip t.rows).all fun p => p.1.value.length == p.2.length

/-- A row without the characters that masks are made of. -/
structure RowLine (l : Text) : Prop where
  row : Mask.isRow l = true
  newline : '\n' ∉ l
  pipeMask : '\x01' ∉ l
  backslashMask : '\x02' ∉ l

/-- A row of the tree is read from a line of its own, and has no more than `w` of its cells. -/
def ReadFrom (w : Nat) (l : Text) (parsed : List Text) : Prop :=
  ∃ rest cs r, StartsAtEnd rest
    ∧ Grammar.row? (Grammar.skipSpaces (Mask.piece none l) ++ rest) = some (cs, r)
    ∧ parsed = cs.take w

lemma eq_cut_of_readFrom {w : Nat} {l : Text} {parsed : List Text} (hl : '\n' ∉ l)
    (h : ReadFrom w l parsed) : parsed = (cut (Mask.piece none l)).take w := by
  obtain ⟨rest, cs, r, hrest, hrow, rfl⟩ := h
  rw [Grammar.row?_line_eq_cut (mt (Mask.newline_mem_piece_iff none l).mp hl) hrest hrow]

lemma rows_of_scanned {fr : Frame} {t : Grammar.Table} {rs : List (Located (List Text))}
    (h : scanned? fr t = some rs) :
    List.Forall₂ (fun (r : Located (List Text)) (row : Row) => row.values = r.value
      ∧ ∃ l, fr.source.line? r.line = some l ∧ split? l = some r.value) rs (rows fr t) := by
  obtain ⟨hfound, hall⟩ := Option.filter_eq_some_iff.mp h
  have hlen := (rowsFrom?_spec hfound).1
  have hrows : rows fr t = (rs.zip t.rows).map fun p => row (fr.relative p.1.line) p.1.value p.2 := by
    rw [rows_eq, ← scanned?, h, Option.elim_some]
  have hfst : rs = (rs.zip t.rows).map Prod.fst := (List.map_fst_zip hlen.le).symm
  rw [hrows]
  conv => arg 2; rw [hfst]
  rw [List.forall₂_map_left_iff, List.forall₂_map_right_iff, List.forall₂_same]
  intro p hp
  have hwidth : p.1.value.length = p.2.length := by
    simpa using List.all_eq_true.mp hall p hp
  obtain ⟨l, hl, hsplit⟩ := Source.exists_line_of_mem_rowsFrom? hfound p.1 (List.of_mem_zip hp).1
  exact ⟨values_row _ hwidth, l, Source.line?_of_mem_linesFrom hl, hsplit⟩

/-- The rows of the tree, where those of the text do not fit. -/
lemma rows_of_not_scanned {fr : Frame} {t : Grammar.Table} (h : scanned? fr t = none) :
    rows fr t = t.rows.map fun parsed => row none (parsed.map resolve) parsed := by
  rw [rows_eq, ← scanned?, h, Option.elim_none]

/-- A row of the tree has the first values of its line, except where it writes a newline. -/
lemma agree_of_readFrom {w : Nat} {l : Text} {parsed : List Text} (hl : RowLine l)
    (h : ReadFrom w l parsed) :
    ∃ values, split? l = some values ∧ parsed.length = min w values.length
      ∧ ∀ (j : Nat) (v : Text), (parsed.map resolve)[j]? = some v →
        ∃ c u, (cut (Mask.piece none l))[j]? = some c ∧ values[j]? = some u
          ∧ (v = u ↔ ¬ WritesNewline c) := by
  obtain ⟨values, hsplit, hagree⟩ := Cells.forall₂_cut_split hl.row hl.pipeMask hl.backslashMask
  have hparsed := eq_cut_of_readFrom hl.newline h
  refine ⟨values, hsplit, by rw [hparsed, List.length_take, hagree.length_eq], ?_⟩
  intro j v hv
  rw [List.getElem?_map] at hv
  obtain ⟨c, hc, rfl⟩ := Option.map_eq_some_iff.mp hv
  have hc : (cut (Mask.piece none l))[j]? = some c := by
    rw [hparsed, List.getElem?_take] at hc
    split at hc
    · exact hc
    · simp at hc
  obtain ⟨hj, hcj⟩ := List.getElem?_eq_some_iff.mp hc
  have hj' : j < values.length := hagree.length_eq ▸ hj
  have hget := hagree.get hj hj'
  rw [List.get_eq_getElem, hcj] at hget
  exact ⟨c, values[j], hc, List.getElem?_eq_getElem hj', hget⟩

/-- How the cells of the tree compare with those of the text. A masked row that is cut at every pipe
has as many cells as its line, and a cell of it has the value that the line gives it exactly if the
cell writes no newline. The tree has these cells. So a table whose rows are found in the text has
the values of its lines, and a table whose rows are not has them in every cell that writes no
newline, and in no other one. -/
theorem tree_cells_agree_iff (l : Text) (fr : Frame) (t : Grammar.Table) :
    (Mask.isRow l = true → '\x01' ∉ l → '\x02' ∉ l →
      ∃ values, split? l = some values ∧ List.Forall₂ (fun c v => resolve c = v ↔ ¬ WritesNewline c)
        (cut (Mask.piece none l)) values)
    ∧ (∀ w parsed, '\n' ∉ l → ReadFrom w l parsed → parsed = (cut (Mask.piece none l)).take w)
    ∧ (∀ rs, scanned? fr t = some rs →
      List.Forall₂ (fun (r : Located (List Text)) (row : Row) => row.values = r.value
        ∧ ∃ l, fr.source.line? r.line = some l ∧ split? l = some r.value) rs (rows fr t))
    ∧ ∀ w ls, scanned? fr t = none → (∀ l ∈ ls, RowLine l) →
      List.Forall₂ (ReadFrom w) ls t.rows →
      List.Forall₂ (fun (l : Text) (row : Row) =>
        ∃ values, split? l = some values ∧ row.values.length = min w values.length
          ∧ ∀ (j : Nat) (v : Text), row.values[j]? = some v →
            ∃ c u, (cut (Mask.piece none l))[j]? = some c ∧ values[j]? = some u
              ∧ (v = u ↔ ¬ WritesNewline c)) ls (rows fr t) := by
  refine ⟨Cells.forall₂_cut_split, fun w parsed => eq_cut_of_readFrom, fun rs => rows_of_scanned,
    fun w ls hnone hls hread => ?_⟩
  rw [rows_of_not_scanned hnone, List.forall₂_map_right_iff]
  refine ((List.forall₂_and_left (p := RowLine) _ _).mpr ⟨hls, hread⟩).imp fun l parsed h => ?_
  obtain ⟨values, hsplit, hlen, hagree⟩ := agree_of_readFrom h.1 h.2
  have hvalues : (row none (parsed.map resolve) parsed).values = parsed.map resolve :=
    values_row none (by simp)
  rw [hvalues]
  exact ⟨values, hsplit, by rw [List.length_map, hlen], hagree⟩

/-- The second row is longer than the first, so that the table has the cells of the tree. An escaped
pipe and an escaped backslash have the values of their line all the same. -/
theorem tree_cells_agree_ragged :
    let l := "| a\\|b | c\\\\ |".toList
    let m := "| d | e | f |".toList
    let t : Grammar.Table := ⟨[["a\x01\x01b".toList, "c\x02\x02".toList], ["d".toList, "e".toList]],
      ⟨0, 0⟩, ⟨1, 1⟩⟩
    let fr := frame (l ++ '\n' :: m)
    scanned? fr t = none ∧ (∀ x ∈ [l, m], RowLine x) ∧ List.Forall₂ (ReadFrom 2) [l, m] t.rows
      ∧ split? l = some ["a|b".toList, "c\\".toList]
      ∧ ∃ r rs, rows fr t = r :: rs ∧ r.values.length = 2
        ∧ ∀ (j : Nat) (v : Text), r.values[j]? = some v → ["a|b".toList, "c\\".toList][j]? = some v := by
  intro l m t fr
  have hnone : scanned? fr t = none := by decide +kernel
  have hl : RowLine l := ⟨by decide, by decide, by decide, by decide⟩
  have hm : RowLine m := ⟨by decide, by decide, by decide, by decide⟩
  have hls : ∀ x ∈ [l, m], RowLine x := by simp [hl, hm]
  have hread : List.Forall₂ (ReadFrom 2) [l, m] t.rows := by
    refine .cons ⟨['\n'], ["a\x01\x01b".toList, "c\x02\x02".toList], [], .inr rfl, ?_, rfl⟩ (.cons
      ⟨[], ["d".toList, "e".toList, "f".toList], [], .inl rfl, ?_, rfl⟩ .nil)
    · decide +kernel
    · decide +kernel
  have hsplit : split? l = some ["a|b".toList, "c\\".toList] := by decide +kernel
  refine ⟨hnone, hls, hread, hsplit, ?_⟩
  have hrows := (tree_cells_agree_iff l fr t).2.2.2 2 [l, m] hnone hls hread
  obtain ⟨r, rs, ⟨values, hvalues, hlen, hagree⟩, -, hr⟩ := List.forall₂_cons_left_iff.mp hrows
  obtain rfl : values = _ := Option.some.inj (hvalues.symm.trans hsplit)
  refine ⟨r, rs, hr, hlen, fun j v hv => ?_⟩
  obtain ⟨c, u, hc, hu, hiff⟩ := hagree j v hv
  have hplain : ∀ c ∈ cut (Mask.piece none l), ¬ WritesNewline c := by decide +kernel
  rw [hu, hiff.mpr (hplain c (List.mem_of_getElem? hc))]

/-- A newline that a cell writes stays an escape in the cells of the tree. Its line has the newline. -/
theorem tree_cells_keep_newline_escape :
    (∃ t, Fragment.read .table .english "| a\\nb |\n| c | d |".toList = .ok (.table t)
      ∧ t.rows.map Row.values = [["a\\nb".toList], ["c".toList]])
    ∧ split? "| a\\nb |".toList = some ["a\nb".toList] := by
  refine ⟨?_, by decide +kernel⟩
  obtain ⟨n, hn, ht⟩ := Fragment.exists_of_readsAs (k := .table)
    (t := "| a\\nb |\n| c | d |".toList) (p := fun n => match n with
      | .table t => t.rows.map Row.values == [["a\\nb".toList], ["c".toList]]
      | _ => false) (by decide +kernel)
  split at ht
  · exact ⟨_, hn, beq_iff_eq.mp ht⟩
  · simp at ht

end Locate

end FeatureTree
