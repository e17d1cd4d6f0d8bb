import FeatureTree.Proofs.Table.ReadBack

/-!
Rendered tables are aligned.

A pipe of a line ends a cell unless a backslash stands before it. Escaping leaves a cell no pipe of
its own, and no cell is wider than its column; so the pipe that closes a column stands where the
widths of the columns up to there put it, whatever the row holds, and the widest cell of a column
fills it.
-/

namespace FeatureTree

open Text

/-! ### The pipes of a line -/

namespace Cells

/-- The offsets of the pipes that no backslash escapes, in a text that starts at offset `o`. -/
def pipesFrom (o : Nat) : Text → List Nat
  | '\\' :: _ :: t => pipesFrom (o + 2) t
  | '|' :: t => o :: pipesFrom (o + 1) t
  | _ :: t => pipesFrom (o + 1) t
  | [] => []

/-- The offsets of the pipes between the cells of a line. -/
def pipes (line : Text) : List Nat := pipesFrom 0 line

/-- What stands in cell `j` of a line, between the pipe that opens it and the pipe that closes it. -/
def between? (line : Text) (j : Nat) : Option Text := do
  let opening ← (pipes line)[j]?
  let closing ← (pipes line)[j + 1]?
  return (line.take closing).drop (opening + 1)

lemma pipesFrom_nil (o : Nat) : pipesFrom o [] = [] := by
  unfold pipesFrom
  rfl

lemma pipesFrom_pipe (o : Nat) (t : Text) : pipesFrom o ('|' :: t) = o :: pipesFrom (o + 1) t := by
  rw [pipesFrom]

lemma pipesFrom_pair (o : Nat) (c : Char) (t : Text) :
    pipesFrom o ('\\' :: c :: t) = pipesFrom (o + 2) t := by
  rw [pipesFrom]

lemma pipesFrom_cons {c : Char} (hb : c ≠ '\\') (hp : c ≠ '|') (o : Nat) (t : Text) :
    pipesFrom o (c :: t) = pipesFrom (o + 1) t := by
  rw [pipesFrom]
  all_goals simp_all

/-- A written value has no pipe that ends a cell. -/
lemma pipesFrom_escape (v : Text) (o : Nat) (t : Text) :
    pipesFrom o (escape v ++ t) = pipesFrom (o + (escape v).length) t := by
  induction v generalizing o with
  | nil => rfl
  | cons c v ih =>
    -- the second character of an escape is passed over with the backslash, even if it is a pipe
    have hpair : ∀ d, pipesFrom o ((['\\', d] ++ escape v) ++ t)
        = pipesFrom (o + (['\\', d] ++ escape v).length) t := by
      intro d
      rw [List.append_assoc, List.cons_append, List.cons_append, pipesFrom_pair, List.nil_append, ih]
      congr 1
      simp only [List.length_append, List.length_cons, List.length_nil]
      omega
    rw [escape_cons]
    split_ifs with h₁ h₂ h₃
    · exact hpair '\\'
    · exact hpair '|'
    · exact hpair 'n'
    · rw [List.append_assoc, List.cons_append, List.nil_append, pipesFrom_cons h₁ h₂, ih]
      congr 1
      simp only [List.length_append, List.length_cons, List.length_nil]
      omega

lemma pipesFrom_spaces (n o : Nat) (t : Text) :
    pipesFrom o (List.replicate n ' ' ++ t) = pipesFrom (o + n) t := by
  induction n generalizing o with
  | zero => rfl
  | succ n ih =>
    rw [List.replicate_succ, List.cons_append, pipesFrom_cons (by simp) (by simp), ih]
    congr 1
    omega

end Cells

namespace Table

open Cells

/-! ### Columns -/

/-- The offset of pipe `j` of a row whose columns have these widths. A column takes its width, a
space on either side, and the pipe that closes it. -/
def edge (width : Nat → Nat) : Nat → Nat
  | 0 => 0
  | j + 1 => edge width j + width j + 3

/-- No cell is wider than its column, the first cell being in column `j`. -/
def Fits (width : Nat → Nat) (j : Nat) (cells : List Text) : Prop :=
  ∀ i c, cells[i]? = some c → c.length ≤ width (j + i)

lemma Fits.head {width : Nat → Nat} {j : Nat} {c : Text} {cells : List Text}
    (h : Fits width j (c :: cells)) : c.length ≤ width j := by
  simpa using h 0 c rfl

lemma Fits.tail {width : Nat → Nat} {j : Nat} {c : Text} {cells : List Text}
    (h : Fits width j (c :: cells)) : Fits width (j + 1) cells := by
  intro i d hd
  have hle := h (i + 1) d (by simpa using hd)
  have hcol : j + (i + 1) = j + 1 + i := by omega
  rwa [hcol] at hle

/-- A row's cells from column `j` on, each filled up and in its box. -/
def boxes (width : Nat → Nat) (j : Nat) (cells : List Text) : Text :=
  ((cells.zipIdx j).map fun (c, j) => pad (width j) c).flatMap boxed

lemma rowLine_eq_boxes (width : Nat → Nat) (cells : List Text) :
    rowLine width cells = '|' :: boxes width 0 cells :=
  rowLine_eq width cells

lemma boxes_cons (width : Nat → Nat) (j : Nat) (c : Text) (cells : List Text) :
    boxes width j (c :: cells) = boxed (pad (width j) c) ++ boxes width (j + 1) cells := by
  simp [boxes]

lemma length_pad {w : Nat} {c : Text} (h : c.length ≤ w) : (pad w c).length = w := by
  rw [pad, List.length_append, List.length_replicate]
  omega

lemma length_boxed (c : Text) : (boxed c).length = c.length + 3 := by
  simp [boxed]

lemma boxes_append (width : Nat → Nat) (j : Nat) (before after : List Text) :
    boxes width j (before ++ after)
      = boxes width j before ++ boxes width (j + before.length) after := by
  simp [boxes, List.zipIdx_append, List.flatMap_append]

/-- The boxes of a row reach from one edge to another. -/
lemma length_boxes {width : Nat → Nat} {j : Nat} {cells : List Text} (h : Fits width j cells) :
    edge width j + (boxes width j cells).length = edge width (j + cells.length) := by
  induction cells generalizing j with
  | nil => rfl
  | cons c cells ih =>
    have hrest := ih h.tail
    rw [boxes_cons, List.length_append, length_boxed, length_pad h.head, List.length_cons]
    rw [edge] at hrest
    have : j + (cells.length + 1) = j + 1 + cells.length := by omega
    rw [this, ← hrest]
    omega

/-- The box of a cell has one pipe, at its right edge. -/
lemma pipesFrom_boxed (w : Nat) (v : Text) (h : (escape v).length ≤ w) (o : Nat) (t : Text) :
    pipesFrom o (boxed (pad w (escape v)) ++ t) = (o + w + 2) :: pipesFrom (o + w + 3) t := by
  simp only [boxed, pad, List.cons_append, List.append_assoc, List.nil_append]
  rw [pipesFrom_cons (by simp) (by simp), pipesFrom_escape, pipesFrom_spaces,
    pipesFrom_cons (by simp) (by simp), pipesFrom_pipe]
  have hw : o + 1 + (escape v).length + (w - (escape v).length) + 1 = o + w + 2 := by omega
  rw [hw]

lemma pipesFrom_boxes {width : Nat → Nat} {j : Nat} {vs : List Text}
    (h : Fits width j (vs.map escape)) :
    pipesFrom (edge width j + 1) (boxes width j (vs.map escape))
      = (List.range' (j + 1) vs.length).map (edge width) := by
  induction vs generalizing j with
  | nil => exact pipesFrom_nil _
  | cons v vs ih =>
    have hrest := ih h.tail
    rw [List.map_cons, boxes_cons, pipesFrom_boxed _ v h.head, List.length_cons,
      List.range'_succ, List.map_cons]
    have hedge : edge width (j + 1) = edge width j + width j + 3 := rfl
    rw [hedge] at hrest ⊢
    have hpipe : edge width j + 1 + width j + 2 = edge width j + width j + 3 := by omega
    have hnext : edge width j + 1 + width j + 3 = edge width j + width j + 3 + 1 := by omega
    rw [hpipe, hnext, hrest]

/-- The pipes of a row stand at the edges of its columns. -/
lemma pipes_rowLine {width : Nat → Nat} {vs : List Text} (h : Fits width 0 (vs.map escape)) :
    pipes (rowLine width (vs.map escape)) = (List.range (vs.length + 1)).map (edge width) := by
  rw [rowLine_eq_boxes, pipes, pipesFrom_pipe, List.range_eq_range', List.range'_succ,
    List.map_cons]
  have hrest := pipesFrom_boxes h
  rw [edge] at hrest ⊢
  rw [hrest]

lemma getElem?_pipes_rowLine {width : Nat → Nat} {vs : List Text}
    (h : Fits width 0 (vs.map escape)) {j : Nat} (hj : j ≤ vs.length) :
    (pipes (rowLine width (vs.map escape)))[j]? = some (edge width j) := by
  rw [pipes_rowLine h, List.getElem?_map, List.getElem?_range (by omega)]
  rfl

/-- A cell stands between two pipes with a space on either side, filled up to its column. -/
lemma between?_rowLine {width : Nat → Nat} {vs : List Text} (h : Fits width 0 (vs.map escape))
    {j : Nat} {v : Text} (hv : vs[j]? = some v) :
    between? (rowLine width (vs.map escape)) j = some (' ' :: pad (width j) (escape v) ++ [' ']) := by
  obtain ⟨hj, hget⟩ := List.getElem?_eq_some_iff.mp hv
  -- the row is cut at the cell: what stands before it reaches to the edge of its column
  have hcut : vs = vs.take j ++ v :: vs.drop (j + 1) := by
    rw [← hget, List.getElem_cons_drop, List.take_append_drop]
  have hlen : ((vs.take j).map escape).length = j := by
    rw [List.length_map, List.length_take]
    omega
  have hbefore : Fits width 0 ((vs.take j).map escape) := by
    intro i c hc
    refine h i c ?_
    rw [List.map_take, List.getElem?_take] at hc
    split at hc
    · exact hc
    · simp at hc
  have hfit : (escape v).length ≤ width j := by
    simpa using h j (escape v) (by simp [hv])
  have hline : rowLine width (vs.map escape)
      = ('|' :: boxes width 0 ((vs.take j).map escape))
        ++ ((' ' :: pad (width j) (escape v) ++ [' '])
          ++ '|' :: boxes width (j + 1) ((vs.drop (j + 1)).map escape)) := by
    conv_lhs => rw [hcut]
    rw [rowLine_eq_boxes, List.map_append, List.map_cons, boxes_append, hlen, boxes_cons, boxed,
      Nat.zero_add]
    simp
  have hstart : ('|' :: boxes width 0 ((vs.take j).map escape)).length = edge width j + 1 := by
    have := length_boxes hbefore
    rw [hlen, Nat.zero_add, edge] at this
    rw [List.length_cons]
    omega
  have hcell : (' ' :: pad (width j) (escape v) ++ [' ']).length = width j + 2 := by
    rw [List.length_append, List.length_cons, length_pad hfit]
    rfl
  rw [between?, getElem?_pipes_rowLine h hj.le, getElem?_pipes_rowLine h hj]
  change some _ = some _
  congr 1
  have hstop : edge width (j + 1) = (edge width j + 1) + (width j + 2) := by
    rw [edge]
    omega
  rw [hline, hstop, ← hstart, ← hcell, List.take_length_add_append, List.take_left, List.drop_left]

/-! ### Widths -/

/-- A column that has a cell is as wide as one of its cells, and no narrower than any. -/
lemma width_spec {rows : List (List Text)} {j : Nat} (h : rows.filterMap (·[j]?) ≠ []) :
    (∃ c ∈ rows.filterMap (·[j]?), c.length = width rows j)
      ∧ ∀ c ∈ rows.filterMap (·[j]?), c.length ≤ width rows j := by
  rw [width]
  rcases hmax : ((rows.filterMap (·[j]?)).map List.length).max? with _ | m
  · exact absurd (List.map_eq_nil_iff.mp (List.max?_eq_none_iff.mp hmax)) h
  · obtain ⟨hmem, hle⟩ := List.max?_eq_some_iff.mp hmax
    exact ⟨List.mem_map.mp hmem, fun c hc => hle _ (List.mem_map_of_mem hc)⟩

/-- The values of column `j`, in rows that have one there. -/
def column (rows : List Row) (j : Nat) : List Text := rows.filterMap fun r => r.values[j]?

/-- A value that no value of its column is written wider than. -/
def Widest (rows : List Row) (j : Nat) (v : Text) : Prop :=
  ∀ u ∈ column rows j, (escape u).length ≤ (escape v).length

/-- The widths that rows are written with. -/
def widths (rows : List Row) : Nat → Nat := width (rows.map fun r => r.values.map escape)

lemma filterMap_written (rows : List Row) (j : Nat) :
    (rows.map fun r => r.values.map escape).filterMap (·[j]?) = (column rows j).map escape := by
  rw [column, List.map_filterMap, List.filterMap_map]
  congr 1
  ext1 r
  exact List.getElem?_map

lemma widths_spec {rows : List Row} {j : Nat} (h : column rows j ≠ []) :
    (∃ v ∈ column rows j, (escape v).length = widths rows j)
      ∧ ∀ v ∈ column rows j, (escape v).length ≤ widths rows j := by
  have hne : (rows.map fun r => r.values.map escape).filterMap (·[j]?) ≠ [] := by
    rw [filterMap_written]
    simpa using h
  have hspec := width_spec hne
  rw [filterMap_written] at hspec
  simpa [widths] using hspec

lemma mem_column {rows : List Row} {r : Row} (hr : r ∈ rows) {j : Nat} {v : Text}
    (hv : r.values[j]? = some v) : v ∈ column rows j :=
  List.mem_filterMap.mpr ⟨r, hr, hv⟩

/-- The cells of a row fit into the columns of its table. -/
lemma fits_widths {rows : List Row} {r : Row} (hr : r ∈ rows) :
    Fits (widths rows) 0 (r.values.map escape) := by
  intro j c hc
  rw [List.getElem?_map, Option.map_eq_some_iff] at hc
  obtain ⟨v, hv, rfl⟩ := hc
  have hmem := mem_column hr hv
  rw [Nat.zero_add]
  exact (widths_spec (List.ne_nil_of_mem hmem)).2 v hmem

/-- A column is as wide as its widest value. -/
lemma widths_of_widest {rows : List Row} {j : Nat} {v : Text} (hv : v ∈ column rows j)
    (hw : Widest rows j v) : widths rows j = (escape v).length := by
  obtain ⟨⟨u, hu, hlen⟩, hle⟩ := widths_spec (List.ne_nil_of_mem hv)
  have h₁ := hw u hu
  have h₂ := hle v hv
  omega

lemma exists_widest {rows : List Row} {j : Nat} (h : column rows j ≠ []) :
    ∃ v ∈ column rows j, Widest rows j v := by
  obtain ⟨⟨v, hv, hlen⟩, hle⟩ := widths_spec h
  exact ⟨v, hv, fun u hu => hlen ▸ hle u hu⟩

/-! ### One list of widths -/

/-- The widths of all columns, of which there are as many as the longest row has cells. -/
def columnWidths (rows : List (List Text)) : List Nat :=
  (List.range ((rows.map List.length).max?.getD 0)).map (width rows)

/-- A row of written cells, filled up to the widths of a list one by one. Cells beyond the end of
the list would be cut off. -/
def zippedLine (widths : List Nat) : List Text → Text
  | [] => ['|']
  | cells =>
    ['|', ' '] ++ joinWith [' ', '|', ' '] (List.zipWith (fun c w => pad w c) cells widths)
      ++ [' ', '|']

lemma length_le_length_columnWidths {rows : List (List Text)} {cells : List Text}
    (h : cells ∈ rows) : cells.length ≤ (columnWidths rows).length := by
  have hmem : cells.length ∈ rows.map List.length := List.mem_map_of_mem h
  rw [columnWidths, List.length_map, List.length_range]
  rcases hmax : (rows.map List.length).max? with _ | m
  · rw [List.max?_eq_none_iff.mp hmax] at hmem
    cases hmem
  · exact (List.max?_eq_some_iff.mp hmax).2 _ hmem

/-- The list of widths is long enough for every row, so that it cuts off no cell. -/
lemma rowLine_eq_zippedLine {rows : List (List Text)} {cells : List Text} (h : cells ∈ rows) :
    rowLine (width rows) cells = zippedLine (columnWidths rows) cells := by
  have hpad : cells.zipIdx.map (fun (c, j) => pad (width rows j) c)
      = List.zipWith (fun c w => pad w c) cells (columnWidths rows) := by
    apply List.ext_getElem?
    intro j
    rw [List.getElem?_map, List.getElem?_zipIdx, List.getElem?_zipWith, Nat.zero_add]
    rcases hc : cells[j]? with _ | c
    · rfl
    · have hlt : j < (columnWidths rows).length := by
        obtain ⟨hj, -⟩ := List.getElem?_eq_some_iff.mp hc
        have := length_le_length_columnWidths h
        omega
      have hw : (columnWidths rows)[j]? = some (width rows j) := by
        rw [List.getElem?_eq_getElem hlt]
        simp [columnWidths]
      rw [hw]
      rfl
  cases cells with
  | nil => rfl
  | cons c cells =>
    unfold rowLine zippedLine
    dsimp only
    rw [hpad]

/-- **A table is written with one list of widths**, which all of its rows share. -/
theorem linesOfValues_eq_zippedLines (rows : List (List Text)) :
    linesOfValues rows = (rows.map (·.map escape)).map
      (zippedLine (columnWidths (rows.map (·.map escape)))) :=
  List.map_congr_left fun _ h => rowLine_eq_zippedLine h

/-! ### Whole tables -/

lemma linesOfRows_eq (rows : List Row) :
    linesOfRows rows = rows.map fun r => rowLine (widths rows) (r.values.map escape) := by
  simp [linesOfRows, linesOfValues, widths, Function.comp_def]

/-- A row and the line it is written on. -/
lemma mem_zip_linesOfRows {rows : List Row} {r : Row} {line : Text} :
    (r, line) ∈ rows.zip (linesOfRows rows)
      ↔ r ∈ rows ∧ line = rowLine (widths rows) (r.values.map escape) := by
  rw [linesOfRows_eq, ← List.map_prod_left_eq_zip, List.mem_map]
  constructor
  · rintro ⟨q, hq, heq⟩
    obtain ⟨rfl, rfl⟩ := Prod.mk.inj heq
    exact ⟨hq, rfl⟩
  · rintro ⟨hr, rfl⟩
    exact ⟨r, hr, rfl⟩

/-- **Rendered tables are aligned, and tightly.** Every row has a line, and on it a pipe to open it
and a pipe to close each of its cells. Between the pipes of a cell stands its written value with a
space on either side, and filled up with spaces unless it is the widest of its column. The pipe that
closes a cell stands at the same offset in every row that has a cell in this column. A column that
has a cell has a widest one. -/
theorem linesOfRows_aligned (rows : List Row) :
    (linesOfRows rows).length = rows.length
      ∧ (∀ row line, (row, line) ∈ rows.zip (linesOfRows rows) →
        (pipes line).length = row.values.length + 1
        ∧ ∀ j v, row.values[j]? = some v →
          (∃ n, between? line j = some (' ' :: escape v ++ List.replicate n ' ' ++ [' '])
            ∧ (Widest rows j v → n = 0))
          ∧ ∃ closing, (pipes line)[j + 1]? = some closing
            ∧ ∀ row' line', (row', line') ∈ rows.zip (linesOfRows rows) → j < row'.values.length →
              (pipes line')[j + 1]? = some closing)
      ∧ ∀ j, (∃ row ∈ rows, j < row.values.length) →
        ∃ row ∈ rows, ∃ v, row.values[j]? = some v ∧ Widest rows j v := by
  refine ⟨by simp [linesOfRows_eq], ?_, ?_⟩
  · intro row line hline
    obtain ⟨hrow, rfl⟩ := mem_zip_linesOfRows.mp hline
    have hfit := fits_widths hrow
    refine ⟨by simp [pipes_rowLine hfit], fun j v hv => ⟨?_, edge (widths rows) (j + 1), ?_, ?_⟩⟩
    · refine ⟨widths rows j - (escape v).length, between?_rowLine hfit hv, fun hwidest => ?_⟩
      rw [widths_of_widest (mem_column hrow hv) hwidest, Nat.sub_self]
    · exact getElem?_pipes_rowLine hfit (List.getElem?_eq_some_iff.mp hv).1
    · intro row' line' hline' hj
      obtain ⟨hrow', rfl⟩ := mem_zip_linesOfRows.mp hline'
      exact getElem?_pipes_rowLine (fits_widths hrow') hj
  · rintro j ⟨row, hrow, hj⟩
    have hmem := mem_column hrow (List.getElem?_eq_getElem hj)
    obtain ⟨v, hv, hwidest⟩ := exists_widest (List.ne_nil_of_mem hmem)
    obtain ⟨row', hrow', hv'⟩ := List.mem_filterMap.mp hv
    exact ⟨row', hrow', v, hv', hwidest⟩

/-- A row without cells between two of different lengths. A pipe in a value counts as it is
written. -/
theorem linesOfRows_aligned_ragged :
    let rows := [Row.ofValues ["a|b".toList, "x".toList], Row.ofValues [], Row.ofValues ["c".toList]]
    linesOfRows rows = ["| a\\|b | x |".toList, "|".toList, "| c    |".toList]
      ∧ ∃ closing, (pipes "| a\\|b | x |".toList)[1]? = some closing
        ∧ (pipes "| c    |".toList)[1]? = some closing := by
  intro rows
  have hlines : linesOfRows rows = ["| a\\|b | x |".toList, "|".toList, "| c    |".toList] := by
    decide +kernel
  obtain ⟨-, haligned, -⟩ := linesOfRows_aligned rows
  rw [hlines] at haligned
  obtain ⟨closing, hfirst, hall⟩ := ((haligned _ _ (.head _)).2 0 "a|b".toList rfl).2
  exact ⟨hlines, closing, hfirst, hall _ _ (.tail _ (.tail _ (.head _))) (by decide)⟩

end Table

end FeatureTree
