import FeatureTree.Proofs.Dialect.English
import FeatureTree.Proofs.Node.Relined
import FeatureTree.Proofs.RoundTrip.Faithful
import FeatureTree.Proofs.RoundTrip.Place
import FeatureTree.Proofs.Table.ReadBack

/-!
Rendered tables and doc strings are read by the grammar, and located where they were written.

Of a table the grammar only says how many rows it has and how many cells are in each. A masked row
has a pipe for every cell; a row that is not masked may have more, which is why the first row must
have none of its own.
-/

namespace FeatureTree

open Text Grammar Parse

namespace Cells

/-- Escapes are masked one by one. -/
lemma mask_escape_append (v t : Text) : mask (escape v ++ t) = mask (escape v) ++ mask t := by
  induction v with
  | nil => rfl
  | cons c v ih =>
    rw [escape_cons]
    split_ifs with h₁ h₂ h₃
    · simp [mask, ih]
    · simp [mask, ih]
    · simp [mask, ih]
    · rw [List.singleton_append, List.cons_append, mask_cons_of_ne _ h₁, mask_cons_of_ne _ h₁, ih]
      rfl

lemma pipe_not_mem_mask_escape (v : Text) : '|' ∉ mask (escape v) := by
  induction v with
  | nil => simp [escape, mask]
  | cons c v ih =>
    rw [escape_cons]
    split_ifs with h₁ h₂ h₃
    · simp [mask, ih]
    · simp [mask, ih]
    · simp [mask, ih]
    · simp [mask_cons_of_ne _ h₁, ih, Ne.symm h₂]

lemma mask_spaces (n : Nat) (t : Text) :
    mask (List.replicate n ' ' ++ t) = List.replicate n ' ' ++ mask t := by
  induction n with
  | zero => rfl
  | succ n ih => rw [List.replicate_succ, List.cons_append, mask_cons_of_ne _ (by simp), ih]; rfl

lemma mask_eq_nil_iff {t : Text} : mask t = [] ↔ t = [] := by
  have := (veils_mask t).length_eq
  rw [← List.length_eq_zero_iff, ← List.length_eq_zero_iff, this]

lemma mask_indentLine (k : Nat) (l : Text) : mask (indentLine k l) = indentLine k (mask l) := by
  by_cases h : l = []
  · subst h; rfl
  · rw [indentLine_of_ne_nil k h, indentLine_of_ne_nil k (mt mask_eq_nil_iff.mp h), Text.margin,
      mask_spaces]

end Cells

lemma Mask.piece_indentLine (o : Option Fence) (k : Nat) (l : Text) :
    piece o (indentLine k l) = indentLine k (piece o l) := by
  rw [piece, piece, isRow_indentLine, Cells.mask_indentLine]
  split <;> rfl

namespace Table

open Cells

/-! ### Rows as the grammar sees them -/

/-- A written value, filled up with spaces. -/
def Padded (c v : Text) : Prop := ∃ n, c = escape v ++ List.replicate n ' '

lemma exists_boxes (width : Nat → Nat) (vs : List Text) :
    ∃ cs, rowLine width (vs.map escape) = '|' :: cs.flatMap boxed ∧ List.Forall₂ Padded cs vs := by
  refine ⟨_, rowLine_eq width _, ?_⟩
  have key : ∀ (vs : List Text) (j : Nat), List.Forall₂ Padded
      (((vs.map escape).zipIdx j).map fun p => pad (width p.2) p.1) vs := by
    intro vs
    induction vs with
    | nil => intro j; exact .nil
    | cons v vs ih => intro j; exact .cons ⟨_, rfl⟩ (ih _)
  exact key vs 0

lemma newline_not_mem_of_padded {cs vs : List Text} (h : List.Forall₂ Padded cs vs) :
    ∀ c ∈ cs, '\n' ∉ c := by
  induction h with
  | nil => simp
  | cons hp _ ih =>
    obtain ⟨n, rfl⟩ := hp
    simpa [newline_not_mem_escape] using ih

/-- A row of cells that are masked is a row of masked cells. -/
lemma mask_boxes {cs vs : List Text} (h : List.Forall₂ Padded cs vs) :
    mask (cs.flatMap boxed) = (cs.map mask).flatMap boxed := by
  induction h with
  | nil => rfl
  | @cons c v cs vs hp _ ih =>
    obtain ⟨n, rfl⟩ := hp
    have hsp := mask_spaces n []
    rw [List.append_nil] at hsp
    have hm : mask (escape v ++ List.replicate n ' ') = mask (escape v) ++ List.replicate n ' ' := by
      rw [mask_escape_append, hsp]
      simp [mask]
    simp only [List.flatMap_cons, List.map_cons, boxed, hm, List.cons_append, List.append_assoc]
    rw [mask_cons_of_ne _ (by simp), mask_escape_append, mask_spaces, List.nil_append,
      mask_cons_of_ne _ (by simp), mask_cons_of_ne _ (by simp), ih, List.nil_append]

lemma pipe_not_mem_mask_of_padded {cs vs : List Text} (h : List.Forall₂ Padded cs vs) :
    ∀ c ∈ cs.map mask, '|' ∉ c := by
  induction h with
  | nil => simp
  | @cons c v cs vs hp _ ih =>
    obtain ⟨n, rfl⟩ := hp
    have hsp := mask_spaces n []
    rw [List.append_nil] at hsp
    simp only [List.map_cons, List.forall_mem_cons]
    refine ⟨?_, ih⟩
    rw [mask_escape_append, hsp]
    simp [pipe_not_mem_mask_escape, mask]

lemma pipe_not_mem_escape {v : Text} (h : '|' ∉ v) : '|' ∉ escape v := by
  induction v with
  | nil => simp [escape]
  | cons c v ih =>
    simp only [List.mem_cons, not_or] at h
    rw [escape_cons]
    split_ifs with h₁ h₂ h₃
    · simp [ih h.2]
    · exact absurd h₂.symm h.1
    · simp [ih h.2]
    · simp [ih h.2, h.1]

lemma pipe_not_mem_of_padded {cs vs : List Text} (h : List.Forall₂ Padded cs vs)
    (hv : ∀ v ∈ vs, '|' ∉ v) : ∀ c ∈ cs, '|' ∉ c := by
  induction h with
  | nil => simp
  | cons hp _ ih =>
    obtain ⟨n, rfl⟩ := hp
    simp only [List.forall_mem_cons] at hv ⊢
    exact ⟨by simp [pipe_not_mem_escape hv.1], ih hv.2⟩

lemma rowTail_boxes {cs : List Text} (h : ∀ c ∈ cs, '\n' ∉ c) : RowTail (cs.flatMap boxed) := by
  refine ⟨?_, ?_⟩
  · simp only [List.mem_flatMap, not_exists, not_and]
    intro c hc
    simp [boxed, h c hc]
  · rcases List.eq_nil_or_concat cs with rfl | ⟨init, c, rfl⟩
    · exact .inl rfl
    · right
      have : boxed c = (' ' :: c ++ [' ']) ++ ['|'] := by simp [boxed]
      rw [List.concat_eq_append, List.flatMap_append, List.flatMap_singleton, this,
        ← List.append_assoc, List.getLast?_concat]

lemma le_count_boxes (cs : List Text) : cs.length ≤ (cs.flatMap boxed).count '|' := by
  induction cs with
  | nil => simp
  | cons c cs ih =>
    simp only [List.flatMap_cons, List.count_append, boxed, List.length_cons, List.count_cons]
    simp
    omega

lemma count_boxes {cs : List Text} (h : ∀ c ∈ cs, '|' ∉ c) :
    (cs.flatMap boxed).count '|' = cs.length := by
  induction cs with
  | nil => simp
  | cons c cs ih =>
    simp only [List.forall_mem_cons] at h
    simp only [List.flatMap_cons, List.count_append, boxed, List.length_cons, ih h.2,
      List.count_cons, List.count_eq_zero.mpr h.1]
    simp
    omega

end Table

namespace RoundTrip

open Cells Table

variable {before after : List Text} {k : Nat} {s : State}

lemma starts_rowLine (width : Nat → Nat) (cells : List Text) (f : Fence) :
    f.starts (rowLine width cells) = false := by
  refine Fence.not_starts_of_head (fun c hc => ?_) f
  rw [rowLine_eq, trimStart_cons_of_not_blank _ (by simp)] at hc
  obtain rfl : '|' = c := by simpa using hc
  simp

/-- A row leaves the fence as it is. -/
lemma run_rowLine (before : List Text) (k : Nat) (width : Nat → Nat) (cells : List Text) :
    Fence.run none (before ++ [indentLine k (rowLine width cells)]) = Fence.run none before := by
  rw [Fence.run_append, Fence.run_cons, Fence.after_indentLine,
    Fence.after_of_not_starts (starts_rowLine width cells), Fence.run_nil]

lemma isRow_rowLine (width : Nat → Nat) (cells : List Text) :
    Mask.isRow (rowLine width cells) = true := by
  rw [Mask.isRow, rowLine_eq, trimStart_cons_of_not_blank _ (by simp)]
  rfl

lemma solid_row {y : Text} (hy : RowTail y) : Solid ('|' :: y) where
  ne_nil := by simp
  newline := by simpa using hy.1
  last := by
    rcases hy.2 with rfl | hl
    · simp
    · rw [List.getLast?_cons, hl]
      simp
  start c hc := by
    obtain rfl : '|' = c := by simpa using hc
    simp

/-- A row is shown with at least as many pipes as it has cells, and with no more if its pipes are
masked or if it has none. -/
lemma shown_row (before : List Text) (k : Nat) (width : Nat → Nat) (vs : List Text) :
    ∃ y, Shown before k (rowLine width (vs.map escape)) ('|' :: y) ∧ RowTail y
      ∧ vs.length ≤ y.count '|'
      ∧ ((Fence.run none before = none ∨ ∀ v ∈ vs, '|' ∉ v) → y.count '|' = vs.length) := by
  obtain ⟨cs, hrow, hcs⟩ := exists_boxes width vs
  have hn := newline_not_mem_of_padded hcs
  have hlen := hcs.length_eq
  have hisRow : Mask.isRow (indentLine k (rowLine width (vs.map escape))) = true := by
    rw [Mask.isRow_indentLine, isRow_rowLine]
  rcases ho : Fence.run none before with _ | f
  · -- masked: a pipe ends each cell, and there are no others
    have htail : RowTail ((cs.map mask).flatMap boxed) := by
      refine rowTail_boxes fun c hc => ?_
      obtain ⟨d, hd, rfl⟩ := List.mem_map.mp hc
      exact mt newline_mem_mask_iff.mp (hn d hd)
    have hcount := count_boxes (pipe_not_mem_mask_of_padded hcs)
    rw [List.length_map, hlen] at hcount
    refine ⟨_, ⟨?_, solid_row htail⟩, htail, hcount.ge, fun _ => hcount⟩
    rw [run_rowLine, ho, Mask.piece, hisRow]
    simp only [Option.isNone_none, Bool.and_self, if_true]
    rw [mask_indentLine, hrow, mask_cons_of_ne _ (by simp), mask_boxes hcs]
  · -- not masked: the pipes of the cells count too
    have htail : RowTail (cs.flatMap boxed) := rowTail_boxes hn
    refine ⟨_, ⟨?_, solid_row htail⟩, htail, hlen ▸ le_count_boxes cs, fun h => ?_⟩
    · rw [run_rowLine, ho, Mask.piece, hrow]
      simp
    · rw [count_boxes (pipe_not_mem_of_padded hcs (h.resolve_left (by simp))), hlen]

lemma row?_marks {t : Text} (h : Starts marks t) : row? t = none := by
  refine Grammar.row?_eq_none (h.atWord isWord_of_mem_marks) fun hp => ?_
  obtain ⟨u, rfl⟩ := List.head?_eq_some_iff.mp hp
  exact h.absent apart_row (by simp) "|" (by simp) ⟨u, rfl⟩

/-- What the cells of a row say of it: there are enough of them, and no more than it has values if
its pipes are masked or if it has none. -/
def RowSaid (o : Option Fence) (cs vs : List Text) : Prop :=
  vs.length ≤ cs.length ∧ ((o = none ∨ ∀ v ∈ vs, '|' ∉ v) → cs.length = vs.length)

lemma le_length_of_rowSaid {o : Option Fence} {css vss : List (List Text)} {w : Nat}
    (h : List.Forall₂ (RowSaid o) css vss) (hw : ∀ vs ∈ vss, vs.length = w) :
    ∀ cs ∈ css, w ≤ cs.length := by
  induction h with
  | nil => simp
  | cons hsay _ ih =>
    simp only [List.forall_mem_cons] at hw ⊢
    exact ⟨hw.1 ▸ hsay.1, ih hw.2⟩

/-- The line of a row, moved right. -/
def rowAt (k : Nat) (width : Nat → Nat) (vs : List Text) : List Text :=
  [indentLine k (rowLine width (vs.map escape))]

/-- The rows of a table are read one by one. -/
lemma reads_rows (width : Nat → Nat) (vss : List (List Text))
    (hrest : s.rest = ahead before (vss.flatMap (rowAt k width) ++ after))
    (hstop : Starts marks (ahead (before ++ vss.flatMap (rowAt k width)) after)) :
    ∃ css, Reads AtWord (Parse.read row?) s css
        (s.on (ahead (before ++ vss.flatMap (rowAt k width)) after))
      ∧ List.Forall₂ (RowSaid (Fence.run none before)) css vss := by
  have key := reads_all (Parse.read row?) (rowAt k width) after (RowSaid (Fence.run none before))
    (fun b s' vss' => s' = s.on s'.rest ∧ Fence.run none b = Fence.run none before
      ∧ Starts marks (ahead (b ++ vss'.flatMap (rowAt k width)) after))
    ?_ ?_ before s vss ⟨rfl, rfl, hstop⟩ hrest
  · obtain ⟨css, s', hreads, hsaid, ⟨hs', -, -⟩, hrest'⟩ := key
    rw [hrest'] at hs'
    exact ⟨css, hs' ▸ hreads, hsaid⟩
  · rintro b s' ⟨-, -, hstop'⟩ hrest'
    rw [List.flatMap_nil, List.append_nil, ← hrest'] at hstop'
    exact ⟨hstop'.atWord isWord_of_mem_marks, s'.rest, read_none (row?_marks hstop')⟩
  · rintro b s' vs vss' ⟨hs', ho, hstop'⟩ hrest'
    obtain ⟨y, hy, htail, hle, heq⟩ := shown_row b k width vs
    obtain ⟨cs, hrow, hlen⟩ := row?_line htail
      (below (b ++ rowAt k width vs) (vss'.flatMap (rowAt k width) ++ after))
    have hrest'' := hrest'.trans (hy.ahead_eq (vss'.flatMap (rowAt k width) ++ after))
    have hat : AtWord s'.rest := hrest' ▸ hy.atWord _
    have hlt := hy.length_lt [] (vss'.flatMap (rowAt k width) ++ after)
    have hread : row? s'.rest = some (cs, ahead (b ++ rowAt k width vs)
        (vss'.flatMap (rowAt k width) ++ after)) := by
      rw [hrest'']
      exact hrow
    refine ⟨hat, cs, _, read_some hread, ⟨hlen ▸ hle, fun h => ?_⟩, ⟨?_, ?_, ?_⟩, rfl, ?_⟩
    · rw [hlen, heq (by rwa [ho])]
    · rw [hs']; rfl
    · rw [← ho]; exact run_rowLine b k width _
    · simpa [List.flatMap_cons] using hstop'
    · rw [hrest']
      exact hlt

/-- A rendered table is read, with as many rows as it has and as many cells in each. -/
lemma table_run {rs : List Row} {w : Nat} (hne : rs ≠ []) (hw : ∀ r ∈ rs, r.values.length = w)
    (hf : FaithfulRows (Fence.run none before) rs)
    (hrest : s.rest = ahead before (indent k (linesOfRows rs) ++ after))
    (hstop : Starts marks (ahead (before ++ indent k (linesOfRows rs)) after)) :
    ∃ t, table s = (some t, s.on (ahead (before ++ indent k (linesOfRows rs)) after))
      ∧ t.rows.length = rs.length ∧ (∀ r ∈ t.rows, r.length = w)
      ∧ t.span.start = s.size - byteLength s.rest := by
  obtain ⟨width, hlines⟩ := indent_linesOfRows rs k
  have hlines' : indent k (linesOfRows rs) = (rs.map Row.values).flatMap (rowAt k width) := by
    rw [hlines, List.map_eq_flatMap]
    rfl
  rw [hlines'] at hrest hstop ⊢
  obtain ⟨css, hreads, hsaid⟩ := reads_rows width (rs.map Row.values) hrest hstop
  obtain ⟨r, rs, rfl⟩ := List.exists_cons_of_ne_nil hne
  obtain ⟨cs, css, hsay, hlater, rfl⟩ := List.forall₂_cons_right_iff.mp
    (by simpa using hsaid : List.Forall₂ _ css (r.values :: rs.map Row.values))
  have hfirst : cs.length = w := by
    rw [hsay.2 (hf.imp_right fun h => h r rfl), hw r (by simp)]
  have hall : ∀ q ∈ cs :: css, w ≤ q.length :=
    le_length_of_rowSaid hsaid (by simpa using hw)
  have hany : ((cs :: css).any fun q => q.length < ((cs :: css).headD []).length) = false := by
    rw [List.any_eq_false]
    intro q hq
    have := hall q hq
    simp only [List.headD_cons, hfirst, decide_eq_true_eq]
    omega
  have hlen : css.length = rs.length := by simpa using hlater.length_eq
  have hrun : ∃ t, table s = (some t, s.on (ahead
        (before ++ ((r :: rs).map Row.values).flatMap (rowAt k width)) after))
      ∧ t.rows = (cs :: css).map (·.take cs.length)
      ∧ t.span.start = s.size - byteLength s.rest := by
    rw [table, bind_some (mark_run s), bind_skip hreads.holds.skipSpaces,
      bind_some (spaced1_of_reads hreads), bind_some (mark_run _)]
    simp only [hany]
    exact ⟨_, rfl, rfl, rfl⟩
  obtain ⟨t, ht, hrows, hstart⟩ := hrun
  refine ⟨t, ht, by simp [hrows, hlen], ?_, hstart⟩
  intro q hq
  rw [hrows] at hq
  obtain ⟨q', hq', rfl⟩ := List.mem_map.mp hq
  rw [List.length_take, hfirst]
  exact min_eq_left (hall q' hq')

/-- The rows that are found are those of the tree, if they are as many and as long. -/
lemma map_values_rows {fr : Frame} {t : Grammar.Table} {found : List (Located (List Text))}
    (hfound : fr.source.rows? (fr.source.lineOf t.span.start) t.rows.length = some found) {w : Nat}
    (hlen : found.length = t.rows.length) (hf : ∀ r ∈ found, r.value.length = w)
    (ht : ∀ r ∈ t.rows, r.length = w) :
    (Locate.rows fr t).map Row.values = found.map Located.value := by
  have hpair : ∀ p ∈ found.zip t.rows, p.1.value.length = p.2.length := by
    intro p hp
    obtain ⟨h₁, h₂⟩ := List.of_mem_zip hp
    rw [hf _ h₁, ht _ h₂]
  have hfilter : (some found).filter (fun rs =>
      (rs.zip t.rows).all fun p => p.1.value.length == p.2.length) = some found := by
    simp only [Option.filter_some, List.all_eq_true]
    rw [if_pos]
    exact fun p hp => by simpa using hpair p hp
  rw [Locate.rows_eq, hfound, hfilter, Option.elim_some, List.map_map]
  calc (found.zip t.rows).map _
      = (found.zip t.rows).map (Located.value ∘ Prod.fst) := by
        refine List.map_congr_left fun p hp => ?_
        exact Locate.values_row _ (hpair p hp)
    _ = found.map Located.value := by rw [← List.map_map, List.map_fst_zip hlen.le]

/-- No line is told. -/
def nowhere : Option Nat → Option Nat := fun _ => none

/-- Of a row only its values are left. -/
lemma relined_row (r : Row) : r.relined nowhere = Row.ofValues r.values := by
  simp [Row.relined, Row.ofValues, Row.values, Cell.relined, Cell.ofValue, nowhere,
    Function.comp_def]

/-- The rows of a rendered table are found among the lines that they stand on. -/
lemma rows?_below {rs : List Row} (hb : ∀ l ∈ before, '\n' ∉ l) (ha : ∀ l ∈ after, '\n' ∉ l)
    (hrs : ∀ r ∈ rs, ∀ v ∈ r.values, trim v = v) :
    ∃ found, (Source.ofText (unlines (before ++ (indent k (linesOfRows rs) ++ after)))).rows?
        (before.length + 1) rs.length = some found
      ∧ found.map Located.value = rs.map Row.values := by
  obtain ⟨width, hlines⟩ := indent_linesOfRows rs k
  have hmem : ∀ l ∈ indent k (linesOfRows rs), '\n' ∉ l ∧ dropReturn l = l := by
    intro l hl
    rw [hlines] at hl
    obtain ⟨vs, -, rfl⟩ := List.mem_map.mp hl
    exact ⟨newline_not_mem_rowLine _ _ _, dropReturn_rowLine _ _ _⟩
  have hfrom := linesFrom_below hb hmem ha
  have hfound := rowsFrom?_rowLines width (rs.map Row.values) k (before.length + 1)
    (after.map dropReturn)
  rw [List.length_map, ← hlines, ← hfrom] at hfound
  refine ⟨_, hfound, ?_⟩
  rw [List.mapIdx_eq_zipIdx_map, List.map_map]
  calc ((rs.map Row.values).zipIdx).map _
      = ((rs.map Row.values).zipIdx).map Prod.fst := by
        refine List.map_congr_left fun p hp => ?_
        obtain ⟨r, hr, hrp⟩ := List.mem_map.mp (List.fst_mem_of_mem_zipIdx hp)
        change p.1.map trim = p.1
        rw [← hrp]
        conv_rhs => rw [← List.map_id r.values]
        exact List.map_congr_left (hrs r hr)
    _ = rs.map Row.values := List.zipIdx_map_fst _ _

/-- **A rendered table is located where it stands.** -/
lemma located_rows {rs : List Row} {w : Nat} (hb : ∀ l ∈ before, '\n' ∉ l)
    (ha : ∀ l ∈ after, '\n' ∉ l)
    (hrs : ∀ r ∈ rs, r.values.length = w ∧ ∀ v ∈ r.values, trim v = v) {fr : Frame}
    (hfr : fr.source = Source.ofText (unlines (before ++ (indent k (linesOfRows rs) ++ after))))
    {t : Grammar.Table} (hlen : t.rows.length = rs.length) (hw : ∀ r ∈ t.rows, r.length = w)
    (hline : fr.source.lineOf t.span.start = before.length + 1) :
    (Locate.rows fr t).map (Row.relined nowhere) = rs.map (Row.relined nowhere) := by
  obtain ⟨found, hfound, hvalues⟩ := rows?_below (k := k) hb ha fun r hr => (hrs r hr).2
  have hlen' : found.length = t.rows.length := by
    have := congrArg List.length hvalues
    simp only [List.length_map] at this
    omega
  have hwidth : ∀ q ∈ found, q.value.length = w := by
    intro q hq
    have : q.value ∈ rs.map Row.values := hvalues ▸ List.mem_map_of_mem hq
    obtain ⟨r, hr, hrq⟩ := List.mem_map.mp this
    rw [← hrq, (hrs r hr).1]
  rw [← hfr, ← hline, ← hlen] at hfound
  have hall := (map_values_rows hfound hlen' hwidth hw).trans hvalues
  have hof : ∀ qs : List Row, qs.map (Row.relined nowhere) = (qs.map Row.values).map Row.ofValues := by
    intro qs
    rw [List.map_map]
    exact List.map_congr_left fun r _ => relined_row r
  rw [hof, hof, hall]

/-! ### Doc strings -/

/-- Blanks before a line do not close it. -/
lemma open_indentLine {f : Fence} {l : Text} (h : Open f.mark l) (k : Nat) :
    Open f.mark (indentLine k l) := by
  by_cases hl : l = []
  · rwa [hl, indentLine_nil, ← hl]
  intro a b hab
  rw [indentLine_of_ne_nil k hl, List.append_assoc] at hab
  rcases List.append_eq_append_iff.mp hab with ⟨a', rfl, hl'⟩ | ⟨c, hc, hl'⟩
  · have := h a' b (by rw [hl', List.append_assoc])
    simp [this]
  · rcases c with _ | ⟨d, c⟩
    · have := h [] b (by simpa using hl'.symm)
      simp at this
    · -- the mark would start with a blank
      have hd : d ∈ Text.margin k := by rw [hc]; simp
      have hd' : d = ' ' := by
        rw [Text.margin, List.mem_replicate] at hd
        exact hd.2
      cases f <;> simp [Fence.mark, hd'] at hl'

lemma solid_openingLine {d : DocString} (ht : d.TypeFits) : Solid d.openingLine where
  ne_nil := by simp [DocString.openingLine, Fence.mark]
  newline := DocString.newline_not_mem_openingLine ht
  last := DocString.openingLine_getLast? ht
  start c hc := by
    obtain rfl : '"' = c := by simpa [DocString.openingLine, Fence.mark] using hc
    simp

/-- A rendered doc string is read up to its last line. -/
lemma docString_run {d : DocString} (ht : d.TypeFits) (hf : d.Faithful)
    (hrest : s.rest = ahead before (indent k d.lines ++ after)) :
    ∃ body, Grammar.docString s
      = (some body, s.on (ahead (before ++ indent k d.lines) after)) := by
  obtain ⟨-, -, hopen⟩ := hf
  have hshown : Shown before k d.openingLine d.openingLine :=
    shown_of_not_isRow before k (solid_openingLine ht) rfl
  have hlines : indent k d.lines = indentLine k d.openingLine
      :: (indent k d.bodyLines ++ [indentLine k Fence.quotes.mark]) := by
    rw [DocString.lines_eq, indent, List.map_cons, List.map_append]
    rfl
  set opened := before ++ [indentLine k d.openingLine] with hopened
  set masked := Mask.pieces (Fence.run none opened) (indent k d.bodyLines) with hmasked
  have hplaced : opened ++ indent k d.bodyLines ++ [indentLine k Fence.quotes.mark]
      = before ++ indent k d.lines := by
    rw [hlines, hopened]
    simp
  have hclosed : Shown (opened ++ indent k d.bodyLines) k Fence.quotes.mark Fence.quotes.mark :=
    shown_of_not_isRow _ k ⟨by simp [Fence.mark], by simp [Fence.mark], by simp [Fence.mark],
      by simp [Fence.mark]⟩ rfl
  have hclosing : below (opened ++ indent k d.bodyLines) (indentLine k Fence.quotes.mark :: after)
      = List.replicate (2 * k) ' ' ++ (Fence.quotes.mark
        ++ '\n' :: below (before ++ indent k d.lines) after) := by
    rw [hclosed.below_eq, hplaced, indentLine_of_ne_nil k (by simp [Fence.mark]),
      List.append_assoc]
    rfl
  have htext : s.rest = Fence.quotes.mark ++ (unlines (d.contentType.getD [] :: masked)
      ++ (List.replicate (2 * k) ' ' ++ (Fence.quotes.mark
        ++ '\n' :: below (before ++ indent k d.lines) after))) := by
    rw [← hclosing, hrest, hlines, List.cons_append, hshown.ahead_eq, ← hopened,
      List.append_assoc (indent k d.bodyLines), List.singleton_append, below_append, unlines_cons,
      DocString.openingLine]
    simp only [List.append_assoc, List.cons_append]
    rfl
  have hbody : ∀ m ∈ masked, '\n' ∉ m ∧ Open Fence.quotes.mark m := by
    intro m hm
    obtain ⟨i, hi, o, rfl⟩ := Mask.exists_of_mem_pieces hm
    obtain ⟨l, hl, rfl⟩ := List.mem_map.mp hi
    have hv := Mask.veils_piece o (indentLine k l)
    refine ⟨?_, (open_indentLine (hopen l (by simp [hl])) k).veils hv⟩
    rw [mem_veils_iff hv (by simp [Plain])]
    exact newline_not_mem_indentLine k (DocString.newline_not_mem_bodyLines hl)
  have htype : '\n' ∉ d.contentType.getD [] := by
    have := DocString.newline_not_mem_openingLine ht
    simp only [DocString.openingLine, List.mem_append, not_or] at this
    exact this.2
  have hnl : ∀ l ∈ d.contentType.getD [] :: masked, '\n' ∉ l := by
    simpa using ⟨htype, fun m hm => (hbody m hm).1⟩
  have hopen' : ∀ l ∈ d.contentType.getD [] :: masked, Open Fence.quotes.mark l := by
    simpa using ⟨hopen _ (by simp), fun m hm => (hbody m hm).2⟩
  obtain ⟨body, hfence⟩ := fence?_lines Fence.quotes hnl hopen' (2 * k)
    (below (before ++ indent k d.lines) after)
  rw [← htext] at hfence
  refine ⟨dedent body, ?_⟩
  rw [Grammar.docString, bind_some (orElse_some (read_some hfence))]
  rfl

/-- **A rendered doc string is located where it stands.** -/
lemma located_docString {d : DocString} (ht : d.TypeFits) (hf : d.Faithful)
    (hb : ∀ l ∈ before, '\n' ∉ l) (ha : ∀ l ∈ after, '\n' ∉ l) {fr : Frame}
    (hfr : fr.source = Source.ofText (unlines (before ++ (indent k d.lines ++ after))))
    (body : Text) :
    (Locate.docString fr before.length body).relined nowhere = d.relined nowhere := by
  obtain ⟨hreturn, hescape, -⟩ := hf
  have hfrom := linesFrom_below hb (DocString.mem_indent_lines ht hreturn k) ha
  rw [← hfr, DocString.indent_lines, List.append_assoc] at hfrom
  have hclosing : Fence.quotes.starts (indentLine k Fence.quotes.mark) = true := by
    simpa using DocString.starts_closing k []
  rw [Locate.docString, DocString.docString?_of_linesFrom ht hclosing hfrom]
  simp [DocString.relined, DocString.joinLines_bodyLines hescape, nowhere]

end RoundTrip

end FeatureTree
