import FeatureTree.Node.Render
import FeatureTree.Proofs.Source.Placed
import FeatureTree.Source.Rows

/-!
Rendered tables read back.

Escaping leaves no pipe and no newline of a value bare, and the splitter resolves each escape to
the character it stands for. So the cells of a rendered row are the trimmed values of the row,
wherever the table is placed and however far it is moved right.
-/

namespace FeatureTree

open Text

namespace Cells

@[simp] lemma splitFrom_nil (cur : Text) : splitFrom cur [] = [] := by simp [splitFrom]

lemma splitFrom_cons {c : Char} (hb : c ≠ '\\') (hp : c ≠ '|') (cur t : Text) :
    splitFrom cur (c :: t) = splitFrom (cur ++ [c]) t := by
  rw [splitFrom]
  all_goals simp_all

@[simp] lemma splitFrom_pipe (cur t : Text) :
    splitFrom cur ('|' :: t) = trim cur :: splitFrom [] t := by
  simp [splitFrom]

/-- The four ways in which a value writes a character. -/
lemma escape_cons (c : Char) (v : Text) :
    escape (c :: v) =
      (if c = '\\' then ['\\', '\\'] else if c = '|' then ['\\', '|']
        else if c = '\n' then ['\\', 'n'] else [c]) ++ escape v := by
  rw [escape, List.flatMap_cons, ← escape]
  congr 1
  split_ifs with h1 h2 h3
  · subst h1; rfl
  · subst h2; rfl
  · subst h3; rfl
  · split <;> simp_all

lemma newline_not_mem_escape (v : Text) : '\n' ∉ escape v := by
  induction v with
  | nil => simp [escape]
  | cons c v ih =>
    rw [escape_cons]
    split_ifs with h1 h2 h3
    · simp [ih]
    · simp [ih]
    · simp [ih]
    · simp [ih, Ne.symm h3]

/-- A written value is read as the value. -/
lemma splitFrom_escape (v cur t : Text) : splitFrom cur (escape v ++ t) = splitFrom (cur ++ v) t := by
  induction v generalizing cur with
  | nil => simp [escape]
  | cons c v ih =>
    rw [escape_cons]
    split_ifs with h1 h2 h3
    · subst h1; simp [splitFrom, ih]
    · subst h2; simp [splitFrom, ih]
    · subst h3; simp [splitFrom, ih]
    · rw [List.singleton_append, List.cons_append, splitFrom_cons h1 h2, ih]
      simp

lemma splitFrom_spaces (n : Nat) (cur t : Text) :
    splitFrom cur (List.replicate n ' ' ++ t) = splitFrom (cur ++ List.replicate n ' ') t := by
  induction n generalizing cur with
  | zero => simp
  | succ n ih =>
    rw [List.replicate_succ, List.cons_append, splitFrom_cons (by simp) (by simp), ih]
    simp

end Cells

namespace Table

open Cells

/-- A written cell with a space on either side and the pipe that ends it. -/
def boxed (c : Text) : Text := ' ' :: c ++ [' ', '|']

lemma joinWith_boxed {cs : List Text} (h : cs ≠ []) :
    ' ' :: joinWith [' ', '|', ' '] cs ++ [' ', '|'] = cs.flatMap boxed := by
  induction cs with
  | nil => exact absurd rfl h
  | cons c cs ih =>
    cases cs with
    | nil => simp [joinWith, boxed]
    | cons d ds =>
      have := ih (by simp)
      rw [List.flatMap_cons, ← this]
      simp [joinWith, boxed]

/-- A row is a pipe and then its cells, each up to its pipe. -/
lemma rowLine_eq (width : Nat → Nat) (cells : List Text) :
    rowLine width cells = '|' :: (cells.zipIdx.map fun (c, j) => pad (width j) c).flatMap boxed := by
  unfold rowLine
  split
  · rfl
  · rename_i hne
    have hz : (cells.zipIdx.map fun (c, j) => pad (width j) c) ≠ [] := by
      simpa using fun h => hne h
    rw [← joinWith_boxed hz]
    rfl

lemma pipe_cons_flatMap_boxed (cs : List Text) :
    '|' :: cs.flatMap boxed = cs.flatMap (fun c => '|' :: ' ' :: c ++ [' ']) ++ ['|'] := by
  induction cs with
  | nil => rfl
  | cons c cs ih =>
    rw [List.flatMap_cons, List.flatMap_cons, List.append_assoc, ← ih]
    simp [boxed]

lemma trim_rowLine (width : Nat → Nat) (cells : List Text) :
    trim (rowLine width cells) = rowLine width cells := by
  rw [rowLine_eq]
  apply trim_eq_self
  · simp
  · rw [pipe_cons_flatMap_boxed]
    exact trimEnd_append_of_not_blank _ (by simp)

lemma splitFrom_boxed (v : Text) (w : Nat) (t : Text) :
    splitFrom [] (boxed (pad w (escape v)) ++ t) = trim v :: splitFrom [] t := by
  simp only [boxed, pad, List.cons_append, List.append_assoc]
  rw [splitFrom_cons (by simp) (by simp), splitFrom_escape, splitFrom_spaces,
    splitFrom_cons (by simp) (by simp), splitFrom_pipe]
  congr 1
  rw [List.nil_append, List.append_assoc]
  exact trim_between_blanks v (by simp) (by simp +contextual [List.mem_replicate, or_imp])

lemma splitFrom_boxes (width : Nat → Nat) (vs : List Text) (j : Nat) :
    splitFrom [] ((((vs.map escape).zipIdx j).map fun (c, j) => pad (width j) c).flatMap boxed)
      = vs.map trim := by
  induction vs generalizing j with
  | nil => simp
  | cons v vs ih => simp [splitFrom_boxed, ih]

/-- The cells of a rendered row are its trimmed values. -/
lemma split?_rowLine (width : Nat → Nat) (vs : List Text) (k : Nat) :
    split? (indentLine k (rowLine width (vs.map escape))) = some (vs.map trim) := by
  rw [split?, trim_indentLine, trim_rowLine, rowLine_eq]
  exact congrArg some (splitFrom_boxes width vs 0)

lemma isSkipped_rowLine (width : Nat → Nat) (cells : List Text) (k : Nat) :
    Source.isSkipped (indentLine k (rowLine width cells)) = false := by
  rw [Source.isSkipped, trimStart_indentLine, rowLine_eq, trimStart_cons_of_not_blank _ (by simp)]
  rfl

lemma newline_not_mem_rowLine (width : Nat → Nat) (vs : List Text) (k : Nat) :
    '\n' ∉ indentLine k (rowLine width (vs.map escape)) := by
  have hbox : ∀ c ∈ vs.map escape, ∀ j, '\n' ∉ boxed (pad (width j) c) := by
    intro c hc j
    obtain ⟨v, -, rfl⟩ := List.mem_map.mp hc
    simp [boxed, pad, newline_not_mem_escape]
  rw [rowLine_eq, indentLine_of_ne_nil k (by simp)]
  simp only [List.mem_append, List.mem_cons, List.mem_flatMap, List.mem_map]
  rintro (h | h | ⟨_, ⟨⟨c, j⟩, hcj, rfl⟩, h⟩)
  · simp [margin] at h
  · simp at h
  · exact hbox c (List.fst_mem_of_mem_zipIdx hcj) j h

lemma rowsFrom?_rowLines (width : Nat → Nat) (rows : List (List Text)) (k n : Nat)
    (rest : List Text) :
    Source.rowsFrom? rows.length
      (Source.countFrom n ((rows.map fun vs => indentLine k (rowLine width (vs.map escape))) ++ rest))
        = some (rows.mapIdx fun i vs => ⟨n + i, vs.map trim⟩) := by
  induction rows generalizing n with
  | nil => cases rest <;> rfl
  | cons vs rows ih =>
    have := ih (n + 1)
    simp only [List.map_cons, List.cons_append, Source.countFrom_cons, List.length_cons,
      Source.rowsFrom?, isSkipped_rowLine, split?_rowLine, this]
    simp [List.mapIdx_cons, Nat.add_assoc, Nat.add_comm 1]

lemma dropReturn_rowLine (width : Nat → Nat) (cells : List Text) (k : Nat) :
    dropReturn (indentLine k (rowLine width cells)) = indentLine k (rowLine width cells) := by
  apply dropReturn_of_getLast?
  rw [getLast?_indentLine]
  exact getLast?_ne_return_of_trimEnd (trimEnd_eq_self_of_trim (trim_rowLine width cells))

lemma rowLine_ne_nil (width : Nat → Nat) (cells : List Text) : rowLine width cells ≠ [] := by
  rw [rowLine_eq]; simp

/-- The lines of rows, moved right, as one function of the values of each row. -/
lemma indent_linesOfRows (rows : List Row) (k : Nat) :
    ∃ width, indent k (linesOfRows rows)
      = (rows.map Row.values).map fun vs => indentLine k (rowLine width (vs.map escape)) :=
  ⟨width ((rows.map Row.values).map (·.map escape)), by
    simp [indent, linesOfRows, linesOfValues, Function.comp_def]⟩

/-- **Rendered rows are read back.** A table that is placed on lines of its own, however far it is
moved right, is found on these lines, row by row, with the trimmed values of each row. -/
theorem rows?_linesOfRows (rows : List Row) (k : Nat) (before after : Text) (hrows : rows ≠ [])
    (hb : Ended before) (ha : StartsAtEnd after) :
    let source := Source.ofText (before ++ joinLines (indent k (linesOfRows rows)) ++ after)
    let first := before.count '\n' + 1
    source.lineOf (byteLength before) = first ∧
      source.rows? first rows.length
        = some (rows.mapIdx fun i r => ⟨first + i, r.values.map trim⟩) := by
  intro source first
  obtain ⟨width, hlines⟩ := indent_linesOfRows rows k
  set ls := indent k (linesOfRows rows) with hls
  have hne : ls ≠ [] := by rw [hlines]; simpa using hrows
  have hmem : ∀ l ∈ ls, ∃ vs : List Text, l = indentLine k (rowLine width (vs.map escape)) := by
    intro l hl
    rw [hlines] at hl
    obtain ⟨vs, -, rfl⟩ := List.mem_map.mp hl
    exact ⟨vs, rfl⟩
  have hlast : ls.getLast? ≠ some [] := by
    intro h
    obtain ⟨vs, hvs⟩ := hmem [] (List.mem_of_getLast? h)
    exact rowLine_ne_nil _ _ (indentLine_eq_nil_iff.mp hvs.symm)
  constructor
  · have hjoin : joinLines ls ++ after ≠ [] := by
      obtain ⟨l, hl⟩ := List.exists_mem_of_ne_nil ls hne
      obtain ⟨vs, rfl⟩ := hmem l hl
      have := joinLines_ne_nil hl (mt indentLine_eq_nil_iff.mp (rowLine_ne_nil _ _))
      simp [this]
    have := Source.lineOf_byteLength before hjoin
    rwa [← List.append_assoc] at this
  · obtain ⟨rest, hrest⟩ := Source.linesFrom_placed hb ha hne (by
      intro l hl
      obtain ⟨vs, rfl⟩ := hmem l hl
      exact newline_not_mem_rowLine _ _ _) hlast
    have hdrop : ls.map dropReturn = ls := by
      refine map_dropReturn fun l hl => ?_
      obtain ⟨vs, rfl⟩ := hmem l hl
      exact dropReturn_rowLine _ _ _
    have := rowsFrom?_rowLines width (rows.map Row.values) k first rest
    rw [List.length_map, ← hlines] at this
    rw [Source.rows?, hrest, hdrop, this]
    simp [List.mapIdx_eq_zipIdx_map, List.zipIdx_map]

/-- A row with escapes and outer blanks, and an empty row, below a step. -/
theorem rows?_linesOfRows_escapes :
    let rows := [Row.ofValues ["a|b\\".toList, " x\ny\r ".toList], Row.ofValues []]
    rows ≠ [] ∧ Ended "Given x\n".toList ∧ StartsAtEnd "\nThen y".toList ∧
      (Source.ofText ("Given x\n".toList ++ joinLines (indent 2 (linesOfRows rows))
          ++ "\nThen y".toList)).rows? 2 2
        = some [⟨2, ["a|b\\".toList, "x\ny".toList]⟩, ⟨3, []⟩] := by
  refine ⟨by simp, .inr rfl, .inr rfl, ?_⟩
  exact (rows?_linesOfRows [Row.ofValues ["a|b\\".toList, " x\ny\r ".toList], Row.ofValues []] 2
    "Given x\n".toList "\nThen y".toList (by simp) (.inr rfl) (.inr rfl)).2

end Table

end FeatureTree
