import FeatureTree.Proofs.Source.Range

/-!
A text behind a shell of lines.

What is found in a text is found as many lines later when whole lines stand above it. The scans
that look down from a line do not see the shell. The search for tags looks up and must be stopped
by it, and the search for comments starts in it; so no line of the shell may look like a tag, a
comment, a blank line or a fence.
-/

namespace FeatureTree

open Text

/-- A line that may stand in a shell. -/
structure ShellLine (l : Text) : Prop where
  newline : '\n' ∉ l
  content : ∃ c, (trimStart l).head? = some c ∧ c ≠ '#' ∧ c ≠ '@'
  fence : ∀ f : Fence, ¬ f.mark <+: trimStart l

lemma prefix_trimStart_dropReturn (l : Text) : trimStart (dropReturn l) <+: trimStart l := by
  rw [Text.dropReturn]
  split
  · rename_i h
    obtain ⟨m, rfl⟩ := List.getLast?_eq_some_iff.mp h
    rw [List.dropLast_concat, trimStart_append]
    split
    · rename_i hm
      rw [List.isEmpty_iff.mp hm]
      exact List.nil_prefix
    · exact List.prefix_append _ _
  · exact List.prefix_rfl

lemma ShellLine.dropReturn {l : Text} (h : ShellLine l) : ShellLine (dropReturn l) where
  newline hn := h.newline (mem_of_mem_dropReturn hn)
  content := by
    rw [← head?_trim, trim_dropReturn, head?_trim]
    exact h.content
  fence f hf := h.fence f (hf.trans (prefix_trimStart_dropReturn l))

lemma ShellLine.isMarker_eq {l : Text} (h : ShellLine l) : Source.isMarker l = false := by
  obtain ⟨c, hc, hhash, hat⟩ := h.content
  obtain ⟨t, ht⟩ := List.head?_eq_some_iff.mp hc
  simp [Source.isMarker, ht, hhash, hat]

lemma ShellLine.opening?_eq {l : Text} (h : ShellLine l) : Fence.opening? l = none := by
  have hstarts : ∀ f : Fence, f.starts l = false := by
    intro f
    rw [Fence.starts, Bool.eq_false_iff, Ne, List.isPrefixOf_iff_prefix]
    exact h.fence f
  simp [Fence.opening?, hstarts]

lemma ShellLine.isComment_eq {l : Text} (h : ShellLine l) : Source.isComment l = false := by
  obtain ⟨c, hc, hhash, -⟩ := h.content
  simp [Source.isComment, hc, hhash]

/-- What was found, `k` lines further down. -/
def Located.shifted {α : Type} (k : Nat) (x : Located α) : Located α := ⟨k + x.line, x.value⟩

namespace Source

/-- A numbered line, `k` lines further down. -/
def shiftLine (k : Nat) (p : Nat × Text) : Nat × Text := (k + p.1, p.2)

lemma countFrom_shift (k n : Nat) (ls : List Text) :
    countFrom (k + n) ls = (countFrom n ls).map (shiftLine k) := by
  induction ls generalizing n with
  | nil => rfl
  | cons l ls ih =>
    rw [countFrom_cons, countFrom_cons, List.map_cons, Nat.add_assoc, ih]
    rfl

variable {shell : List Text} {t : Text}

lemma shellLine_map_dropReturn (hs : ∀ l ∈ shell, ShellLine l) :
    ∀ l ∈ shell.map dropReturn, ShellLine l := by
  intro l hl
  obtain ⟨m, hm, rfl⟩ := List.mem_map.mp hl
  exact (hs m hm).dropReturn

/-! ### The lines of the text -/

lemma numbered_shell (hs : ∀ l ∈ shell, ShellLine l) (t : Text) :
    (ofText (unlines shell ++ t)).numbered
      = countFrom 1 (shell.map dropReturn) ++ (ofText t).numbered.map (shiftLine shell.length) := by
  rw [numbered_eq, numbered_eq, lines_unlines_append fun l hl => (hs l hl).newline,
    countFrom_append, List.length_map, Nat.add_comm, countFrom_shift]

/-- The lines from a line of the text on. -/
lemma linesFrom_shell (hs : ∀ l ∈ shell, ShellLine l) (t : Text) {n : Nat} (hn : 1 ≤ n) :
    (ofText (unlines shell ++ t)).linesFrom (shell.length + n)
      = ((ofText t).linesFrom n).map (shiftLine shell.length) := by
  have hdrop : shell.length + n - 1 = (countFrom 1 (shell.map dropReturn)).length + (n - 1) := by
    rw [length_countFrom, List.length_map]
    omega
  rw [linesFrom, linesFrom, numbered_shell hs, hdrop, List.drop_length_add_append, List.map_drop]

/-- A line of the text. -/
lemma line?_shell (hs : ∀ l ∈ shell, ShellLine l) (t : Text) (n : Nat) :
    (ofText (unlines shell ++ t)).line? (shell.length + (n + 1)) = (ofText t).line? (n + 1) := by
  change (ofText (unlines shell ++ t)).lines[shell.length + n]? = (ofText t).lines[n]?
  rw [lines_unlines_append fun l hl => (hs l hl).newline, List.getElem?_append_right (by simp)]
  simp

/-- An offset of the text. -/
lemma lineOf_shell (hs : ∀ l ∈ shell, ShellLine l) (ht : t ≠ []) (o : Nat) :
    (ofText (unlines shell ++ t)).lineOf (byteLength (unlines shell) + o)
      = shell.length + (ofText t).lineOf o :=
  lineOf_unlines_append (fun l hl => (hs l hl).newline) ht o

/-! ### The scans -/

lemma keywordLine_shell (hs : ∀ l ∈ shell, ShellLine l) (t : Text) {n : Nat} (hn : 1 ≤ n) :
    (ofText (unlines shell ++ t)).keywordLine (shell.length + n)
      = shell.length + (ofText t).keywordLine n := by
  have hfind : ((ofText (unlines shell ++ t)).linesFrom (shell.length + n)).find?
        (fun p => !isMarker p.2)
      = (((ofText t).linesFrom n).find? fun p => !isMarker p.2).map (shiftLine shell.length) := by
    rw [linesFrom_shell hs t hn, List.find?_map]
    rfl
  simp only [keywordLine, hfind]
  cases ((ofText t).linesFrom n).find? fun p => !isMarker p.2 <;> rfl

/-- The search for tags stops at the last line of the shell, which may not stand above a keyword. -/
lemma tagsUpFrom_shell_length (hs : ∀ l ∈ shell, ShellLine l) (t : Text) :
    (ofText (unlines shell ++ t)).tagsUpFrom shell.length = [] := by
  rcases List.eq_nil_or_concat shell with rfl | ⟨init, l, rfl⟩
  · rfl
  · rw [List.concat_eq_append] at hs ⊢
    have hl : (ofText (unlines (init ++ [l]) ++ t)).line? (init.length + 1)
        = some (dropReturn l) := by
      rw [line?, lines_unlines_append fun m hm => (hs m hm).newline]
      simp
    have hmarker : isMarker (dropReturn l) = false := (hs l (by simp)).dropReturn.isMarker_eq
    rw [List.length_append, List.length_singleton, tagsUpFrom, hl]
    simp [hmarker]

/-- The search for tags goes up to the shell and not into it. -/
lemma tagsUpFrom_shell (hs : ∀ l ∈ shell, ShellLine l) (t : Text) (n : Nat) :
    (ofText (unlines shell ++ t)).tagsUpFrom (shell.length + n)
      = ((ofText t).tagsUpFrom n).map (Located.shifted shell.length) := by
  induction n with
  | zero => exact tagsUpFrom_shell_length hs t
  | succ n ih =>
    rw [← Nat.add_assoc, tagsUpFrom, Nat.add_assoc, line?_shell hs, ih, tagsUpFrom]
    cases (ofText t).line? (n + 1) with
    | none => rfl
    | some l =>
      dsimp only
      split
      · rw [List.map_append, List.map_map]
        rfl
      · rfl

lemma tagsAbove_shell (hs : ∀ l ∈ shell, ShellLine l) (t : Text) {n : Nat} (hn : 1 ≤ n) :
    (ofText (unlines shell ++ t)).tagsAbove (shell.length + n)
      = ((ofText t).tagsAbove n).map (Located.shifted shell.length) := by
  rw [tagsAbove, tagsAbove, Nat.add_sub_assoc hn, tagsUpFrom_shell hs]

lemma take?_shifted (k : Nat) (name : Text) (ts : List (Located Text)) :
    take? name (ts.map (Located.shifted k))
      = (take? name ts).map fun p => (k + p.1, p.2.map (Located.shifted k)) := by
  induction ts with
  | nil => rfl
  | cons t ts ih =>
    rw [List.map_cons, take?, take?, ih]
    change (if t.value = name then _ else _) = _
    split
    · rfl
    · rw [Option.map_map, Option.map_map]
      rfl

lemma assign_shifted (k : Nat) (names : List Text) (ts : List (Located Text)) :
    assign names (ts.map (Located.shifted k)) = (assign names ts).map (Option.map (k + ·)) := by
  induction names generalizing ts with
  | nil => rfl
  | cons name names ih =>
    rw [assign, assign, take?_shifted]
    cases take? name ts with
    | none => exact congrArg _ (ih ts)
    | some p => exact congrArg _ (ih p.2)

lemma rowsFrom?_shifted (k c : Nat) (ls : List (Nat × Text)) :
    rowsFrom? c (ls.map (shiftLine k)) = (rowsFrom? c ls).map (List.map (Located.shifted k)) := by
  fun_induction rowsFrom? c ls with
  | case1 => simp [rowsFrom?]
  | case2 => rfl
  | case3 c n l ls hskip ih => rw [List.map_cons, shiftLine, rowsFrom?, if_pos hskip, ih]
  | case4 c n l ls hskip cells hcells ih =>
    rw [List.map_cons, shiftLine, rowsFrom?, if_neg hskip, ih]
    simp only [hcells, Option.map_map]
    rfl
  | case5 c n l ls hskip hcells => simp [shiftLine, rowsFrom?, hskip, hcells]

lemma rows?_shell (hs : ∀ l ∈ shell, ShellLine l) (t : Text) {n : Nat} (hn : 1 ≤ n) (c : Nat) :
    (ofText (unlines shell ++ t)).rows? (shell.length + n) c
      = ((ofText t).rows? n c).map (List.map (Located.shifted shell.length)) := by
  rw [rows?, rows?, linesFrom_shell hs t hn, rowsFrom?_shifted]

lemma docString?_shell (hs : ∀ l ∈ shell, ShellLine l) (t : Text) (n : Nat) :
    (ofText (unlines shell ++ t)).docString? (shell.length + n)
      = ((ofText t).docString? n).map (Located.shifted shell.length) := by
  have hskip : ((ofText (unlines shell ++ t)).linesFrom (shell.length + n + 1)).dropWhile
        (fun p => isSkipped p.2)
      = (((ofText t).linesFrom (n + 1)).dropWhile fun p => isSkipped p.2).map
          (shiftLine shell.length) := by
    rw [Nat.add_assoc, linesFrom_shell hs t (Nat.le_add_left 1 n), List.dropWhile_map]
    rfl
  simp only [docString?, hskip]
  cases ((ofText t).linesFrom (n + 1)).dropWhile fun p => isSkipped p.2 with
  | nil => rfl
  | cons p ls =>
    have hsnd : (ls.map (shiftLine shell.length)).map Prod.snd = ls.map Prod.snd := by
      rw [List.map_map]
      rfl
    simp only [List.map_cons, shiftLine, hsnd, Option.bind_eq_bind, Option.map_bind,
      Function.comp_def]
    rfl

lemma commentsFrom_shifted (k : Nat) (o : Option Fence) (ls : List (Nat × Text)) :
    commentsFrom o (ls.map (shiftLine k)) = (commentsFrom o ls).map (Located.shifted k) := by
  fun_induction commentsFrom o ls with
  | case1 => simp [commentsFrom]
  | case2 f n l ls ih => rw [List.map_cons, shiftLine, commentsFrom, ih]
  | case3 n l ls f hf ih => simp [shiftLine, commentsFrom, hf, ih]
  | case4 n l ls hf hc ih => simp [shiftLine, commentsFrom, hf, hc, ih, Located.shifted]
  | case5 n l ls hf hc ih => simp [shiftLine, commentsFrom, hf, hc, ih]

/-- The search for comments finds none in the shell, and leaves it with no fence open. -/
lemma commentsFrom_shell (hs : ∀ l ∈ shell, ShellLine l) (n : Nat) (ls : List (Nat × Text)) :
    commentsFrom none (countFrom n shell ++ ls) = commentsFrom none ls := by
  induction shell generalizing n with
  | nil => rfl
  | cons l shell ih =>
    have hl := hs l (by simp)
    rw [countFrom_cons, List.cons_append, commentsFrom, hl.opening?_eq, hl.isComment_eq]
    exact ih (fun m hm => hs m (by simp [hm])) (n + 1)

lemma comments_shell (hs : ∀ l ∈ shell, ShellLine l) (t : Text) :
    (ofText (unlines shell ++ t)).comments
      = (ofText t).comments.map (Located.shifted shell.length) := by
  rw [comments, comments, numbered_shell hs, commentsFrom_shell (shellLine_map_dropReturn hs),
    commentsFrom_shifted]

end Source

end FeatureTree
