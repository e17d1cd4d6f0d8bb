import FeatureTree.Proofs.RoundTrip.Tests

/-!
The lines of a rendered feature are the lines of its text.

No line has a newline in it and the last one is not empty, so joining the lines and ending the text
with a newline gives a text of just these lines.
-/

namespace FeatureTree.RoundTrip

open Text Grammar Render

/-- Lines that are the lines of their text: none has a newline, and the last is not empty. -/
structure Written (ls : List Text) : Prop where
  newline : ∀ l ∈ ls, '\n' ∉ l
  last : ls.getLast? ≠ some []

namespace Written

variable {ls ms : List Text}

lemma ofForall (h : ∀ l ∈ ls, '\n' ∉ l ∧ l ≠ []) : Written ls :=
  ⟨fun l hl => (h l hl).1, fun hl => (h _ (List.mem_of_getLast? hl)).2 rfl⟩

lemma nil : Written [] := .ofForall (by simp)

lemma append (h : Written ls) (h' : Written ms) : Written (ls ++ ms) where
  newline l hl := (List.mem_append.mp hl).elim (h.newline l) (h'.newline l)
  last := by
    rw [List.getLast?_append]
    cases hm : ms.getLast? with
    | none => exact h.last
    | some m => simpa [hm] using h'.last

lemma cons {l : Text} (hn : '\n' ∉ l) (hne : l ≠ []) (h : Written ls) : Written (l :: ls) :=
  (ofForall (by simpa using ⟨hn, hne⟩) : Written [l]).append h

/-- An empty line may stand above other ones. -/
lemma below (h : Written ls) (hne : ls ≠ []) : Written ([] :: ls) where
  newline := by simpa using h.newline
  last := by
    rw [List.getLast?_cons, List.getLast?_eq_some_getLast hne, Option.getD_some]
    rw [← List.getLast?_eq_some_getLast hne]
    exact h.last

lemma indent (h : Written ls) (k : Nat) : Written (indent k ls) where
  newline l hl := by
    obtain ⟨m, hm, rfl⟩ := List.mem_map.mp hl
    exact newline_not_mem_indentLine k (h.newline m hm)
  last hl := by
    rw [Text.indent, List.getLast?_map] at hl
    obtain ⟨m, hm, hnil⟩ := Option.map_eq_some_iff.mp hl
    exact h.last (hm.trans (congrArg some (indentLine_eq_nil_iff.mp hnil)))

lemma flatMap {β : Type} {f : β → List Text} {bs : List β} (h : ∀ b ∈ bs, Written (f b)) :
    Written (bs.flatMap f) := by
  induction bs with
  | nil => exact .nil
  | cons b bs ih =>
    rw [List.flatMap_cons]
    exact (h b (by simp)).append (ih fun x hx => h x (by simp [hx]))

/-- The text of the lines, with the newline at its end. -/
lemma terminated (h : Written ls) (hne : ls ≠ []) : (joinLines ls).terminated = unlines ls := by
  obtain ⟨init, l, rfl⟩ := (List.eq_nil_or_concat ls).resolve_left hne
  rw [List.concat_eq_append] at h ⊢
  have hl : l ≠ [] := by
    rintro rfl
    exact h.last (by simp)
  have hlast : (joinLines (init ++ [l])).getLast? ≠ some '\n' := by
    rw [joinLines_concat, List.getLast?_append_of_ne_nil _ hl]
    exact fun hn => h.newline l (by simp) (List.mem_of_getLast? hn)
  rw [Text.terminated, if_neg hlast, joinLines_concat, unlines_append]
  simp

end Written

/-! ### Blocks and steps -/

lemma written_rows (rs : List Row) : Written (Table.linesOfRows rs) := by
  obtain ⟨width, hlines⟩ := Table.indent_linesOfRows rs 0
  rw [← indent_zero (Table.linesOfRows rs), hlines]
  refine .ofForall fun l hl => ?_
  obtain ⟨vs, -, rfl⟩ := List.mem_map.mp hl
  exact ⟨Table.newline_not_mem_rowLine _ _ _,
    fun hnil => Table.rowLine_ne_nil _ _ (indentLine_eq_nil_iff.mp hnil)⟩

lemma written_docString {d : DocString} (h : d.TypeFits) : Written d.lines where
  newline l hl := DocString.newline_not_mem_lines h hl
  last := by
    rw [DocString.lines_eq, ← List.cons_append, List.getLast?_concat]
    simp [Fence.mark]

lemma written_step {st : Step} (hw : st.WellRead) (ht : st.text ≠ []) : Written st.lines := by
  have hsolid := (shown_step [] 0 hw ht).solid
  rw [← indent_zero st.lines, lines_step hw ht, stepAt, indentLine_zero]
  refine .cons hsolid.newline hsolid.ne_nil ?_
  cases hb : st.block with
  | none => exact .nil
  | some b =>
    have hblock := hw.block b hb
    cases b with
    | table t => exact (written_rows t.rows).indent 1
    | docString d => exact (written_docString hblock).indent 1

/-! ### Headers and bodies -/

variable {ws : List String} {kw name description : Text} {ts : List Tag}

lemma written_tagLine (hts : ∀ t ∈ ts, t.WellRead) : Written (tagLine ts) := by
  obtain ⟨vs, hvs, hwords, -⟩ := exists_tagWords hts
  rw [tagLine]
  split
  · exact .nil
  · rename_i hne
    cases vs with
    | nil =>
      obtain rfl : ts = [] := by simpa using hvs
      simp at hne
    | cons v vs =>
      have hsolid := (shown_tags [] 0 hwords).solid
      rw [hvs, joinWith_tags]
      exact .cons hsolid.newline hsolid.ne_nil .nil

lemma written_descriptionLines (h : ∃ ls, description = joinLines ls ∧ Prose ls) :
    Written (descriptionLines description) := by
  obtain ⟨ls, rfl, hls⟩ := h
  rw [descriptionLines]
  split
  · exact .nil
  · rename_i hne
    have hnil : ls ≠ [] := by
      rintro rfl
      simp [joinLines] at hne
    rw [cutAt_joinLines hnil hls.newline]
    exact Written.below ⟨hls.newline, hls.getLast?_ne⟩ hnil

lemma written_header (hts : ∀ t ∈ ts, t.WellRead) (hws : Leading ws)
    (h : Headed ws kw name description) (default : Text) :
    Written (header ts kw default name description) := by
  have hsolid := (shown_keywordLine [] 0 hws h default).1.solid
  exact (written_tagLine hts).append
    (.cons hsolid.newline hsolid.ne_nil (written_descriptionLines h.description))

lemma header_ne_nil (ts : List Tag) (kw default name description : Text) :
    header ts kw default name description ≠ [] := by
  simp [header]

lemma written_body {ls : List Text} (h : Written ls) : Written (body description ls) := by
  rw [body]
  split
  · exact .nil
  · rename_i hne
    have hne : indent 1 ls ≠ [] := by simpa [Text.indent] using hne
    split
    · exact h.indent 1
    · exact (h.indent 1).below hne

lemma written_steps {sts : List Step} (hw : Step.Sequence sts) (ht : ∀ st ∈ sts, st.text ≠ []) :
    Written (sts.flatMap Step.lines) :=
  .flatMap fun st hst => written_step (hw.each st hst) (ht st hst)

/-! ### Sections -/

lemma written_background {b : Background} {o : Option Fence} (hw : b.WellRead)
    (hf : b.Faithful o) : Written b.lines :=
  (written_header (by simp) leading_background hw.head _).append
    (written_body (written_steps hw.steps (text_of_each hf.2)))

lemma written_examples {e : Examples} (hw : e.WellRead) : Written e.lines :=
  (written_header hw.tags leading_examples hw.head _).append (written_body (written_rows e.rows))

lemma written_test {t : Test} {o : Option Fence} (hw : t.WellRead) (hf : t.Faithful o) :
    Written t.lines := by
  obtain ⟨ts, kw, default, name, description, sts, es, hp, hlines, -⟩ := exists_parts hw hf
  rw [hlines, testLines]
  refine ((written_header hp.tags leading_tests hp.head default).append
    (written_body (written_steps hp.steps (text_of_each hp.faithful.2)))).append
    (.flatMap fun e he => ?_)
  refine (written_examples (hp.examples e he)).below ?_
  simp [Examples.lines, header_ne_nil]

end FeatureTree.RoundTrip
