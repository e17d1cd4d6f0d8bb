import Mathlib.Data.List.Forall2
import FeatureTree.Proofs.Text.Prose

/-!
What normalising a description keeps.

Normalising moves lines: all that have content go left by the same number of blanks, those that have
none become empty, and the ones without content around the others are left out. So the lines keep
their content, their order and their distances, and a description is normalised to what it was
wherever it was rendered.
-/

namespace FeatureTree.Text

/-- The lines that have content. -/
def contentLines (t : Text) : List Text := (lines t).filter (! isBlankText ·)

/-- The lines from the first that has content to the last. -/
def innerLines (t : Text) : List Text :=
  (((lines t).dropWhile isBlankText).reverse.dropWhile isBlankText).reverse

/-- How much further right the line with content at `i` starts than the one at `j`. -/
def offsetBetween (t : Text) (i j : Nat) : Option Int := do
  let a ← (contentLines t)[i]?
  let b ← (contentLines t)[j]?
  return (indentation a : Int) - indentation b

/-! ### A line that is moved left -/

/-- A line without blanks at its end and without its first `w` blanks. -/
def moveLeft (w : Nat) (l : Text) : Text := stripIndent w (trimEnd l)

lemma isBlankText_iff_trim {l : Text} : isBlankText l = true ↔ trim l = [] := by
  rw [← List.head?_eq_none_iff, head?_trim, List.head?_eq_none_iff, trimStart_eq_nil_iff,
    isBlankText, List.all_eq_true]

lemma indentation_blanks_append {s : Text} (hs : ∀ c ∈ s, isBlank c = true) (t : Text) :
    indentation (s ++ t) = s.length + indentation t := by
  rw [indentation, List.takeWhile_append_of_pos hs, List.length_append, indentation]

lemma exists_blanks_stripIndent (w : Nat) (l : Text) :
    ∃ s, l = s ++ stripIndent w l ∧ (∀ c ∈ s, isBlank c = true)
      ∧ (w ≤ indentation l → s.length = w) := by
  induction w generalizing l with
  | zero => exact ⟨[], by simp [stripIndent], by simp, fun _ => rfl⟩
  | succ w ih =>
    rcases l with _ | ⟨c, l⟩
    · exact ⟨[], by simp, by simp, by simp [indentation]⟩
    · by_cases hc : isBlank c = true
      · obtain ⟨s, hl, hs, hlen⟩ := ih l
        rw [stripIndent, if_pos hc]
        refine ⟨c :: s, by rw [List.cons_append, ← hl], by simpa [hc] using hs, fun hw => ?_⟩
        rw [List.length_cons, hlen (by simpa [indentation, hc] using hw)]
      · rw [stripIndent, if_neg hc]
        exact ⟨[], rfl, by simp, by simp [indentation, hc]⟩

lemma trim_moveLeft (w : Nat) (l : Text) : trim (moveLeft w l) = trim l := by
  obtain ⟨u, hl, hu⟩ := exists_blanks_trimEnd l
  obtain ⟨s, hs, hblank, -⟩ := exists_blanks_stripIndent w (trimEnd l)
  conv_rhs => rw [hl, hs]
  exact (trim_between_blanks _ hblank hu).symm

lemma isBlankText_moveLeft (w : Nat) (l : Text) : isBlankText (moveLeft w l) = isBlankText l := by
  rw [Bool.eq_iff_iff, isBlankText_iff_trim, isBlankText_iff_trim, trim_moveLeft]

/-- Only a line without content becomes empty. -/
lemma moveLeft_eq_nil_iff {w : Nat} {l : Text} : moveLeft w l = [] ↔ isBlankText l = true := by
  rw [← isBlankText_moveLeft w l]
  refine ⟨fun h => by rw [h]; rfl, eq_nil_of_trimEnd_of_isBlankText ?_⟩
  exact trimEnd_stripIndent w (trimEnd_trimEnd l)

lemma indentation_trimEnd {l : Text} (hl : isBlankText l = false) :
    indentation (trimEnd l) = indentation l := by
  obtain ⟨u, hu, -⟩ := exists_blanks_trimEnd l
  conv_rhs => rw [hu]
  rw [indentation, indentation, List.takeWhile_append]
  split
  · -- then all of the line would be blanks
    rename_i hall
    have htake := List.IsPrefix.eq_of_length (List.takeWhile_prefix isBlank) hall
    have hblank : isBlankText (trimEnd l) = true :=
      List.all_eq_true.mpr fun c hc => List.mem_takeWhile_imp (htake ▸ hc)
    have hnil := eq_nil_of_trimEnd_of_isBlankText (trimEnd_trimEnd l) hblank
    simp [trimEnd_eq_nil_iff.mp hnil] at hl
  · rfl

lemma indentation_moveLeft {w : Nat} {l : Text} (hl : isBlankText l = false)
    (hw : w ≤ indentation l) : indentation (moveLeft w l) + w = indentation l := by
  obtain ⟨s, hs, hblank, hlen⟩ := exists_blanks_stripIndent w (trimEnd l)
  have hin := indentation_trimEnd hl
  have hwidth : s.length = w := hlen (by omega)
  rw [hs, indentation_blanks_append hblank, hwidth] at hin
  rw [moveLeft]
  omega

/-! ### The lines of a normalised text -/

lemma filter_dropWhile_not {α : Type} (p : α → Bool) (ls : List α) :
    (ls.dropWhile p).filter (! p ·) = ls.filter (! p ·) := by
  induction ls with
  | nil => rfl
  | cons l ls ih => by_cases h : p l = true <;> simp [h, ih]

/-- No line with content is an outer one. -/
lemma filter_innerLines (t : Text) : (innerLines t).filter (! isBlankText ·) = contentLines t := by
  rw [innerLines, List.filter_reverse, filter_dropWhile_not, List.filter_reverse,
    List.reverse_reverse, filter_dropWhile_not, contentLines]

/-- **Normalising moves the inner lines left**, all by a width that every line with content has. -/
lemma exists_moveLeft (t : Text) :
    ∃ w, (∀ l ∈ contentLines t, w ≤ indentation l)
      ∧ lines (normalise t) = (innerLines t).map (moveLeft w) := by
  set ms := (lines t).map trimEnd with hms
  refine ⟨commonIndent ms, fun l hl => ?_, ?_⟩
  · obtain ⟨hmem, hb⟩ := List.mem_filter.mp hl
    have hb : isBlankText l = false := by simpa using hb
    rw [← indentation_trimEnd hb]
    refine commonIndent_le (List.mem_map_of_mem hmem) fun hnil => ?_
    simp [trimEnd_eq_nil_iff.mp hnil] at hb
  · have hempty : List.isEmpty ∘ moveLeft (commonIndent ms) = isBlankText := by
      funext l
      rw [Function.comp_apply, Bool.eq_iff_iff, List.isEmpty_iff, moveLeft_eq_nil_iff]
    have hmap : ms.map (stripIndent (commonIndent ms))
        = (lines t).map (moveLeft (commonIndent ms)) := by
      rw [hms, List.map_map]
      rfl
    rw [normalise_eq, (prose_relaid t).lines_joinLines, ← hms, relaid, hmap, dropOuterEmpty,
      List.dropWhile_map, ← List.map_reverse, List.dropWhile_map, ← List.map_reverse, hempty,
      innerLines]

lemma contentLines_normalise {t : Text} {w : Nat}
    (h : lines (normalise t) = (innerLines t).map (moveLeft w)) :
    contentLines (normalise t) = (contentLines t).map (moveLeft w) := by
  have hblank : (! isBlankText ·) ∘ moveLeft w = (! isBlankText ·) := by
    funext l
    rw [Function.comp_apply, isBlankText_moveLeft]
  rw [contentLines, h, List.filter_map, hblank, filter_innerLines]

/-- A width that all lines lose makes no difference between two of them. -/
lemma offsetBetween_normalise {t : Text} {w : Nat} (hw : ∀ l ∈ contentLines t, w ≤ indentation l)
    (h : contentLines (normalise t) = (contentLines t).map (moveLeft w)) (i j : Nat) :
    offsetBetween (normalise t) i j = offsetBetween t i j := by
  have hmoved : ∀ l ∈ contentLines t, indentation (moveLeft w l) + w = indentation l := fun l hl =>
    indentation_moveLeft (by simpa using (List.mem_filter.mp hl).2) (hw l hl)
  rw [offsetBetween, offsetBetween, h, List.getElem?_map, List.getElem?_map]
  rcases hi : (contentLines t)[i]? with _ | a
  · rfl
  · rcases hj : (contentLines t)[j]? with _ | b
    · rfl
    · have ha := hmoved a (List.mem_of_getElem? hi)
      have hb := hmoved b (List.mem_of_getElem? hj)
      change some _ = some _
      congr 1
      omega

/-- **Normalising a description loses nothing but layout, and does so once.** The lines with content
keep their content and their distances, those without content between them are kept as empty lines,
and whatever the normalised text is indented by, and whatever blank lines are put around it, it is
normalised to itself. -/
theorem normalise_keeps (t : Text) :
    (contentLines (normalise t)).map trim = (contentLines t).map trim
      ∧ (∀ i j, offsetBetween (normalise t) i j = offsetBetween t i j)
      ∧ List.Forall₂ (fun l m => trim m = trim l ∧ (m = [] ↔ isBlankText l = true))
        (innerLines t) (lines (normalise t))
      ∧ (∀ (k : Nat) (before after : List Text),
        (∀ l ∈ before ++ after, isBlankText l = true ∧ '\n' ∉ l) →
          normalise (joinLines (before ++ indent k (lines (normalise t)) ++ after)) = normalise t)
      ∧ normalise (normalise t) = normalise t := by
  obtain ⟨w, hw, hlines⟩ := exists_moveLeft t
  obtain ⟨ls, hls, hprose⟩ := exists_prose t
  have hcontent := contentLines_normalise hlines
  refine ⟨?_, offsetBetween_normalise hw hcontent, ?_, fun k before after houter => ?_, ?_⟩
  · rw [hcontent, List.map_map]
    exact List.map_congr_left fun l _ => trim_moveLeft w l
  · rw [hlines, List.forall₂_map_right_iff, List.forall₂_same]
    exact fun l _ => ⟨trim_moveLeft w l, moveLeft_eq_nil_iff⟩
  · rw [hls, hprose.lines_joinLines]
    exact hprose.normalise_placed k (fun l hl => houter l (List.mem_append_left _ hl))
      fun l hl => houter l (List.mem_append_right _ hl)
  · rw [hls, hprose.normalise_joinLines]

/-- A tab counts as one blank, the blank line between the others is shorter than what they share,
and the lines around them are blanks of other kinds. -/
theorem normalise_keeps_tabs :
    let t := "\u3000\n\t  one \n \n\t   two\r\n\t".toList
    let outer : List Text := ["\t\r".toList, "  ".toList]
    normalise t = "one\n\n two".toList
      ∧ (∀ l ∈ outer ++ outer, isBlankText l = true ∧ '\n' ∉ l)
      ∧ joinLines (outer ++ indent 2 (lines (normalise t)) ++ outer)
        = "\t\r\n  \n    one\n\n     two\n\t\r\n  ".toList
      ∧ normalise (joinLines (outer ++ indent 2 (lines (normalise t)) ++ outer)) = normalise t := by
  intro t outer
  have houter : ∀ l ∈ outer ++ outer, isBlankText l = true ∧ '\n' ∉ l := by decide
  exact ⟨by decide +kernel, houter, by decide +kernel,
    (normalise_keeps t).2.2.2.1 2 outer outer houter⟩

end FeatureTree.Text
