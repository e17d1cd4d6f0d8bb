import FeatureTree.Proofs.RoundTrip.Start

/-!
Rendering is a fixpoint of reading.

A feature that was read from an English text is read again from its own text, if all its parts are
faithful: what is read says the same, is rendered alike and is the same feature.
-/

namespace FeatureTree

open Text

namespace RoundTrip

open Grammar

variable {f : Feature}

/-- The text of a feature starts with a tag or with its keyword. -/
lemma begins_feature (hw : f.WellRead) : Begins f.lines := by
  obtain ⟨l, ls, hlines, hshown, w, hmem, hprefix⟩ :=
    exists_header_line [] 0 hw.tags leading_feature hw.head "Feature".toList
  have hword : ∃ c u, w.toList = c :: u ∧ isBlank c = false ∧ c ≠ '#' := by
    rcases List.mem_cons.mp hmem with rfl | hmem
    · exact ⟨'@', [], rfl, by decide, by decide⟩
    · obtain ⟨c, u, hu, hb, hc, -⟩ :=
        exists_of_isLead (leading_feature _ (List.mem_map_of_mem hmem)).1
      exact ⟨c, u, hu, hb, hc⟩
  obtain ⟨c, u, hu, hb, hc⟩ := hword
  obtain ⟨v, rfl⟩ := hprefix
  rw [hu, List.cons_append] at hlines hshown
  refine ⟨c, u ++ v, ls ++ (backgroundLines f.background ++ f.tests.flatMap (testAt 1)), ?_, hb, hc,
    hshown⟩
  rw [lines_feature, ← indent_zero (Render.header _ _ _ _ _), hlines, indentLine_zero, List.cons_append]

/-- **A rendered feature is read again**, and says what it said. -/
lemma read_render (hw : f.WellRead) (hf : f.Faithful) :
    ∃ f', Fragment.read .feature .english (Node.render (.feature f)) = .ok (.feature f')
      ∧ f'.relined nowhere = f.relined nowhere := by
  have hbegins := begins_feature hw
  have hwritten := written_feature hw hf
  have htext : (Node.render (.feature f)).terminated = unlines f.lines := by
    obtain ⟨c, r, ls, hlines, -⟩ := hbegins
    exact hwritten.terminated (by simp [hlines])
  obtain ⟨f', hsaid, hread⟩ := hbegins.read hwritten.newline (k := .feature) htext
    fun s hat hlang hlast => feature_run hw hf hat hlang hlast
  exact ⟨f', hread _ rfl, hsaid⟩

end RoundTrip

namespace Fragment

/-- **Rendering is a fixpoint.** A faithful feature that was read from an English text can be read
from its own text; what is read then has the same text and is the same feature. -/
theorem render_fixpoint {t : Text} {f : Feature} (ht : ¬ Dialect.HasHeader t)
    (h : Fragment.read .feature .english t = .ok (.feature f)) (hf : f.Faithful) :
    ∃ f', Fragment.read .feature .english (Node.render (.feature f)) = .ok (.feature f')
      ∧ Node.render (.feature f') = Node.render (.feature f)
      ∧ Node.same (.feature f') (.feature f) = true := by
  obtain ⟨f', hread, hsaid⟩ := RoundTrip.read_render (wellRead_of_read ht h) hf
  exact ⟨f', hread, Feature.alike_of_relined _ hsaid⟩

/-- Whether an English text is read as a feature with a property. -/
def holds (p : Feature → Bool) (t : Text) : Bool :=
  match Fragment.read .feature .english t with
  | .ok (.feature f) => p f
  | _ => false

lemma exists_of_holds {p : Feature → Bool} {t : Text} (h : holds p t = true) :
    ∃ f, Fragment.read .feature .english t = .ok (.feature f) ∧ p f = true := by
  rw [holds] at h
  split at h
  · rename_i f hf
    exact ⟨f, hf, h⟩
  · simp at h

/-- A tag, and a row whose pipe is escaped. -/
theorem render_fixpoint_row :
    let t := "@a\nFeature: x\nScenario: s\n* b\n|p\\|q|".toList
    ∃ f, ¬ Dialect.HasHeader t ∧ Fragment.read .feature .english t = .ok (.feature f) ∧ f.Faithful
      ∧ ∃ f', Fragment.read .feature .english (Node.render (.feature f)) = .ok (.feature f')
        ∧ Node.render (.feature f') = Node.render (.feature f)
        ∧ Node.same (.feature f') (.feature f) = true := by
  intro t
  have ht : ¬ Dialect.HasHeader t := by
    have hnone : (contents t).takeWhile (·.head? == some '#') = [] := by decide
    rintro ⟨l, hl, -⟩
    rw [hnone] at hl
    exact List.not_mem_nil hl
  obtain ⟨f, h, hf⟩ := exists_of_holds (p := fun f => decide f.Faithful) (t := t) (by decide +kernel)
  exact ⟨f, ht, h, of_decide_eq_true hf, render_fixpoint ht h (of_decide_eq_true hf)⟩

/-- A blank that is no space hides a keyword in a description, and normalising takes the blank
away. -/
theorem render_not_fixpoint :
    ∃ f f', Fragment.read .feature .english "Feature: x\n\u3000Scenario: s".toList = .ok (.feature f)
      ∧ Fragment.read .feature .english (Node.render (.feature f)) = .ok (.feature f')
      ∧ Node.render (.feature f') ≠ Node.render (.feature f)
      ∧ Node.same (.feature f') (.feature f) = false := by
  obtain ⟨f, h, hf⟩ := exists_of_holds (t := "Feature: x\n\u3000Scenario: s".toList)
    (p := fun f => holds (fun f' => Node.render (.feature f') != Node.render (.feature f)
      && !Node.same (.feature f') (.feature f)) (Node.render (.feature f))) (by decide +kernel)
  obtain ⟨f', h', hf'⟩ := exists_of_holds hf
  simp only [Bool.and_eq_true, bne_iff_ne, Bool.not_eq_true'] at hf'
  exact ⟨f, f', h, h', hf'⟩

end Fragment

end FeatureTree
