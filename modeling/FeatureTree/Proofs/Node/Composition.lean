import FeatureTree.Node.Edit
import FeatureTree.Proofs.Node.RowHistory
import FeatureTree.Proofs.Text.Lines

/-!
The text of a feature is composed of the texts of its parts.

A parent puts lines of its own before and after the lines of a child, and moves these right; what it
puts there never depends on what the child says. So whatever is put at the place of a step or of
examples, all other lines of the feature stay as they are.
-/

namespace FeatureTree

open Text

/-! ### Lines around a part -/

namespace Render

/-- The lines of a whole are those of its part, between lines that do not depend on the part. -/
def Encloses {α : Type} (whole part : α → List Text) : Prop :=
  ∃ before after, ∀ x, whole x = before ++ part x ++ after

namespace Encloses

variable {α β : Type} {whole middle part : α → List Text}

lemma trans (h : Encloses whole middle) (h' : Encloses middle part) : Encloses whole part := by
  obtain ⟨b, a, hwhole⟩ := h
  obtain ⟨b', a', hmiddle⟩ := h'
  refine ⟨b ++ b', a' ++ a, fun x => ?_⟩
  rw [hwhole, hmiddle]
  simp only [List.append_assoc]

/-- What is put as a part may itself be made from another part. -/
lemma comp (h : Encloses whole part) (g : β → α) :
    Encloses (fun x => whole (g x)) fun x => part (g x) := by
  obtain ⟨b, a, hwhole⟩ := h
  exact ⟨b, a, fun x => hwhole (g x)⟩

lemma below (ls : List Text) (h : Encloses whole part) : Encloses (fun x => ls ++ whole x) part := by
  obtain ⟨b, a, hwhole⟩ := h
  refine ⟨ls ++ b, a, fun x => ?_⟩
  simp only [hwhole, List.append_assoc]

lemma above (h : Encloses whole part) (ls : List Text) : Encloses (fun x => whole x ++ ls) part := by
  obtain ⟨b, a, hwhole⟩ := h
  refine ⟨b, a ++ ls, fun x => ?_⟩
  simp only [hwhole, List.append_assoc]

/-- Moving the whole right moves its part right. -/
lemma indent (k : Nat) (h : Encloses whole part) :
    Encloses (fun x => Text.indent k (whole x)) fun x => Text.indent k (part x) := by
  obtain ⟨b, a, hwhole⟩ := h
  refine ⟨Text.indent k b, Text.indent k a, fun x => ?_⟩
  simp only [hwhole, indent_append]

/-- One of many children. -/
lemma flatMap_set (lines : α → List Text) {xs : List α} {i : Nat} (hi : i < xs.length) :
    Encloses (fun x => (xs.set i x).flatMap lines) lines := by
  refine ⟨(xs.take i).flatMap lines, (xs.drop (i + 1)).flatMap lines, fun x => ?_⟩
  simp only [List.set_eq_take_append_cons_drop, if_pos hi, List.flatMap_append, List.flatMap_cons,
    List.append_assoc]

end Encloses

/-- The empty line between a description and the body depends on the description alone, as long as
there is a body. -/
lemma encloses_body {α : Type} (description : Text) {ls : α → List Text} (h : ∀ x, ls x ≠ []) :
    Encloses (fun x => body description (ls x)) fun x => Text.indent 1 (ls x) := by
  refine ⟨if description.isEmpty then [] else [[]], [], fun x => ?_⟩
  have hne : (ls x).isEmpty = false := by simpa using h x
  simp only [body, hne, List.append_nil]
  rfl

end Render

open Render

/-! ### Steps -/

lemma Step.lines_ne_nil (s : Step) : s.lines ≠ [] := by simp [Step.lines]

/-- The lines of a step stand one level right in the body of the steps. -/
lemma Step.encloses_body (description : Text) {ss : List Step} {i : Nat} (hi : i < ss.length) :
    Encloses (fun s => body description ((ss.set i s).flatMap Step.lines))
      fun s => Text.indent 1 s.lines := by
  have hset := Encloses.flatMap_set Step.lines hi
  refine (Render.encloses_body description fun s => ?_).trans (hset.indent 1)
  obtain ⟨before, after, hlines⟩ := hset
  simp [hlines, s.lines_ne_nil]

/-- The background with another step at position `i`. -/
def Background.putStep (b : Background) (i : Nat) (s : Step) : Background :=
  { b with steps := b.steps.set i s }

/-- The test with another step at position `i`. -/
def Test.putStep (i : Nat) (s : Step) : Test → Test
  | .scenario c => .scenario { c with steps := c.steps.set i s }
  | .outline o => .outline { o with steps := o.steps.set i s }

lemma Background.encloses_step (b : Background) {i : Nat} (hi : i < b.steps.length) :
    Encloses (fun s => (b.putStep i s).lines) fun s => Text.indent 1 s.lines := by
  simp only [Background.lines, Background.putStep]
  exact (Step.encloses_body b.description hi).below _

lemma Test.encloses_step (t : Test) {i : Nat} (hi : i < t.steps.length) :
    Encloses (fun s => (t.putStep i s).lines) fun s => Text.indent 1 s.lines := by
  cases t with
  | scenario c =>
    simp only [Test.lines, Test.putStep, Scenario.lines]
    exact (Step.encloses_body c.description hi).below _
  | outline o =>
    simp only [Test.lines, Test.putStep, Outline.lines]
    exact ((Step.encloses_body o.description hi).below _).above _

/-! ### Examples -/

/-- Examples stand as far left as their outline, each below an empty line. -/
lemma Test.encloses_examples (o : Outline) {e : Nat} (he : e < o.examples.length) :
    Encloses (fun x => (Test.putExamples e x (.outline o)).lines) Examples.lines := by
  simp only [Test.lines, Test.putExamples, Outline.putExamples, Outline.lines]
  refine ((Encloses.flatMap_set (fun x => [] :: x.lines) he).below _).trans ⟨[[]], [], fun x => ?_⟩
  rw [List.append_nil, List.singleton_append]

/-! ### Features -/

namespace Feature

/-- The feature with another step at position `i` of its background. -/
def putBackgroundStep (f : Feature) (i : Nat) (s : Step) : Feature :=
  { f with background := f.background.map (·.putStep i s) }

/-- The feature with another step at position `i` of the test at position `t`. -/
def putTestStep (f : Feature) (t i : Nat) (s : Step) : Feature :=
  { f with tests := f.tests.modify t (Test.putStep i s) }

/-- A child of a feature stands one level right, below an empty line. -/
def childLines (ls : List Text) : List Text := [] :: Text.indent 1 ls

lemma encloses_childLines {α : Type} (ls : α → List Text) :
    Encloses (fun x => childLines (ls x)) fun x => Text.indent 1 (ls x) :=
  ⟨[[]], [], fun x => by rw [List.append_nil, List.singleton_append]; rfl⟩

lemma lines_eq (f : Feature) :
    f.lines = header f.tags f.keyword "Feature".toList f.name f.description
      ++ (f.background.toList.flatMap fun b => childLines b.lines)
      ++ f.tests.flatMap fun t => childLines t.lines := by
  rw [Feature.lines, List.flatMap_append, List.flatMap_map, List.flatMap_map, List.append_assoc]
  rfl

lemma encloses_background (f : Feature) :
    Encloses (fun b => Feature.lines { f with background := some b })
      fun b => Text.indent 1 b.lines := by
  simp only [lines_eq, Option.toList_some, List.flatMap_singleton]
  exact ((encloses_childLines Background.lines).below _).above _

lemma encloses_test (f : Feature) {t : Nat} (ht : t < f.tests.length) :
    Encloses (fun y => Feature.lines { f with tests := f.tests.set t y })
      fun y => Text.indent 1 y.lines := by
  simp only [lines_eq]
  exact ((Encloses.flatMap_set _ ht).below _).trans (encloses_childLines Test.lines)

lemma modify_tests {f : Feature} {t : Nat} {test : Test} (h : f.tests[t]? = some test)
    (g : Test → Test) : f.tests.modify t g = f.tests.set t (g test) := by
  rw [List.modify_eq_set, h]
  rfl

/-- A part of a test is a part of the feature, one level further right. -/
lemma encloses_in_test {α : Type} {f : Feature} {t : Nat} {test : Test}
    (h : f.tests[t]? = some test) {g : α → Test → Test} {part : α → List Text}
    (hg : Encloses (fun x => (g x test).lines) part) :
    Encloses (fun x => Feature.lines { f with tests := f.tests.modify t (g x) })
      fun x => Text.indent 1 (part x) := by
  simp only [modify_tests h]
  exact ((f.encloses_test (List.getElem?_eq_some_iff.mp h).1).comp fun x => g x test).trans
    (hg.indent 1)

lemma encloses_examples {f : Feature} {t e : Nat} {o : Outline}
    (ht : f.tests[t]? = some (.outline o)) (he : e < o.examples.length) :
    Encloses (fun x => (f.putExamples t e x).lines) fun x => Text.indent 1 x.lines :=
  encloses_in_test ht (Test.encloses_examples o he)

lemma encloses_testStep {f : Feature} {t i : Nat} {test : Test} (ht : f.tests[t]? = some test)
    (hi : i < test.steps.length) :
    Encloses (fun s => (f.putTestStep t i s).lines) fun s => Text.indent 2 s.lines := by
  have hwhole := encloses_in_test ht (test.encloses_step hi)
  simp only [indent_indent] at hwhole
  exact hwhole

lemma encloses_backgroundStep {f : Feature} {i : Nat} {b : Background} (hb : f.background = some b)
    (hi : i < b.steps.length) :
    Encloses (fun s => (f.putBackgroundStep i s).lines) fun s => Text.indent 2 s.lines := by
  have hwhole := (f.encloses_background.comp (b.putStep i)).trans ((b.encloses_step hi).indent 1)
  simp only [indent_indent] at hwhole
  simp only [putBackgroundStep, hb, Option.map_some]
  exact hwhole

end Feature

/-! ### Texts -/

namespace Text

lemma joinLines_append_of_ne_nil (ls : List Text) {ms : List Text} (h : ms ≠ []) :
    joinLines (ls ++ ms) = unlines ls ++ joinLines ms := by
  induction ls with
  | nil => rfl
  | cons l ls ih =>
    rw [List.cons_append, joinLines_cons _ (by simp [h]), ih, unlines_cons, List.append_assoc,
      List.cons_append]

lemma joinLines_of_ne_nil_append {ls : List Text} (h : ls ≠ []) (ms : List Text) :
    joinLines (ls ++ ms) = joinLines ls ++ ms.flatMap ('\n' :: ·) := by
  induction ms using List.reverseRecOn with
  | nil => simp
  | append_singleton ms m ih =>
    rw [← List.append_assoc, joinLines_concat, ← List.append_nil (unlines _),
      ← joinLines_append_newline (by simp [h]), ih]
    simp

/-- The text of lines that stand between others. -/
lemma joinLines_between (before after : List Text) {ls : List Text} (h : ls ≠ []) :
    joinLines (before ++ ls ++ after)
      = unlines before ++ joinLines ls ++ after.flatMap ('\n' :: ·) := by
  rw [joinLines_of_ne_nil_append (by simp [h]), joinLines_append_of_ne_nil before h]

end Text

namespace Examples

lemma lines_ne_nil (x : Examples) : x.lines ≠ [] := by simp [Examples.lines, header]

/-- Examples with the same head differ in their rows only. -/
lemma SameHead.eq {x y : Examples} (h : SameHead x y) : y = { x with rows := y.rows } := by
  cases y
  obtain ⟨-, rfl, rfl, rfl, rfl, rfl, rfl⟩ := h
  rfl

end Examples

namespace Feature

lemma examples?_eq_some {f : Feature} {t e : Nat} {x : Examples} (h : f.examples? t e = some x) :
    ∃ o, f.tests[t]? = some (.outline o) ∧ o.examples[e]? = some x := by
  unfold examples? at h
  split at h
  · rename_i o ho
    exact ⟨o, ho, h⟩
  · simp at h

/-- Putting examples where they are changes nothing. -/
lemma putExamples_self {f : Feature} {t e : Nat} {x : Examples} (h : f.examples? t e = some x) :
    f.putExamples t e x = f := by
  obtain ⟨o, ho, hx⟩ := examples?_eq_some h
  have hexamples : o.examples.set e x = o.examples := by
    obtain ⟨he, rfl⟩ := List.getElem?_eq_some_iff.mp hx
    exact List.set_getElem_self he
  have htests : f.tests.set t (.outline o) = f.tests := by
    obtain ⟨ht, hget⟩ := List.getElem?_eq_some_iff.mp ho
    rw [← hget]
    exact List.set_getElem_self ht
  rw [putExamples, modify_tests ho, Test.putExamples, Outline.putExamples, hexamples, htests]

/-- The text of a feature around its examples. -/
lemma exists_render_putExamples {f : Feature} {t e : Nat} {x : Examples}
    (h : f.examples? t e = some x) : ∃ before after : Text, ∀ y : Examples,
      (Node.feature (f.putExamples t e y)).render
        = before ++ joinLines (Text.indent 1 y.lines) ++ after := by
  obtain ⟨o, ho, he⟩ := examples?_eq_some h
  obtain ⟨before, after, hlines⟩ := encloses_examples ho (List.getElem?_eq_some_iff.mp he).1
  refine ⟨unlines before, after.flatMap ('\n' :: ·), fun y => ?_⟩
  have hy : Text.indent 1 y.lines ≠ [] := by simpa [Text.indent] using y.lines_ne_nil
  rw [← joinLines_between before after hy]
  exact congrArg joinLines (hlines y)

/-- **Rendering is compositional.** The lines of examples of an outline, one level right, and those
of a step of the background or of a test, two levels right, stand between lines that do not depend
on them. So whatever rows are added to examples and removed from them, the text of the feature
changes inside the lines of these examples only. -/
theorem lines_compositional (f : Feature) :
    (∀ t o e, f.tests[t]? = some (.outline o) → e < o.examples.length →
        ∃ before after, ∀ x : Examples,
          (f.putExamples t e x).lines = before ++ Text.indent 1 x.lines ++ after)
      ∧ (∀ b i, f.background = some b → i < b.steps.length →
        ∃ before after, ∀ s : Step,
          (f.putBackgroundStep i s).lines = before ++ Text.indent 2 s.lines ++ after)
      ∧ (∀ t test i, f.tests[t]? = some test → i < test.steps.length →
        ∃ before after, ∀ s : Step,
          (f.putTestStep t i s).lines = before ++ Text.indent 2 s.lines ++ after)
      ∧ ∀ t e x, f.examples? t e = some x → ∃ before after : Text,
        (Node.feature f).render = before ++ joinLines (Text.indent 1 x.lines) ++ after
        ∧ ∀ history : List RowCall, ∃ rows, x.calls history = { x with rows := rows }
          ∧ (Node.feature (f.putExamples t e (x.calls history))).render
            = before ++ joinLines (Text.indent 1 (x.calls history).lines) ++ after := by
  refine ⟨fun t o e ht he => encloses_examples ht he, fun b i hb hi => encloses_backgroundStep hb hi,
    fun t test i ht hi => encloses_testStep ht hi, fun t e x hx => ?_⟩
  obtain ⟨before, after, hrender⟩ := exists_render_putExamples hx
  refine ⟨before, after, ?_, fun history => ⟨_, (x.sameHead_calls history).eq, hrender _⟩⟩
  rw [← hrender x, putExamples_self hx]

/-- A wider row is added to the examples below a step, so that all their rows are written anew. -/
theorem lines_compositional_added :
    let x : Examples := ⟨none, "Examples".toList, [], [], [], [.ofValues ["n".toList]], none⟩
    let o : Outline := ⟨none, "Scenario Outline".toList, "s".toList, [], [],
      [⟨none, "Given".toList, "<n>".toList, none, none⟩], [x, x], none⟩
    let f : Feature := ⟨none, "Feature".toList, "f".toList, [], [], none, [.outline o], none⟩
    let y := x.calls [.add (.list ["10".toList])]
    f.examples? 0 0 = some x
      ∧ y.lines = ["Examples:".toList, "  | n  |".toList, "  | 10 |".toList]
      ∧ ∃ before after : Text,
        (Node.feature f).render = before ++ joinLines (Text.indent 1 x.lines) ++ after
        ∧ (Node.feature (f.putExamples 0 0 y)).render
          = before ++ joinLines (Text.indent 1 y.lines) ++ after := by
  intro x o f y
  obtain ⟨before, after, hx, hcalls⟩ := (lines_compositional f).2.2.2 0 0 x rfl
  obtain ⟨-, -, hy⟩ := hcalls [.add (.list ["10".toList])]
  exact ⟨rfl, by decide +kernel, before, after, hx, hy⟩

end Feature

end FeatureTree
