import FeatureTree.Grammar.Rules
import FeatureTree.Proofs.Document.WellRead
import FeatureTree.Proofs.Grammar.Words

/-!
What the rules of the grammar rely on of the English keywords.

Each fact is looked up word by word, here and nowhere else.
-/

namespace FeatureTree.Grammar

open Text

/-! ### Lists of keywords -/

/-- The keywords of steps, in the order in which a step is tried with them. -/
def stepKeywords : List (Keywords → List String) :=
  [Keywords.stepGiven, Keywords.stepWhen, Keywords.stepThen, Keywords.stepAnd, Keywords.stepBut]

/-- The keywords that a colon and a name follow. -/
def headKeywords : List (Keywords → List String) :=
  [Keywords.feature, Keywords.background, Keywords.rule, Keywords.scenario, Keywords.outline,
    Keywords.examples]

/-- The words with which something can follow a table or a doc string. -/
def marks : List String := "@" :: Keywords.en.background ++ stepWords .en ++ Keywords.en.examples

/-- The words with which something can follow the steps of a section. -/
def sections : List String :=
  "@" :: Keywords.en.scenario ++ Keywords.en.outline ++ Keywords.en.examples

/-- The words that end a description or a block, whatever it belongs to. -/
def stops : List String :=
  "@" :: "|" :: Keywords.en.background ++ Keywords.en.rule ++ Keywords.en.examples ++ stepWords .en

lemma stops_facts : ∀ w ∈ stops, isWord w = true ∧ '\n' ∉ w.toList := by decide

lemma isWord_of_subset {ws : List String} (h : ws ⊆ stops) : ∀ w ∈ ws, isWord w = true :=
  fun w hw => (stops_facts w (h hw)).1

lemma isWord_of_mem_marks : ∀ w ∈ marks, isWord w = true :=
  isWord_of_subset fun w => by simp only [marks, stops, List.mem_cons, List.mem_append]; grind

lemma isWord_of_mem_sections : ∀ w ∈ sections, isWord w = true :=
  isWord_of_subset fun w => by
    simp only [sections, stops, stepWords, List.mem_cons, List.mem_append]; grind

lemma isWord_of_mem_step {f : Keywords → List String} (hf : f ∈ stepKeywords) :
    ∀ w ∈ f .en, isWord w = true := by
  refine isWord_of_subset fun w hw => ?_
  simp only [stepKeywords, List.mem_cons, List.not_mem_nil, or_false] at hf
  simp only [stops, stepWords, List.mem_cons, List.mem_append]
  rcases hf with rfl | rfl | rfl | rfl | rfl <;> grind

/-- What follows the steps of a section starts like a test, also if it is examples: their keywords
are those of tests with one letter more. -/
lemma Starts.tests {t : Text} (h : Starts sections t) :
    Starts ("@" :: Keywords.en.scenario ++ Keywords.en.outline) t :=
  h.mono (by decide)

/-! ### Keywords with a name -/

lemma leading_of_mem : ∀ f ∈ headKeywords, Leading (f .en) := by decide

lemma leading_feature : Leading Keywords.en.feature :=
  leading_of_mem Keywords.feature (by simp [headKeywords])

lemma leading_background : Leading Keywords.en.background :=
  leading_of_mem Keywords.background (by simp [headKeywords])

lemma leading_rule : Leading Keywords.en.rule :=
  leading_of_mem Keywords.rule (by simp [headKeywords])

lemma leading_scenario : Leading Keywords.en.scenario :=
  leading_of_mem Keywords.scenario (by simp [headKeywords])

lemma leading_outline : Leading Keywords.en.outline :=
  leading_of_mem Keywords.outline (by simp [headKeywords])

lemma leading_tests : Leading (Keywords.en.scenario ++ Keywords.en.outline) :=
  leading_scenario.append leading_outline

lemma leading_examples : Leading Keywords.en.examples :=
  leading_of_mem Keywords.examples (by simp [headKeywords])

lemma clear_of_mem : ∀ f ∈ headKeywords ++ stepKeywords, Clear (f .en) := by decide

/-- The keywords of outlines say that they are, and those of scenarios do not. -/
lemma mentions_outline : ∀ w ∈ (Keywords.en.scenario ++ Keywords.en.outline).map String.toList,
    (Locate.mentions "outline".toList w || Locate.mentions "template".toList w) = true
      ↔ w ∈ Keywords.en.outline.map String.toList := by
  decide

lemma not_mem_outline : ∀ w ∈ Keywords.en.scenario.map String.toList,
    w ∉ Keywords.en.outline.map String.toList := by
  decide

lemma scenario_prefix_outline : ∀ w ∈ Keywords.en.outline.map String.toList,
    "Scenario".toList ++ [' '] <+: w := by
  decide

/-- The keyword of a test starts that of examples, but not with its colon. -/
lemma free_examples : ∀ w ∈ (Keywords.en.scenario ++ Keywords.en.outline).map String.toList,
    Free Keywords.en.examples (w ++ [':']) := by
  decide

/-! ### Keywords of steps -/

lemma trim_stepKeyword : ∀ f ∈ stepKeywords, ∀ w ∈ (f .en).map String.toList,
    trim w ∈ Step.keywords.map String.toList := by
  decide

/-- No conjunction is a keyword of its own type. -/
lemma not_mem_conjunctions : ∀ f ∈ [Keywords.stepGiven, Keywords.stepWhen, Keywords.stepThen],
    ∀ w ∈ (f .en).map String.toList, trim w ∉ Step.conjunctions.map String.toList := by
  decide

lemma stepKeyword_facts : ∀ w ∈ Step.keywords.map String.toList,
    w ≠ [] ∧ isLead w = true ∧ '\n' ∉ w ∧ trim w = w := by
  decide

/-- The keyword of a step is in one of the lists, and the lists that are tried before are free of
it. -/
lemma stepKeyword_cases : ∀ w ∈ Step.keywords.map String.toList,
    w ++ [' '] ∈ Keywords.en.stepGiven.map String.toList
    ∨ Free Keywords.en.stepGiven (w ++ [' '])
      ∧ (w ++ [' '] ∈ Keywords.en.stepWhen.map String.toList
      ∨ Free Keywords.en.stepWhen (w ++ [' '])
        ∧ (w ++ [' '] ∈ Keywords.en.stepThen.map String.toList
        ∨ Free Keywords.en.stepThen (w ++ [' ']) ∧ w ∈ Step.conjunctions.map String.toList
          ∧ (w ++ [' '] ∈ Keywords.en.stepAnd.map String.toList
          ∨ Free Keywords.en.stepAnd (w ++ [' '])
            ∧ w ++ [' '] ∈ Keywords.en.stepBut.map String.toList))) := by
  decide

lemma mem_stepWords {w : Text} (h : w ∈ Step.keywords.map String.toList) :
    w ++ [' '] ∈ (stepWords .en).map String.toList := by
  simp only [stepWords, List.map_append, List.mem_append]
  rcases stepKeyword_cases w h with hk | ⟨-, hk | ⟨-, hk | ⟨-, -, hk | ⟨-, hk⟩⟩⟩⟩ <;> grind

/-! ### What stands apart -/

lemma apart_sections : ∀ f ∈ Keywords.background :: stepKeywords, Apart (f .en) sections := by
  decide

lemma apart_row : Apart ["|"] marks := by decide

lemma apart_fences : Apart ["\"\"\"", "\x60\x60\x60"] ("|" :: marks) := by decide

end FeatureTree.Grammar
