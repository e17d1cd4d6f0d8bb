import FeatureTree.Grammar.Rules
import FeatureTree.Markup.Mask
import FeatureTree.Proofs.DocString.ReadBack
import FeatureTree.Proofs.Grammar.Blocks

/-!
Parts whose text says what they say.

A few things that a part can hold have no text of their own: a description with a line that reads
like a keyword, a comment or a tag, a step without text, or a doc string with quotes that the
grammar takes for its end. Whether rows are masked depends on the fence that is open before them,
and a line of a description can open one.
-/

namespace FeatureTree

open Text

/-- Every item has a property that depends on the fence which is open before its lines. -/
def Fence.Each {β : Type} (P : Option Fence → β → Prop) (lines : β → List Text) :
    Option Fence → List β → Prop
  | _, [] => True
  | o, b :: bs => P o b ∧ Each P lines (Fence.run o (lines b)) bs

/-- A line of a description that is read as it stands, by the fence that is open after it: it is
neither blank nor a comment nor a tag, starts with none of the words that end the description, and
has no escape to mask. -/
def Readable (words : List String) (o : Option Fence) (l : Text) : Prop :=
  l ≠ [] ∧ (∀ c ∈ l.head?, c ∉ [' ', '\t', '#', '@']) ∧ (∀ w ∈ words, ¬ w.toList <+: l)
    ∧ Mask.piece o l = l

/-- A description that is read line by line. -/
def FaithfulDescription (words : List String) (o : Option Fence) (description : Text) : Prop :=
  Fence.Each (fun o l => Readable words (Fence.after o l) l) (fun l => [l]) o
    (Render.descriptionLines description).tail

/-- Rows whose pipes are masked, or whose first row has none. -/
def FaithfulRows (o : Option Fence) (rs : List Row) : Prop :=
  o = none ∨ ∀ r ∈ rs.head?, ∀ v ∈ r.values, '|' ∉ v

/-- A doc string that the grammar reads to its end, and whose lines are read as they are. -/
def DocString.Faithful (d : DocString) : Prop :=
  d.ReturnFree ∧ (∀ l ∈ d.content.cutAt '\n', Fence.unescape (Fence.escape l) = l)
    ∧ ∀ l ∈ d.contentType.getD [] :: d.bodyLines, Grammar.Open Fence.quotes.mark l

def Block.Faithful (o : Option Fence) : Block → Prop
  | .table t => FaithfulRows o t.rows
  | .docString d => d.Faithful

def Step.Faithful (o : Option Fence) (s : Step) : Prop :=
  s.text ≠ [] ∧ ∀ b ∈ s.block, b.Faithful o

/-- The description and the steps of a section. -/
def FaithfulSteps (o : Option Fence) (description : Text) (steps : List Step) : Prop :=
  FaithfulDescription (Grammar.stepWords .en) o description
    ∧ Fence.Each Step.Faithful Step.lines (Fence.run o (Render.descriptionLines description)) steps

def Background.Faithful (o : Option Fence) (b : Background) : Prop :=
  FaithfulSteps o b.description b.steps

def Examples.Faithful (o : Option Fence) (x : Examples) : Prop :=
  FaithfulDescription (Grammar.examplesWords .en) o x.description
    ∧ FaithfulRows (Fence.run o (Render.descriptionLines x.description)) x.rows

def Test.Faithful (o : Option Fence) : Test → Prop
  | .scenario s => FaithfulSteps o s.description s.steps
  | .outline t => FaithfulSteps o t.description t.steps
    ∧ Fence.Each Examples.Faithful Examples.lines
      (Fence.run o (Render.descriptionLines t.description ++ t.steps.flatMap Step.lines)) t.examples

/-- A feature all of whose parts are faithful, from the top down. -/
def Feature.Faithful (f : Feature) : Prop :=
  let o := Fence.run none (Render.descriptionLines f.description)
  FaithfulDescription (Grammar.featureWords .en) none f.description
    ∧ (∀ b ∈ f.background, b.Faithful o)
    ∧ Fence.Each Test.Faithful Test.lines
      (Fence.run o (f.background.toList.flatMap Background.lines)) f.tests

/-- Each item has the property after some lines. -/
lemma Fence.Each.exists_of_mem {β : Type} {P : Option Fence → β → Prop} {lines : β → List Text}
    {o : Option Fence} {bs : List β} (h : Each P lines o bs) {b : β} (hb : b ∈ bs) :
    ∃ o', P o' b := by
  induction bs generalizing o with
  | nil => simp at hb
  | cons c bs ih =>
    rcases List.mem_cons.mp hb with rfl | hb
    · exact ⟨o, h.1⟩
    · exact ih h.2 hb

/-! ### Deciding faithfulness -/

instance Fence.decidableEach {β : Type} {P : Option Fence → β → Prop} {lines : β → List Text}
    [∀ o b, Decidable (P o b)] : ∀ (o : Option Fence) (bs : List β), Decidable (Each P lines o bs)
  | _, [] => inferInstanceAs (Decidable True)
  | o, b :: bs =>
    have : Decidable (Each P lines (Fence.run o (lines b)) bs) := decidableEach _ bs
    inferInstanceAs (Decidable (P o b ∧ Each P lines (Fence.run o (lines b)) bs))

/-- It is enough to look for the mark at each place of a line. -/
lemma Grammar.open_iff {mark l : Text} :
    Open mark l ↔ ∀ i < l.length + 1, mark <+: l.drop i → '#' ∈ l.take i := by
  constructor
  · rintro h i - ⟨b, hb⟩
    refine h (l.take i) b ?_
    rw [List.append_assoc, hb, List.take_append_drop]
  · rintro h a b rfl
    have := h a.length (by rw [List.length_append, List.length_append]; omega) ⟨b, by simp⟩
    simpa using this

instance (mark l : Text) : Decidable (Grammar.Open mark l) := decidable_of_iff' _ Grammar.open_iff

-- the first character is looked at, and not all characters
instance (words : List String) (o : Option Fence) (l : Text) : Decidable (Readable words o l) :=
  have : Decidable (∀ c ∈ l.head?, c ∉ [' ', '\t', '#', '@']) :=
    Option.decidableForallMem _
  inferInstanceAs (Decidable (l ≠ [] ∧ _ ∧ (∀ w ∈ words, ¬ w.toList <+: l) ∧ Mask.piece o l = l))

instance (words : List String) (o : Option Fence) (d : Text) :
    Decidable (FaithfulDescription words o d) := by
  unfold FaithfulDescription; infer_instance

instance (o : Option Fence) (rs : List Row) : Decidable (FaithfulRows o rs) := by
  unfold FaithfulRows; infer_instance

instance (d : DocString) : Decidable d.Faithful := by
  unfold DocString.Faithful DocString.ReturnFree; infer_instance

instance (o : Option Fence) : ∀ b : Block, Decidable (b.Faithful o)
  | .table t => inferInstanceAs (Decidable (FaithfulRows o t.rows))
  | .docString d => inferInstanceAs (Decidable d.Faithful)

instance (o : Option Fence) (s : Step) : Decidable (s.Faithful o) := by
  unfold Step.Faithful; infer_instance

instance (o : Option Fence) (d : Text) (ss : List Step) : Decidable (FaithfulSteps o d ss) := by
  unfold FaithfulSteps; infer_instance

instance (o : Option Fence) (b : Background) : Decidable (b.Faithful o) := by
  unfold Background.Faithful; infer_instance

instance (o : Option Fence) (x : Examples) : Decidable (x.Faithful o) := by
  unfold Examples.Faithful; infer_instance

instance (o : Option Fence) : ∀ t : Test, Decidable (t.Faithful o)
  | .scenario s => inferInstanceAs (Decidable (FaithfulSteps o s.description s.steps))
  | .outline _ => inferInstanceAs (Decidable (_ ∧ Fence.Each Examples.Faithful Examples.lines _ _))

instance (f : Feature) : Decidable f.Faithful := by
  unfold Feature.Faithful; infer_instance

end FeatureTree
