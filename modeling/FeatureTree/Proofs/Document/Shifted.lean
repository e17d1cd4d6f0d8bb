import FeatureTree.Proofs.Document.WellRead
import FeatureTree.Proofs.Node.Relined
import FeatureTree.Proofs.Source.Shifted

/-!
A tree read behind a shell of lines.

A part that stands alone is read inside a shell that makes it a whole text, and the frame knows
how many lines the shell has. Main statement: a tree whose spans lie behind the shell gives the
parts, and the lines, that it gives where the text has no shell.
-/

namespace FeatureTree

open Text

namespace Grammar

variable (d : Nat)

/-- The same bytes, where `d` more stand before them. -/
def Span.moved (s : Span) : Span := ⟨d + s.start, d + s.stop⟩

def Table.moved (t : Table) : Table := { t with span := t.span.moved d }

def Step.moved (s : Step) : Step :=
  { s with table := s.table.map (Table.moved d), span := s.span.moved d }

def Background.moved (b : Background) : Background :=
  { b with steps := b.steps.map (Step.moved d), span := b.span.moved d }

def Examples.moved (x : Examples) : Examples :=
  { x with table := x.table.map (Table.moved d), span := x.span.moved d }

def Scenario.moved (s : Scenario) : Scenario :=
  { s with steps := s.steps.map (Step.moved d), examples := s.examples.map (Examples.moved d),
           span := s.span.moved d }

def Rule.moved (r : Rule) : Rule := { r with scenarios := r.scenarios.map (Scenario.moved d) }

/-- A feature with every span in it moved. -/
def Feature.moved (f : Feature) : Feature :=
  { f with background := f.background.map (Background.moved d),
           scenarios := f.scenarios.map (Scenario.moved d), rules := f.rules.map (Rule.moved d),
           span := f.span.moved d }

end Grammar

namespace Locate

/-- The frame of a text behind a shell. -/
abbrev behind (shell : List Text) (t : Text) : Frame :=
  ⟨Source.ofText (unlines shell ++ t), shell.length⟩

variable {shell : List Text} {t : Text}

lemma relative_behind (n : Nat) :
    (behind shell t).relative (shell.length + n) = (frame t).relative n := by
  simp [Frame.relative]

lemma one_le_lineOf (s : Source) (o : Nat) : 1 ≤ s.lineOf o := by
  rw [Source.lineOf]
  omega

lemma one_le_keywordLine (fr : Frame) (s : Grammar.Span) : 1 ≤ fr.keywordLine s :=
  (one_le_lineOf _ _).trans (Source.keywordLine_le _ _).1

section
variable (hs : ∀ l ∈ shell, ShellLine l) (ht : t ≠ [])
include hs

lemma tags_behind (names : List Text) {n : Nat} (hn : 1 ≤ n) :
    tags (behind shell t) names (shell.length + n) = tags (frame t) names n := by
  simp only [tags, Source.tagsAbove_shell hs t hn, Source.assign_shifted, List.zip_map_right,
    List.map_map]
  refine List.map_congr_left fun p _ => ?_
  cases hp : p.2 <;> simp [hp, relative_behind]

lemma docString_behind (n : Nat) (body : Text) :
    docString (behind shell t) (shell.length + n) body = docString (frame t) n body := by
  rw [docString, docString, Source.docString?_shell hs]
  cases (Source.ofText t).docString? n with
  | none => rfl
  | some d => simp [Located.shifted, relative_behind]

lemma comments_behind : comments (behind shell t) = comments (frame t) := by
  rw [comments, comments, Source.comments_shell hs, List.map_map]
  refine List.map_congr_left fun c _ => ?_
  simp [Located.shifted, relative_behind]

include ht

lemma keywordLine_behind (s : Grammar.Span) :
    (behind shell t).keywordLine (s.moved (byteLength (unlines shell)))
      = shell.length + (frame t).keywordLine s := by
  rw [Frame.keywordLine, Frame.keywordLine, Grammar.Span.moved, Source.lineOf_shell hs ht,
    Source.keywordLine_shell hs t (one_le_lineOf _ _)]

lemma rows_behind (g : Grammar.Table) :
    rows (behind shell t) (g.moved (byteLength (unlines shell))) = rows (frame t) g := by
  rw [rows_eq, rows_eq, Grammar.Table.moved, Grammar.Span.moved]
  simp only [Source.lineOf_shell hs ht, Source.rows?_shell hs t (one_le_lineOf _ _)]
  cases (Source.ofText t).rows? ((Source.ofText t).lineOf g.span.start) g.rows.length with
  | none => rfl
  | some rs =>
    -- the widths of the rows do not depend on their lines
    have hwidth : ((rs.map (Located.shifted shell.length)).zip g.rows).all
          (fun p => p.1.value.length == p.2.length)
        = (rs.zip g.rows).all fun p => p.1.value.length == p.2.length := by
      rw [List.zip_map_left, List.all_map]
      rfl
    rw [Option.map_some, Option.filter_some, Option.filter_some, hwidth]
    cases (rs.zip g.rows).all fun p => p.1.value.length == p.2.length with
    | false => rfl
    | true =>
      simp only [if_true, Option.elim_some, List.zip_map_left, List.map_map]
      refine List.map_congr_left fun p _ => ?_
      simp [Located.shifted, relative_behind]

lemma table_behind (g : Grammar.Table) :
    (table (behind shell t) (g.moved (byteLength (unlines shell)))).relined id
      = (table (frame t) g).relined id := by
  simp only [table, rows_behind hs ht, Table.relined]

lemma step_behind (g : Grammar.Step) :
    (step (behind shell t) (g.moved (byteLength (unlines shell)))).relined id
      = (step (frame t) g).relined id := by
  have hline := Source.lineOf_shell hs ht g.span.start
  have hblock : (block (behind shell t)
          (shell.length + (Source.ofText t).lineOf g.span.start)
          (g.moved (byteLength (unlines shell)))).map (Block.relined id)
      = (block (frame t) ((Source.ofText t).lineOf g.span.start) g).map (Block.relined id) := by
    rcases hg : g.table with _ | x
    · simp only [block, Grammar.Step.moved, hg, Option.map_none, docString_behind hs]
    · simp only [block, Grammar.Step.moved, hg, Option.map_some, Block.relined,
        table_behind hs ht]
  simp only [Grammar.Step.moved, Grammar.Span.moved] at hblock ⊢
  simp only [step, Step.relined, hline, relative_behind, hblock]

lemma steps_behind (gs : List Grammar.Step) :
    ((gs.map (Grammar.Step.moved (byteLength (unlines shell)))).map (step (behind shell t))).map
        (Step.relined id)
      = (gs.map (step (frame t))).map (Step.relined id) := by
  simp only [List.map_map]
  exact List.map_congr_left fun g _ => step_behind hs ht g

lemma background_behind (g : Grammar.Background) :
    (background (behind shell t) (g.moved (byteLength (unlines shell)))).relined id
      = (background (frame t) g).relined id := by
  simp only [background, Background.relined, Grammar.Background.moved, keywordLine_behind hs ht,
    relative_behind, steps_behind hs ht]

lemma examples_behind (g : Grammar.Examples) :
    (examples (behind shell t) (g.moved (byteLength (unlines shell)))).relined id
      = (examples (frame t) g).relined id := by
  have hrows : (g.table.map (Grammar.Table.moved (byteLength (unlines shell)))).map
      (rows (behind shell t)) = g.table.map (rows (frame t)) := by
    rw [Option.map_map]
    exact Option.map_congr fun x _ => rows_behind hs ht x
  simp only [examples, Examples.relined, Grammar.Examples.moved, keywordLine_behind hs ht,
    relative_behind, tags_behind hs _ (one_le_keywordLine _ _), hrows]

lemma test_behind (g : Grammar.Scenario) :
    (test (behind shell t) (g.moved (byteLength (unlines shell)))).relined id
      = (test (frame t) g).relined id := by
  have houtline : isOutline (g.moved (byteLength (unlines shell))) = isOutline g := by
    simp [isOutline, Grammar.Scenario.moved]
  have hexamples : ((g.examples.map (Grammar.Examples.moved (byteLength (unlines shell)))).map
        (examples (behind shell t))).map (Examples.relined id)
      = (g.examples.map (examples (frame t))).map (Examples.relined id) := by
    simp only [List.map_map]
    exact List.map_congr_left fun x _ => examples_behind hs ht x
  rw [test, test, houtline]
  cases isOutline g <;>
    simp only [Test.relined, Scenario.relined, Outline.relined, Grammar.Scenario.moved,
      keywordLine_behind hs ht, relative_behind, tags_behind hs _ (one_le_keywordLine _ _),
      steps_behind hs ht, hexamples, if_true, if_false, Bool.false_eq_true]

lemma feature_behind (g : Grammar.Feature) :
    (feature (behind shell t) (g.moved (byteLength (unlines shell)))).map (Feature.relined id)
      = (feature (frame t) g).map (Feature.relined id) := by
  have hrules : (g.moved (byteLength (unlines shell))).rules.isEmpty = g.rules.isEmpty := by
    simp [Grammar.Feature.moved]
  have hbackground : ((g.background.map (Grammar.Background.moved (byteLength (unlines shell)))).map
        (background (behind shell t))).map (Background.relined id)
      = (g.background.map (background (frame t))).map (Background.relined id) := by
    simp only [Option.map_map]
    exact Option.map_congr fun b _ => background_behind hs ht b
  have htests : ((g.scenarios.map (Grammar.Scenario.moved (byteLength (unlines shell)))).map
        (test (behind shell t))).map (Test.relined id)
      = (g.scenarios.map (test (frame t))).map (Test.relined id) := by
    simp only [List.map_map]
    exact List.map_congr_left fun x _ => test_behind hs ht x
  rw [feature, feature, hrules]
  cases g.rules.isEmpty with
  | false => rfl
  | true =>
    simp only [if_true, Except.map, Feature.relined, Grammar.Feature.moved,
      keywordLine_behind hs ht, relative_behind, tags_behind hs _ (one_le_keywordLine _ _),
      hbackground, htests]

end

/-- A file without its raw elements is made from its feature without them. -/
lemma relined_file_some (fr : Frame) (name : Text) (g : Grammar.Feature) :
    (file fr name (some g)).map (FeatureFile.relined id)
      = ((feature fr g).map (Feature.relined id)).map fun f =>
          { path := path? name, feature := some f,
            comments := (comments fr).map (Comment.relined id) } := by
  rw [file_some]
  cases feature fr g <;> rfl

/-- **A shell leaves no trace.** Lines that cannot be taken for a tag, a comment, a blank line or
a fence may stand above a text: a tree read behind them gives the same failure, or the same file
with the same lines. -/
theorem file_behind_shell {shell : List Text} (hs : ∀ l ∈ shell, ShellLine l) {t : Text}
    (ht : t ≠ []) (name : Text) (f : Option Grammar.Feature) :
    (file ⟨Source.ofText (unlines shell ++ t), shell.length⟩ name
        (f.map (Grammar.Feature.moved (byteLength (unlines shell))))).map (FeatureFile.relined id)
      = (file ⟨Source.ofText t, 0⟩ name f).map (FeatureFile.relined id) := by
  cases f with
  | none => rw [Option.map_none, file_none, file_none, comments_behind hs]
  | some g =>
    rw [Option.map_some, relined_file_some, relined_file_some, feature_behind hs ht,
      comments_behind hs]

/-- The tree of a tagged scenario with one step and its table. -/
def taggedScenario : Grammar.Feature where
  scenarios :=
    [{ keyword := "Scenario".toList
       name := "s".toList
       tags := ["a".toList]
       steps :=
         [{ keyword := "Given".toList
            value := "g".toList
            table := some { rows := [["x".toList]], span := ⟨27, 30⟩ }
            span := ⟨19, 30⟩ }]
       span := ⟨0, 30⟩ }]

/-- Behind the line of a feature, the tag is still on the first line. -/
theorem file_behind_feature_line :
    (file ⟨Source.ofText (unlines ["Feature: é".toList]
          ++ "@a\nScenario: s\n# c\nGiven g\n|x|\n".toList), 1⟩ []
        (some (taggedScenario.moved (byteLength (unlines ["Feature: é".toList]))))).map
        (FeatureFile.relined id)
      = .ok
        { feature := some
            { line := some 2
              tests := [.scenario
                { line := some 2
                  keyword := "Scenario".toList
                  name := "s".toList
                  tags := [{ line := some 1, name := "@a".toList }]
                  steps :=
                    [{ line := some 4
                       keyword := "Given".toList
                       text := "g".toList
                       block := some (.table
                         { line := some 5
                           rows := [{ line := some 5
                                      cells := [{ line := some 5, value := "x".toList }] }] }) }] }] }
          comments := [{ line := some 3, text := "# c".toList }] } :=
  (@file_behind_shell ["Feature: é".toList]
    (by
      intro l hl
      obtain rfl := List.mem_singleton.mp hl
      exact ⟨by decide, ⟨'F', by decide⟩, fun f => by cases f <;> decide⟩)
    "@a\nScenario: s\n# c\nGiven g\n|x|\n".toList (by decide) [] (some taggedScenario)).trans (by rfl)

end Locate

end FeatureTree
