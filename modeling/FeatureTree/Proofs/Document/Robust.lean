import FeatureTree.Proofs.Document.WellRead
import FeatureTree.Proofs.Related
import FeatureTree.Proofs.Source.Range
import FeatureTree.Shape.Basic

/-!
Trees are located in any text, also in one that they were not read from.

A tree without rules always becomes a file of the same shape: no test, step, row or cell is lost or
made up where the text disagrees with the tree. The lines that are reported are lines of the text,
tags are above their keyword, doc strings below their step, and the rows of a table in order.
-/

namespace FeatureTree

open Text

/-! ### The shape of a tree -/

/-- A row has a cell for each cell of the tree, and without a line it has the values of the tree. -/
structure Row.Mirrors (parsed : List Text) (r : Row) : Prop where
  cells : r.cells.map Cell.raw = parsed.map fun c => some (.text (Cells.unmask c))
  values : r.line = none → r.values = parsed.map Cells.resolve

/-- A block is a table if the tree has a table there, and else a doc string if it has one. -/
def Block.Mirrors (g : Grammar.Step) : Option Block → Prop
  | some (.table t) => ∃ x, g.table = some x ∧ List.Forall₂ Row.Mirrors x.rows t.rows
  | some (.docString d) =>
    g.table = none ∧ ∃ body, g.docString = some body ∧ d.raw = some (.text body)
  | none => g.table = none ∧ g.docString = none

structure Step.Mirrors (g : Grammar.Step) (s : Step) : Prop where
  keyword : s.keyword = trim g.keyword
  text : s.text = trim g.value
  block : Block.Mirrors g s.block

/-- Tags are as many as in the tree, with their names in order. -/
def Tag.Mirrors (names : List Text) (ts : List Tag) : Prop := ts.map Tag.name = names.map tagName

structure Background.Mirrors (g : Grammar.Background) (b : Background) : Prop where
  name : b.name = trim g.name
  steps : List.Forall₂ Step.Mirrors g.steps b.steps

structure Examples.Mirrors (g : Grammar.Examples) (x : Examples) : Prop where
  name : x.name = trim g.name
  tags : Tag.Mirrors g.tags x.tags
  rows : List.Forall₂ Row.Mirrors ((g.table.map Grammar.Table.rows).getD []) x.rows

def Test.examples : Test → List Examples
  | .scenario _ => []
  | .outline o => o.examples

structure Test.Mirrors (g : Grammar.Scenario) (t : Test) : Prop where
  isOutline : t.isOutline = Locate.isOutline g
  name : t.name = trim g.name
  tags : Tag.Mirrors g.tags t.tags
  steps : List.Forall₂ Step.Mirrors g.steps t.steps
  examples : List.Forall₂ Examples.Mirrors g.examples t.examples

structure Feature.Mirrors (g : Grammar.Feature) (f : Feature) : Prop where
  name : f.name = trim g.name
  tags : Tag.Mirrors g.tags f.tags
  background : Option.Rel Background.Mirrors g.background f.background
  tests : List.Forall₂ Test.Mirrors g.scenarios f.tests

/-! ### The lines of a tree -/

/-- Either no row has a line, or the lines of the rows rise. -/
def Row.InOrder (rs : List Row) : Prop :=
  (∀ r ∈ rs, r.line = none) ∨ ∃ ns : List Nat, rs.map Row.line = ns.map some ∧ ns.Pairwise (· < ·)

namespace Node

/-- The rows of a table or of examples. -/
def rows : Node → List Row
  | table t => t.rows
  | examples x => x.rows
  | _ => []

/-- A node stands right in a text of `last` lines: its line is one of them, its tags are above it,
its doc string is below it and its rows are in order. -/
structure Placed (last : Nat) (n : Node) : Prop where
  within : ∀ k, n.line = some k → 1 ≤ k ∧ k ≤ last
  tags : ∀ t k, .tag t ∈ n.children → t.line = some k → ∃ l, n.line = some l ∧ k < l
  docString : ∀ d k, .docString d ∈ n.children → d.line = some k → ∃ l, n.line = some l ∧ l < k
  rows : Row.InOrder n.rows

/-- A property of a node and of all nodes below it. -/
inductive Everywhere (P : Node → Prop) : Node → Prop
  | intro {n : Node} (here : P n) (below : ∀ c ∈ n.children, Everywhere P c) : Everywhere P n

variable {last : Nat} {n : Node}

lemma inOrder_nil : Row.InOrder [] := .inl (by simp)

/-- A node without tags, doc strings and rows stands right if its line does. -/
lemma placed_of_within (hn : ∀ k, n.line = some k → 1 ≤ k ∧ k ≤ last) (hrows : Row.InOrder n.rows)
    (htag : ∀ t, .tag t ∉ n.children) (hdoc : ∀ d, .docString d ∉ n.children) :
    n.Placed last where
  within := hn
  tags t _ ht _ := absurd ht (htag t)
  docString d _ hd _ := absurd hd (hdoc d)
  rows := hrows

/-- A leaf stands right if its line does. -/
lemma everywhere_leaf (hleaf : n.children = []) (hrows : n.rows = [])
    (h : ∀ k, n.line = some k → 1 ≤ k ∧ k ≤ last) : Everywhere (Placed last) n := by
  refine .intro (placed_of_within h (hrows ▸ inOrder_nil) ?_ ?_) ?_ <;> simp [hleaf]

end Node

namespace Locate

open Node

/-- The number of lines that a text is taken to have: at least one. -/
abbrev lastLine (t : Text) : Nat := max 1 (Source.ofText t).lineCount

variable (t : Text)

/-- A reported line is the line itself. -/
lemma eq_of_relative {n k : Nat} (h : (frame t).relative n = some k) : n = k := by
  rw [Frame.relative] at h
  split at h
  · exact Option.some.inj h
  · simp at h

lemma le_lastLine {n : Nat} (h : n ≤ (Source.ofText t).lineCount) : n ≤ lastLine t :=
  Nat.le_trans h (Nat.le_max_right _ _)

lemma keywordLine_frame (span : Grammar.Span) :
    1 ≤ (frame t).keywordLine span ∧ (frame t).keywordLine span ≤ lastLine t := by
  have h := Source.lineOf_ofText_le t span.start
  have h' := (Source.ofText t).keywordLine_le ((Source.ofText t).lineOf span.start)
  simp only [Frame.keywordLine, lastLine]
  omega

/-! ### Tags -/

lemma line_of_mem_tags {names : List Text} {keyword : Nat} {tag : Tag} {k : Nat}
    (h : tag ∈ tags (frame t) names keyword) (hk : tag.line = some k) :
    1 ≤ k ∧ k < keyword ∧ k ≤ lastLine t := by
  obtain ⟨⟨name, line⟩, hmem, rfl⟩ := List.mem_map.mp h
  obtain ⟨n, rfl, hn⟩ := Option.bind_eq_some_iff.mp hk
  obtain ⟨u, hu, rfl⟩ := Source.exists_of_mem_assign (List.of_mem_zip hmem).2
  obtain rfl := eq_of_relative t hn
  have hrange := Source.line_of_mem_tagsAbove hu
  exact ⟨hrange.1, hrange.2.1, le_lastLine t hrange.2.2⟩

/-! ### Rows -/

lemma cells_row (line : Option Nat) {values parsed : List Text}
    (h : values.length = parsed.length) :
    (row line values parsed).cells.map Cell.raw
      = parsed.map fun c => some (.text (Cells.unmask c)) := by
  simp only [row, List.map_map]
  change (values.zip _).map (some ∘ Prod.snd) = _
  rw [← List.map_map, List.map_snd_zip (by simp [h]), List.map_map]
  rfl

lemma line_of_mem_cells {line : Option Nat} {values parsed : List Text} {c : Cell}
    (h : c ∈ (row line values parsed).cells) : c.line = line := by
  obtain ⟨⟨v, r⟩, -, rfl⟩ := List.mem_map.mp h
  rfl

/-- No row or cell of a table is lost, and none is added. -/
lemma rows_mirror (g : Grammar.Table) : List.Forall₂ Row.Mirrors g.rows (rows (frame t) g) := by
  rcases rows_cases (frame t) g with ⟨rs, hfound, hlen, hwidth, hrows⟩ | hrows
  · rw [hrows]
    refine forall₂_map_zip hlen fun p hp => ⟨cells_row _ (hwidth p hp), fun hline => ?_⟩
    have hrange := (Source.rows?_lines hfound).2 p.1 (List.of_mem_zip hp).1
    simp [row, relative_frame t hrange.1] at hline
  · rw [hrows, List.forall₂_map_right_iff]
    refine List.forall₂_same.mpr fun parsed _ => ⟨cells_row _ (by simp), fun _ => ?_⟩
    exact values_row _ (by simp)

lemma rows_inOrder (g : Grammar.Table) : Row.InOrder (rows (frame t) g) := by
  rcases rows_cases (frame t) g with ⟨rs, hfound, hlen, -, hrows⟩ | hrows
  · obtain ⟨hrise, hrange⟩ := Source.rows?_lines hfound
    refine .inr ⟨rs.map Located.line, ?_, hrise⟩
    rw [hrows, List.map_map, List.map_map]
    calc (rs.zip g.rows).map _
        = (rs.zip g.rows).map ((some ∘ Located.line) ∘ Prod.fst) := by
          refine List.map_congr_left fun p hp => ?_
          exact relative_frame t (hrange p.1 (List.of_mem_zip hp).1).1
      _ = rs.map (some ∘ Located.line) := by
          rw [← List.map_map, List.map_fst_zip hlen.le]
  · rw [hrows]
    refine .inl fun r hr => ?_
    obtain ⟨parsed, -, rfl⟩ := List.mem_map.mp hr
    rfl

/-- Rows and their cells are on lines of the text. -/
lemma line_of_mem_rows {g : Grammar.Table} {r : Row} (h : r ∈ rows (frame t) g) :
    (∀ k, r.line = some k → 1 ≤ k ∧ k ≤ lastLine t) ∧ ∀ c ∈ r.cells, c.line = r.line := by
  rcases rows_cases (frame t) g with ⟨rs, hfound, -, -, hrows⟩ | hrows
  · rw [hrows] at h
    obtain ⟨p, hp, rfl⟩ := List.mem_map.mp h
    refine ⟨fun k hk => ?_, fun c hc => line_of_mem_cells hc⟩
    obtain rfl := eq_of_relative t hk
    have hrange := (Source.rows?_lines hfound).2 p.1 (List.of_mem_zip hp).1
    exact ⟨hrange.1, le_lastLine t hrange.2⟩
  · rw [hrows] at h
    obtain ⟨parsed, -, rfl⟩ := List.mem_map.mp h
    exact ⟨fun k hk => by simp [row] at hk, fun c hc => line_of_mem_cells hc⟩

lemma everywhere_row {g : Grammar.Table} {r : Row} (h : r ∈ rows (frame t) g) :
    Everywhere (Placed (lastLine t)) (.row r) := by
  obtain ⟨hline, hcells⟩ := line_of_mem_rows t h
  refine .intro (placed_of_within hline inOrder_nil ?_ ?_) ?_
  · simp [children]
  · simp [children]
  · intro n hn
    obtain ⟨c, hc, rfl⟩ := List.mem_map.mp hn
    exact everywhere_leaf rfl rfl fun k hk => hline k (by rw [← hcells c hc]; exact hk)

/-! ### Steps -/

lemma block_mirror (k : Nat) (g : Grammar.Step) : Block.Mirrors g (block (frame t) k g) := by
  rw [block]
  split
  · rename_i x hx
    exact ⟨x, hx, rows_mirror t x⟩
  · rename_i hx
    cases hd : g.docString with
    | none => exact ⟨hx, hd⟩
    | some body =>
      refine ⟨hx, body, hd, ?_⟩
      rw [docString]
      split <;> rfl

lemma step_mirror (g : Grammar.Step) : Step.Mirrors g (step (frame t) g) :=
  ⟨rfl, rfl, block_mirror t _ g⟩

lemma steps_mirror (gs : List Grammar.Step) :
    List.Forall₂ Step.Mirrors gs (gs.map (step (frame t))) := by
  rw [List.forall₂_map_right_iff]
  exact List.forall₂_same.mpr fun g _ => step_mirror t g

lemma everywhere_table (g : Grammar.Table) :
    Everywhere (Placed (lastLine t)) (.table (table (frame t) g)) := by
  refine .intro (placed_of_within (fun k hk => ?_) (rows_inOrder t g) ?_ ?_) ?_
  · -- a table is where its first row is
    obtain ⟨r, hr, hline⟩ := Option.bind_eq_some_iff.mp hk
    exact (line_of_mem_rows t (List.mem_of_mem_head? hr)).1 k hline
  · simp [children]
  · simp [children]
  · intro c hc
    obtain ⟨r, hr, rfl⟩ := List.mem_map.mp hc
    exact everywhere_row t hr

lemma line_of_docString {stepLine k : Nat} {body : Text}
    (h : (docString (frame t) stepLine body).line = some k) : stepLine < k ∧ k ≤ lastLine t := by
  rw [docString] at h
  split at h
  · rename_i d hd
    obtain rfl := eq_of_relative t h
    have hrange := Source.docString?_line hd
    exact ⟨hrange.1, le_lastLine t hrange.2⟩
  · simp at h

/-- Below a step stands its table or its doc string. -/
lemma mem_children_step {g : Grammar.Step} {c : Node}
    (h : c ∈ (Node.step (step (frame t) g)).children) :
    (∃ x, c = .table (table (frame t) x))
      ∨ ∃ body, c = .docString (docString (frame t) ((Source.ofText t).lineOf g.span.start) body) := by
  obtain ⟨b, hb, rfl⟩ := List.mem_map.mp h
  have hb : block (frame t) ((Source.ofText t).lineOf g.span.start) g = some b :=
    Option.mem_toList.mp hb
  rw [block] at hb
  split at hb
  · rename_i x _
    exact .inl ⟨x, by rw [← Option.some.inj hb]; rfl⟩
  · obtain ⟨body, -, rfl⟩ := Option.map_eq_some_iff.mp hb
    exact .inr ⟨body, rfl⟩

lemma everywhere_step (g : Grammar.Step) :
    Everywhere (Placed (lastLine t)) (.step (step (frame t) g)) := by
  have hrange := Source.lineOf_ofText_le t g.span.start
  have hline : (Node.step (step (frame t) g)).line
      = some ((Source.ofText t).lineOf g.span.start) := relative_frame t hrange.1
  refine .intro ⟨fun k hk => ?_, fun u k hu => ?_, fun d k hd hk => ?_, inOrder_nil⟩ fun c hc => ?_
  · rw [hline] at hk
    rwa [← Option.some.inj hk]
  · rcases mem_children_step t hu with ⟨x, hx⟩ | ⟨body, hx⟩ <;> simp at hx
  · rcases mem_children_step t hd with ⟨x, hx⟩ | ⟨body, hx⟩
    · simp at hx
    · obtain rfl := Node.docString.inj hx
      exact ⟨_, hline, (line_of_docString t hk).1⟩
  · rcases mem_children_step t hc with ⟨x, rfl⟩ | ⟨body, rfl⟩
    · exact everywhere_table t x
    · refine everywhere_leaf rfl rfl fun k hk => ?_
      have := line_of_docString t hk
      exact ⟨by omega, this.2⟩

/-! ### Parts with a keyword -/

/-- A part with a keyword stands right if what is below it does, apart from its tags, which do. -/
lemma everywhere_headed {n : Node} (span : Grammar.Span) (names : List Text)
    (hline : n.line = (frame t).relative ((frame t).keywordLine span))
    (htags : ∀ tag, .tag tag ∈ n.children → tag ∈ tags (frame t) names ((frame t).keywordLine span))
    (hdoc : ∀ d, .docString d ∉ n.children) (hrows : Row.InOrder n.rows)
    (hbelow : ∀ c ∈ n.children, (∀ tag, c ≠ .tag tag) → Everywhere (Placed (lastLine t)) c) :
    Everywhere (Placed (lastLine t)) n := by
  have hrange := keywordLine_frame t span
  rw [relative_frame t hrange.1] at hline
  refine .intro ⟨fun k hk => ?_, fun u k hu hk => ?_, fun d _ hd _ => absurd hd (hdoc d), hrows⟩
    fun c hc => ?_
  · rw [hline] at hk
    rwa [← Option.some.inj hk]
  · exact ⟨_, hline, (line_of_mem_tags t (htags u hu) hk).2.1⟩
  · by_cases htag : ∃ tag, c = .tag tag
    · obtain ⟨tag, rfl⟩ := htag
      refine everywhere_leaf rfl rfl fun k hk => ?_
      have := line_of_mem_tags t (htags tag hc) hk
      exact ⟨this.1, this.2.2⟩
    · exact hbelow c hc fun tag h => htag ⟨tag, h⟩

lemma everywhere_background (g : Grammar.Background) :
    Everywhere (Placed (lastLine t)) (.background (background (frame t) g)) := by
  refine everywhere_headed t g.span [] rfl ?_ ?_ inOrder_nil fun c hc _ => ?_
  · simp [children]
  · simp [children]
  · obtain ⟨s, hs, rfl⟩ := List.mem_map.mp hc
    obtain ⟨x, -, rfl⟩ := List.mem_map.mp hs
    exact everywhere_step t x

lemma examples_mirror (g : Grammar.Examples) : Examples.Mirrors g (examples (frame t) g) where
  name := rfl
  tags := map_name_tags _ _ _
  rows := by
    cases h : g.table with
    | none => simp [examples, h]
    | some x => simpa [examples, h] using rows_mirror t x

lemma everywhere_examples (g : Grammar.Examples) :
    Everywhere (Placed (lastLine t)) (.examples (examples (frame t) g)) := by
  have hrows : ∀ r ∈ (examples (frame t) g).rows, ∃ x, r ∈ rows (frame t) x := by
    intro r hr
    cases h : g.table with
    | none => simp [examples, h] at hr
    | some x => exact ⟨x, by simpa [examples, h] using hr⟩
  refine everywhere_headed t g.span g.tags rfl ?_ ?_ ?_ fun c hc htag => ?_
  · intro tag h
    simpa [children, examples] using h
  · simp [children]
  · cases h : g.table with
    | none => simpa [examples, h, Node.rows] using inOrder_nil
    | some x => simpa [examples, h, Node.rows] using rows_inOrder t x
  · rcases List.mem_append.mp hc with hc | hc
    · obtain ⟨tag, -, rfl⟩ := List.mem_map.mp hc
      exact absurd rfl (htag tag)
    · obtain ⟨r, hr, rfl⟩ := List.mem_map.mp hc
      obtain ⟨x, hx⟩ := hrows r hr
      exact everywhere_row t hx

lemma test_mirror (g : Grammar.Scenario) : Test.Mirrors g (test (frame t) g) := by
  rw [test]
  simp only
  split
  · rename_i h
    refine ⟨h.symm, rfl, map_name_tags _ _ _, steps_mirror t g.steps, ?_⟩
    rw [Test.examples, List.forall₂_map_right_iff]
    exact List.forall₂_same.mpr fun x _ => examples_mirror t x
  · rename_i h
    -- a scenario has no examples to lose
    have hnone : g.examples = [] := by
      simp only [isOutline, Bool.or_eq_true, not_or] at h
      simpa using h.1.1
    refine ⟨(Bool.eq_false_iff.mpr h).symm, rfl, map_name_tags _ _ _, steps_mirror t g.steps, ?_⟩
    rw [hnone]
    exact .nil

lemma everywhere_test (g : Grammar.Scenario) :
    Everywhere (Placed (lastLine t)) (test (frame t) g).node := by
  have hsteps : ∀ s ∈ g.steps.map (step (frame t)), Everywhere (Placed (lastLine t)) (.step s) := by
    intro s hs
    obtain ⟨x, -, rfl⟩ := List.mem_map.mp hs
    exact everywhere_step t x
  rw [test]
  simp only
  split
  · refine everywhere_headed t g.span g.tags rfl ?_ ?_ inOrder_nil fun c hc htag => ?_
    · intro tag h
      simpa [children, Test.node] using h
    · simp [children, Test.node]
    · simp only [children, Test.node, List.mem_append, List.mem_map] at hc
      rcases hc with (⟨tag, -, rfl⟩ | ⟨s, hs, rfl⟩) | ⟨x, ⟨y, -, rfl⟩, rfl⟩
      · exact absurd rfl (htag tag)
      · exact hsteps s (List.mem_map.mpr hs)
      · exact everywhere_examples t y
  · refine everywhere_headed t g.span g.tags rfl ?_ ?_ inOrder_nil fun c hc htag => ?_
    · intro tag h
      simpa [children, Test.node] using h
    · simp [children, Test.node]
    · simp only [children, Test.node, List.mem_append, List.mem_map] at hc
      rcases hc with ⟨tag, -, rfl⟩ | ⟨s, hs, rfl⟩
      · exact absurd rfl (htag tag)
      · exact hsteps s (List.mem_map.mpr hs)

/-! ### Features and files -/

/-- A tree is located unless it has rules, and it keeps its shape. -/
lemma feature_cases (g : Grammar.Feature) :
    (g.rules ≠ [] ∧ feature (frame t) g = .error (.unknownElementType "Rule".toList))
      ∨ ∃ f, g.rules = [] ∧ feature (frame t) g = .ok f ∧ Feature.Mirrors g f
        ∧ Everywhere (Placed (lastLine t)) (.feature f) := by
  by_cases hrules : g.rules = []
  · rw [feature, if_pos (by simp [hrules])]
    refine .inr ⟨_, hrules, rfl, ⟨rfl, map_name_tags _ _ _, ?_, ?_⟩, ?_⟩
    · cases g.background with
      | none => exact .none
      | some b => exact .some ⟨rfl, steps_mirror t b.steps⟩
    · rw [List.forall₂_map_right_iff]
      exact List.forall₂_same.mpr fun s _ => test_mirror t s
    · refine everywhere_headed t g.span g.tags rfl ?_ ?_ inOrder_nil
        fun c hc htag => ?_
      · intro tag h
        simp only [children, List.mem_append, List.mem_map] at h
        rcases h with (⟨u, hu, hname⟩ | ⟨_, _, h⟩) | ⟨u, _, h⟩
        · rwa [← Node.tag.inj hname]
        · simp at h
        · cases u <;> simp [Test.node] at h
      · intro d h
        simp only [children, List.mem_append, List.mem_map] at h
        rcases h with (⟨_, _, h⟩ | ⟨_, _, h⟩) | ⟨u, _, h⟩
        · simp at h
        · simp at h
        · cases u <;> simp [Test.node] at h
      · simp only [children, List.mem_append, List.mem_map] at hc
        rcases hc with (⟨tag, -, rfl⟩ | ⟨b, hb, rfl⟩) | ⟨u, ⟨s, -, rfl⟩, rfl⟩
        · exact absurd rfl (htag tag)
        · obtain ⟨x, -, rfl⟩ := Option.map_eq_some_iff.mp (Option.mem_toList.mp hb)
          exact everywhere_background t x
        · exact everywhere_test t s
  · exact .inl ⟨hrules, by rw [feature, if_neg (by simpa using hrules)]⟩

lemma line_of_mem_comments {c : Comment} {k : Nat} (h : c ∈ comments (frame t))
    (hk : c.line = some k) : 1 ≤ k ∧ k ≤ lastLine t := by
  obtain ⟨u, hu, rfl⟩ := List.mem_map.mp h
  obtain rfl := eq_of_relative t hk
  have hrange := Source.line_of_mem_comments hu
  exact ⟨hrange.1, le_lastLine t hrange.2⟩

/-- **Locating is robust.** A tree is refused exactly when it has rules. Any other tree becomes a
file of its shape, in whatever text it is looked for, and all lines of that file are lines of the
text, in the order in which they must stand. -/
theorem file_robust (name : Text) (g : Option Grammar.Feature) :
    (∀ e, Parsed.file name (.tree g t) = .error e
        ↔ (∃ x, g = some x ∧ x.rules ≠ []) ∧ e = .unknownElementType "Rule".toList)
      ∧ ∀ file, Parsed.file name (.tree g t) = .ok file →
        Option.Rel Feature.Mirrors g file.feature
          ∧ Everywhere (Placed (max 1 (Source.ofText t).lineCount)) (.featureFile file)
          ∧ ∀ c ∈ file.comments, ∀ k, c.line = some k →
            1 ≤ k ∧ k ≤ max 1 (Source.ofText t).lineCount := by
  cases g with
  | none =>
    rw [Parsed.file, file_none]
    refine ⟨by simp, fun file hfile => ?_⟩
    rw [← Except.ok.inj hfile]
    exact ⟨.none, everywhere_leaf rfl rfl (by simp [line]), fun c hc k => line_of_mem_comments t hc⟩
  | some g =>
    rw [Parsed.file, file_some]
    rcases feature_cases t g with ⟨hrules, hf⟩ | ⟨f, hrules, hf, hmirrors, hplaced⟩
    · simp [hf, Except.map, hrules, eq_comm]
    · refine ⟨by simp [hf, Except.map, hrules], fun file hfile => ?_⟩
      rw [hf] at hfile
      rw [← Except.ok.inj hfile]
      refine ⟨.some hmirrors, .intro ?_ ?_, fun c hc k => line_of_mem_comments t hc⟩
      · refine placed_of_within (by simp [line]) inOrder_nil ?_ ?_ <;> simp [children]
      · simpa [children] using hplaced

end Locate

end FeatureTree
