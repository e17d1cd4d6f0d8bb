import Mathlib.Tactic.Common
import FeatureTree.Proofs.Node.Relined
import FeatureTree.Proofs.Shape.Draft

/-!
The four forms of a document agree: each is told apart from the others by its outermost value, and
reading it gives the feature that the draft means.
-/

namespace FeatureTree

/-- A child without raw elements. -/
def Shape.Child.bare : Shape.Child → Shape.Child
  | .background b => .background (b.relined id)
  | .test t => .test (t.relined id)

namespace Json

/-- The value of the last of the fields with a key. -/
def lastField? (k : String) : List (String × Option Json) → Option Json
  | [] => none
  | (k', v) :: fs => (lastField? k fs).or (if k = k' then v else none)

@[simp] lemma lastField?_nil (k : String) : lastField? k [] = none := rfl

@[simp] lemma lastField?_cons (k k' : String) (v : Option Json) (fs : List (String × Option Json)) :
    lastField? k ((k', v) :: fs) = (lastField? k fs).or (if k = k' then v else none) := rfl

@[simp] lemma lastField?_append (k : String) (fs gs : List (String × Option Json)) :
    lastField? k (fs ++ gs) = (lastField? k gs).or (lastField? k fs) := by
  induction fs with
  | nil => simp
  | cons f fs ih =>
    obtain ⟨k', v⟩ := f
    simp [ih, Option.or_assoc]

lemma lookup_field (k k' : String) (v : Json) (fs : List (String × Json)) :
    List.lookup k ((k', v) :: fs) = if k = k' then some v else fs.lookup k := by
  by_cases h : k = k'
  · simp [h]
  · simp [h, List.lookup_cons, beq_false_of_ne h]

lemma lookup_putField (k k' : String) (v : Json) (fs : List (String × Json)) :
    (putField k v fs).lookup k' = if k' = k then some v else fs.lookup k' := by
  induction fs with
  | nil => rw [putField, lookup_field]
  | cons f fs ih =>
    obtain ⟨k₁, v₁⟩ := f
    rw [putField]
    split_ifs with h₁ h₂ <;> simp only [lookup_field, ih] <;> grind

@[simp] lemma get?_object (k : String) (fs : List (String × Option Json)) :
    (object fs).get? k = lastField? k fs := by
  have key : ∀ acc : List (String × Json),
      ((fs.filterMap fun f => f.2.map (f.1, ·)).foldl (fun acc f => putField f.1 f.2 acc)
        acc).lookup k = (lastField? k fs).or (acc.lookup k) := by
    induction fs with
    | nil => simp
    | cons f fs ih =>
      intro acc
      obtain ⟨k', v⟩ := f
      cases v with
      | none => simp [ih]
      | some v =>
        simp only [List.filterMap_cons, Option.map_some, List.foldl_cons, ih, lookup_putField,
          lastField?_cons, Option.or_assoc]
        by_cases h : k = k' <;> simp [h]
  simpa [object, ofFields, get?] using key []

lemma itemsAt_object {k : String} {fs : List (String × Option Json)} {w : α → Json}
    {xs : List α} (h : lastField? k fs = some (listOf w xs)) : (object fs).itemsAt k = xs.map w := by
  simp [itemsAt, h, listOf, items]

lemma textAt_object {k : String} {fs : List (String × Option Json)} {t : Text}
    (h : lastField? k fs = some (text t)) : (object fs).textAt k = t := by
  simp [textAt, strAt?, h, text, str?]

@[simp] lemma isNull_object (fs : List (String × Option Json)) : (object fs).isNull = false := rfl

end Json

namespace Draft

open Json

/-! ### Rows, tags and arguments -/

lemma line_object (form : Form) (l : Option Nat) {fs : List (String × Option Json)}
    (hn : lastField? "line" fs = none) (hl : lastField? "location" fs = none) :
    Shape.line (object (place form l ++ fs)) = l := by
  cases form <;> cases l <;> simp [Shape.line, place, hn, hl, nat, nat?]

lemma cell_object (l : Option Nat) (fs : List (String × Option Json)) :
    Shape.cell l (object fs)
      = ⟨(Shape.line (object fs)).or l, (object fs).textAt "value", some (object fs)⟩ :=
  rfl

lemma cell_write (form : Form) (l : Option Nat) (v : Text) :
    (Shape.cell l (writeCell form v)).relined id = { line := l, value := v } := by
  cases form with
  | version2 => simp [writeCell, Shape.cell, Json.text, Cell.relined]
  | _ =>
    have hv : (object [("value", some (.text v))]).textAt "value" = v := textAt_object (by simp)
    simp [writeCell, cell_object, Cell.relined, hv, Shape.line]

lemma row_write (form : Form) (r : Row) : (Shape.row (r.write form)).relined id = r.row := by
  have hl : Shape.line (r.write form) = r.line := line_object form r.line (by simp) (by simp)
  have hc : (r.write form).itemsAt "cells" = r.values.map (writeCell form) :=
    itemsAt_object (by simp)
  simp [Shape.row, Row.relined, Row.row, hl, hc, Function.comp_def, cell_write]

lemma rows_write (form : Form) (rs : List Row) :
    ((rs.map (Row.write form)).map Shape.row).map (FeatureTree.Row.relined id) = rs.map Row.row := by
  simp [Function.comp_def, row_write]

lemma line_row_write (form : Form) (r : Row) : (Shape.row (r.write form)).line = r.line :=
  congrArg FeatureTree.Row.line (row_write form r)

lemma head?_rows_write (form : Form) (rs : List Row) :
    ((rs.map (Row.write form)).map Shape.row).head?.bind FeatureTree.Row.line = firstLine rs := by
  cases rs with
  | nil => rfl
  | cons r rs => exact line_row_write form r

lemma tag_write (form : Form) (t : Tag) : (Shape.tag (t.write form)).relined id = t.tag := by
  have hl : Shape.line (t.write form) = t.line := line_object form t.line (by simp) (by simp)
  have hn : (t.write form).textAt "name" = t.name := textAt_object (by simp)
  simp [Shape.tag, FeatureTree.Tag.relined, Tag.tag, hl, hn]

lemma tags_write (form : Form) (ts : List Tag) {fs : List (String × Option Json)}
    (h : lastField? "tags" fs = some (listOf (Tag.write form) ts)) :
    (Shape.tags (object fs)).map (FeatureTree.Tag.relined id) = ts.map Tag.tag := by
  simp [Shape.tags, itemsAt_object h, Function.comp_def, tag_write]

/-- A table written with its own line is on the line of its first row either way. -/
lemma table_write (form : Form) (rs : List Row) (fs : List (String × Option Json))
    (hn : lastField? "line" fs = none) (hl : lastField? "location" fs = none)
    (hr : lastField? "rows" fs = none) :
    (Shape.table (object (writeTable form rs ++ fs))).relined id
      = { line := firstLine rs, rows := rs.map Row.row } := by
  have hline : Shape.line (object (writeTable form rs ++ fs)) = firstLine rs := by
    rw [writeTable, List.append_assoc]
    exact line_object form _ (by simp [hn]) (by simp [hl])
  have hrows : (object (writeTable form rs ++ fs)).itemsAt "rows" = rs.map (Row.write form) :=
    itemsAt_object (by simp [writeTable, hr])
  simp only [Shape.table, FeatureTree.Table.relined, hline, hrows, head?_rows_write, rows_write,
    Option.or_self, id_eq]

lemma trimmedAt?_object {k : String} {fs : List (String × Option Json)} {o : Option Text}
    (h : lastField? k fs = o.map text) :
    Shape.trimmedAt? k (object fs) = o.bind Text.trimmed? := by
  cases o with
  | none => simp [Shape.trimmedAt?, textAt, strAt?, h, Text.trimmed?, Text.trim, Text.trimStart,
      Text.trimEnd]
  | some t => simp [Shape.trimmedAt?, textAt_object h]

lemma lastField?_place (form : Form) (l : Option Nat) {k : String} (hn : k ≠ "line")
    (hl : k ≠ "location") : lastField? k (place form l) = none := by
  cases form <;> simp [place, hn, hl]

/-- The parts of a doc string under the keys it was written with. -/
lemma doc_write (form : Form) (d : Doc) (c ct : String) (fs : List (String × Option Json))
    (hc : c ∉ ["line", "location", ct]) (hct : ct ∉ ["line", "location"])
    (hf : ∀ k ∈ ["line", "location", c, ct], lastField? k fs = none) :
    Shape.line (object (d.fields form c ct ++ fs)) = d.line
      ∧ (object (d.fields form c ct ++ fs)).textAt c = d.content
      ∧ Shape.trimmedAt? ct (object (d.fields form c ct ++ fs))
        = d.contentType.bind Text.trimmed? := by
  simp only [List.mem_cons, List.not_mem_nil, or_false, not_or] at hc hct
  simp only [List.forall_mem_cons, List.not_mem_nil, false_implies, implies_true, and_true] at hf
  obtain ⟨hn, hl, hfc, hfct⟩ := hf
  refine ⟨?_, textAt_object ?_, trimmedAt?_object ?_⟩
  · rw [Doc.fields, List.append_assoc]
    exact line_object form _ (by simp [hn, Ne.symm hc.1, Ne.symm hct.1])
      (by simp [hl, Ne.symm hc.2.1, Ne.symm hct.2])
  · simp [Doc.fields, hfc, hc.2.2]
  · simp [Doc.fields, hfct, Ne.symm hc.2.2, lastField?_place form _ hct.1 hct.2]

/-! ### Steps -/

/-- The keys under which one form or another puts the argument of a step. -/
def argumentKeys : List String := ["rows", "doc_string", "dataTable", "docString", "argument"]

lemma lastField?_argument (form : Form) (a : Option Argument) {k : String} (hk : k ∉ argumentKeys) :
    lastField? k (a.map (Argument.field form)).toList = none := by
  simp only [argumentKeys, List.mem_cons, List.not_mem_nil, or_false, not_or] at hk
  rcases a with _ | a
  · rfl
  · cases form <;> cases a <;> simp [Argument.field, hk]

/-- A step is read right by every form that reads its argument right. -/
lemma step_write (form : Form) (s : Step) {parts : List String} {block : Option Block}
    (hb : block.map (Block.relined id) = s.argument.map Argument.block) :
    (Shape.step (textKey form) parts block (s.write form)).relined id = s.step := by
  have hl : Shape.line (s.write form) = s.line := by
    rw [Step.write, List.append_assoc]
    apply line_object <;> cases form <;> simp [lastField?_argument, argumentKeys, textKey]
  have hk : (s.write form).textAt "keyword" = s.keyword :=
    textAt_object (by cases form <;> simp [lastField?_argument, argumentKeys, textKey])
  have ht : (s.write form).textAt (textKey form) = s.text :=
    textAt_object (by cases form <;> simp [lastField?_argument, argumentKeys, textKey])
  simp [Shape.step, FeatureTree.Step.relined, Step.step, Shape.keyword, hl, hk, ht, hb]

lemma block_write_elements (s : Step) :
    (Shape.Elements.block (s.write .version2)).map (Block.relined id)
      = s.argument.map Argument.block := by
  rcases ha : s.argument with _ | (rs | d)
  · simp [Shape.Elements.block, Step.write, ha, place, textKey]
  · have hr : (s.write .version2).get? "rows" = some (listOf (Row.write .version2) rs) := by
      simp [Step.write, ha, Argument.field]
    simp only [Shape.Elements.block, hr, listOf, head?_rows_write, Option.map_some, Block.relined,
      FeatureTree.Table.relined, rows_write, Argument.block, id_eq]
  · have hr : (s.write .version2).get? "rows" = none := by
      simp [Step.write, ha, Argument.field, place, textKey]
    have hd : (s.write .version2).get? "doc_string"
        = some (object (d.fields .version2 "value" "content_type")) := by
      simp [Step.write, ha, Argument.field]
    obtain ⟨hl, hc, ht⟩ := doc_write .version2 d "value" "content_type" [] (by simp) (by simp)
      (by simp)
    rw [List.append_nil] at hl hc ht
    simp only [Shape.Elements.block, hr, hd, Option.map_some, Block.relined, DocString.relined,
      Argument.block, hl, hc, ht, id_eq]

lemma steps_write_elements {ss : List Step} {fs : List (String × Option Json)}
    (h : lastField? "steps" fs = some (listOf (Step.write .version2) ss)) :
    (Shape.Elements.steps (object fs)).map (FeatureTree.Step.relined id) = ss.map Step.step := by
  rw [Shape.Elements.steps, itemsAt_object h, List.map_map, List.map_map]
  exact List.map_congr_left fun s _ => step_write .version2 s (block_write_elements s)

lemma block_write_messages (s : Step) :
    (Shape.Messages.block (s.write .messages)).map (Block.relined id)
      = s.argument.map Argument.block := by
  rcases ha : s.argument with _ | (rs | d)
  · simp [Shape.Messages.block, present?, Step.write, ha, place, textKey]
  · have hr : (s.write .messages).present? "dataTable"
        = some (object (writeTable .messages rs)) := by
      simp [present?, Step.write, ha, Argument.field]
    have ht := table_write .messages rs [] (by simp) (by simp) (by simp)
    rw [List.append_nil] at ht
    simp only [Shape.Messages.block, hr, Option.map_some, Block.relined, ht, Argument.block]
  · have hr : (s.write .messages).present? "dataTable" = none := by
      simp [present?, Step.write, ha, Argument.field, place, textKey]
    have hd : (s.write .messages).present? "docString"
        = some (object (d.fields .messages "content" "mediaType")) := by
      simp [present?, Step.write, ha, Argument.field]
    have hn : Shape.trimmedAt? "contentType" (object (d.fields .messages "content" "mediaType"))
        = (none : Option Text).bind Text.trimmed? :=
      trimmedAt?_object (by simp [Doc.fields, place])
    obtain ⟨hl, hc, ht⟩ := doc_write .messages d "content" "mediaType" [] (by simp) (by simp)
      (by simp)
    rw [List.append_nil] at hl hc ht
    simp only [Shape.Messages.block, hr, hd, Option.map_some, Block.relined, DocString.relined,
      Argument.block, hl, hc, ht, hn, Option.bind_none, Option.or_none, id_eq]

lemma steps_write_messages {ss : List Step} {fs : List (String × Option Json)}
    (h : lastField? "steps" fs = some (listOf (Step.write .messages) ss)) :
    (Shape.Messages.steps (object fs)).map (FeatureTree.Step.relined id) = ss.map Step.step := by
  rw [Shape.Messages.steps, itemsAt_object h, List.map_map, List.map_map]
  exact List.map_congr_left fun s _ => step_write .messages s (block_write_messages s)

/-- Reading item by item what was written item by item. -/
lemma exists_mapM {read : Json → Except Error β} {write : α → Json} {e : β → γ} {m : α → γ}
    (h : ∀ x, ∃ y, read (write x) = .ok y ∧ e y = m x) (xs : List α) :
    ∃ ys, (xs.map write).mapM read = .ok ys ∧ ys.map e = xs.map m := by
  induction xs with
  | nil => exact ⟨[], rfl, rfl⟩
  | cons x xs ih =>
    obtain ⟨y, hy, hm⟩ := h x
    obtain ⟨ys, hys, hms⟩ := ih
    refine ⟨y :: ys, ?_, by simp [hm, hms]⟩
    rw [List.map_cons, List.mapM_cons, hy, hys]
    rfl

lemma typeOf_object {w : String} {fs : List (String × Option Json)}
    (h : lastField? "type" fs = some (.str w)) : Shape.typeOf (object fs) = .ok w := by
  simp [Shape.typeOf, strAt?, h, str?]

/-- The argument of a step is written as an object that is read back as the argument. -/
lemma argument_write {form : Form} (hf : form = .version3 ∨ form = .version4) (a : Argument) :
    ∃ fs b, a.field form = ("argument", some (object fs))
      ∧ Shape.Definitions.argument (object fs) = .ok b ∧ b.relined id = a.block := by
  cases a with
  | table rs =>
    have ht := table_write form rs [("type", some (.str "DataTable"))] (by simp) (by simp)
      (by simp)
    refine ⟨writeTable form rs ++ [("type", some (.str "DataTable"))], .table (Shape.table _),
      by rcases hf with rfl | rfl <;> rfl, ?_, congrArg Block.table ht⟩
    rw [Shape.Definitions.argument, typeOf_object (w := "DataTable") (by simp)]
    rfl
  | doc d =>
    obtain ⟨hl, hc, ht⟩ := doc_write form d "content" "contentType"
      [("type", some (.str "DocString"))] (by simp) (by simp) (by simp)
    obtain ⟨fs, hfs⟩ : ∃ fs, fs = d.fields form "content" "contentType"
      ++ [("type", some (.str "DocString"))] := ⟨_, rfl⟩
    rw [← hfs] at hl hc ht
    refine ⟨fs, .docString ⟨d.line, d.contentType.bind Text.trimmed?, d.content,
      some (object fs)⟩, by rcases hf with rfl | rfl <;> rw [hfs] <;> rfl, ?_, rfl⟩
    rw [Shape.Definitions.argument, typeOf_object (w := "DocString") (by simp [hfs]), ← hl, ← hc,
      ← ht]
    rfl

lemma step_write_definitions {form : Form} (hf : form = .version3 ∨ form = .version4) (s : Step) :
    ∃ y, Shape.Definitions.step (s.write form) = .ok y ∧ y.relined id = s.step := by
  have hk : textKey form = "text" := by rcases hf with rfl | rfl <;> rfl
  rcases ha : s.argument with _ | a
  · have hn : (s.write form).present? "argument" = none := by
      rcases hf with rfl | rfl <;> simp [present?, Step.write, ha, place, textKey]
    refine ⟨_, by rw [Shape.Definitions.step, hn]; rfl, ?_⟩
    rw [← hk]
    exact step_write form s (by simp [ha])
  · obtain ⟨fs, b, hfield, hread, hb⟩ := argument_write hf a
    have hs : (s.write form).present? "argument" = some (object fs) := by
      simp [present?, Step.write, ha, hfield]
    refine ⟨_, by rw [Shape.Definitions.step, hs]; simp only [hread]; rfl, ?_⟩
    rw [← hk]
    exact step_write form s (by simp [ha, hb])

lemma steps_write_definitions {form : Form} (hf : form = .version3 ∨ form = .version4)
    {ss : List Step} {fs : List (String × Option Json)}
    (h : lastField? "steps" fs = some (listOf (Step.write form) ss)) :
    ∃ ys, Shape.Definitions.steps (object fs) = .ok ys
      ∧ ys.map (FeatureTree.Step.relined id) = ss.map Step.step := by
  rw [Shape.Definitions.steps, itemsAt_object h]
  exact exists_mapM (step_write_definitions hf) ss

/-! ### Sections -/

/-- The keys of a head. -/
def headKeys : List String := ["line", "location", "keyword", "name", "description"]

lemma head_write (form : Form) (h : Head) (fs : List (String × Option Json))
    (hf : ∀ k ∈ headKeys, lastField? k fs = none) :
    Shape.line (object (h.fields form ++ fs)) = h.line
      ∧ Shape.keyword (object (h.fields form ++ fs)) = Text.trim h.keyword
      ∧ Shape.name (object (h.fields form ++ fs)) = Text.trim h.name
      ∧ Shape.description (object (h.fields form ++ fs)) = Text.normalise h.description := by
  simp only [headKeys, List.forall_mem_cons, List.not_mem_nil, false_implies, implies_true,
    and_true] at hf
  obtain ⟨hn, hl, hk, hm, hd⟩ := hf
  refine ⟨?_, ?_, ?_, ?_⟩
  · rw [Head.fields, List.append_assoc]
    exact line_object form _ (by simp [hn]) (by simp [hl])
  · rw [Shape.keyword, textAt_object (t := h.keyword) (by simp [Head.fields, hk])]
  · rw [Shape.name, textAt_object (t := h.name) (by simp [Head.fields, hm])]
  · rw [Shape.description, textAt_object (t := h.description) (by simp [Head.fields, hd])]

lemma background_write (form : Form) (b : Background) {parts : List String}
    {ss : List FeatureTree.Step}
    (hs : ss.map (FeatureTree.Step.relined id) = b.steps.map Step.step) :
    (Shape.background parts ss (b.write form)).relined id = b.background := by
  obtain ⟨hl, hk, hn, hd⟩ := head_write form b.head
    [typeField form .background, stepsField form b.steps]
    (by simp [headKeys, typeField, stepsField])
  simp [Shape.background, Background.write, FeatureTree.Background.relined, Background.background,
    hl, hk, hn, hd, hs]

lemma examples_write (form : Form) (x : Examples) {parts : List String}
    {rs : List FeatureTree.Row}
    (hr : rs.map (FeatureTree.Row.relined id) = (x.header.toList ++ x.body).map Row.row) :
    (Shape.examples parts rs (x.write form)).relined id = x.examples := by
  obtain ⟨hl, hk, hn, hd⟩ := head_write form x.head (tagsField form x.tags :: x.rowFields form)
    (by cases form <;> simp [headKeys, tagsField, Examples.rowFields])
  have ht : (Shape.tags (x.write form)).map (FeatureTree.Tag.relined id) = x.tags.map Tag.tag :=
    tags_write form x.tags (by cases form <;> simp [tagsField, Examples.rowFields])
  rw [← Examples.write] at hl hk hn hd
  simp only [Shape.examples, FeatureTree.Examples.relined, Examples.examples, hl, hk, hn, hd, ht,
    hr, id_eq]

lemma examples_write_elements (x : Examples) :
    (Shape.Elements.examples (x.write .version2)).relined id = x.examples := by
  refine examples_write .version2 x ?_
  have hr : (x.write .version2).itemsAt "rows"
      = (x.header.toList ++ x.body).map (Row.write .version2) :=
    itemsAt_object (by simp [tagsField, Examples.rowFields])
  rw [hr, rows_write]

/-- The header that is written apart is read as the first of the rows. -/
lemma examples_write_headed {form : Form} (hf : form ≠ .version2) (x : Examples) :
    (Shape.headedExamples (x.write form)).relined id = x.examples := by
  refine examples_write form x ?_
  have hfields : x.rowFields form = [("tableHeader", x.header.map (Row.write form)),
      ("tableBody", some (.listOf (Row.write form) x.body))] := by
    cases form <;> first | rfl | exact absurd rfl hf
  have hh : (x.write form).present? "tableHeader" = x.header.map (Row.write form) := by
    have hp : lastField? "tableHeader" (place form x.head.line) = none :=
      lastField?_place form _ (by simp) (by simp)
    cases hx : x.header <;>
      simp [present?, Examples.write, hfields, hx, Head.fields, tagsField, hp, Row.write]
  have hb : (x.write form).itemsAt "tableBody" = x.body.map (Row.write form) :=
    itemsAt_object (by simp [tagsField, hfields])
  rw [Shape.headedRows, hh, hb, ← rows_write form]
  cases x.header <;> simp

/-- A scenario is read right by every form that reads its steps right. -/
lemma scenario_write (form : Form) (s : Scenario) {parts : List String}
    {ss : List FeatureTree.Step}
    (hs : ss.map (FeatureTree.Step.relined id) = s.steps.map Step.step) :
    (FeatureTree.Test.scenario (Shape.scenario parts ss ((Test.scenario s).write form))).relined id
      = (Test.scenario s).test := by
  obtain ⟨hl, hk, hn, hd⟩ := head_write form s.head
    [typeField form .scenario, tagsField form s.tags, stepsField form s.steps]
    (by simp [headKeys, typeField, tagsField, stepsField])
  have ht : (Shape.tags ((Test.scenario s).write form)).map (FeatureTree.Tag.relined id)
      = s.tags.map Tag.tag :=
    tags_write form s.tags (by simp [typeField, tagsField, stepsField])
  simp only [Test.write] at ht ⊢
  simp only [Shape.scenario, FeatureTree.Test.relined, FeatureTree.Scenario.relined, Test.test, hl,
    hk, hn, hd, ht, hs, id_eq]

lemma outline_write (form : Form) (s : Scenario) (x : Examples) (xs : List Examples)
    {parts : List String} {ss : List FeatureTree.Step} {ys : List FeatureTree.Examples}
    (hs : ss.map (FeatureTree.Step.relined id) = s.steps.map Step.step)
    (hx : ys.map (FeatureTree.Examples.relined id) = (x :: xs).map Examples.examples) :
    (FeatureTree.Test.outline
      (Shape.outline parts ss ys ((Test.outline s x xs).write form))).relined id
      = (Test.outline s x xs).test := by
  obtain ⟨hl, hk, hn, hd⟩ := head_write form s.head
    [typeField form .outline, tagsField form s.tags, stepsField form s.steps,
      ("examples", some (.listOf (Examples.write form) (x :: xs)))]
    (by simp [headKeys, typeField, tagsField, stepsField])
  have ht : (Shape.tags ((Test.outline s x xs).write form)).map (FeatureTree.Tag.relined id)
      = s.tags.map Tag.tag :=
    tags_write form s.tags (by simp [typeField, tagsField, stepsField])
  simp only [Test.write] at ht ⊢
  simp only [Shape.outline, FeatureTree.Test.relined, FeatureTree.Outline.relined, Test.test, hl,
    hk, hn, hd, ht, hs, hx, id_eq]

/-! ### Children of a feature -/

/-- What a child means. -/
def Child.child : Child → Shape.Child
  | .background b => .background b.background
  | .test t => .test t.test

lemma examplesAt_write (form : Form) (s : Scenario) (x : Examples) (xs : List Examples) :
    ((Test.outline s x xs).write form).itemsAt "examples" = (x :: xs).map (Examples.write form) :=
  itemsAt_object (by simp [typeField, tagsField, stepsField])

lemma child_write_elements (c : Child) :
    ∃ y, Shape.Elements.child (c.write .version2) = .ok y ∧ y.bare = c.child := by
  rcases c with b | (s | ⟨s, x, xs⟩)
  · have hs : (Shape.Elements.steps (b.write .version2)).map (FeatureTree.Step.relined id)
        = b.steps.map Step.step := steps_write_elements (by simp [typeField, stepsField])
    have ht : Shape.typeOf (b.write .version2) = .ok "background" :=
      typeOf_object (by simp [typeField, stepsField])
    refine ⟨.background (Shape.background Shape.Elements.elementParts _ (b.write .version2)), ?_,
      congrArg Shape.Child.background (background_write .version2 b hs)⟩
    change Shape.Elements.child (b.write .version2) = _
    rw [Shape.Elements.child, ht]
    rfl
  · have hs : (Shape.Elements.steps ((Test.scenario s).write .version2)).map
        (FeatureTree.Step.relined id) = s.steps.map Step.step :=
      steps_write_elements (by simp [typeField, tagsField, stepsField])
    have ht : Shape.typeOf ((Test.scenario s).write .version2) = .ok "scenario" :=
      typeOf_object (by simp [typeField, tagsField, stepsField])
    refine ⟨.test (.scenario (Shape.scenario Shape.Elements.elementParts _
      ((Test.scenario s).write .version2))), ?_,
      congrArg Shape.Child.test (scenario_write .version2 s hs)⟩
    change Shape.Elements.child ((Test.scenario s).write .version2) = _
    rw [Shape.Elements.child, ht]
    rfl
  · have hs : (Shape.Elements.steps ((Test.outline s x xs).write .version2)).map
        (FeatureTree.Step.relined id) = s.steps.map Step.step :=
      steps_write_elements (by simp [typeField, tagsField, stepsField])
    have ht : Shape.typeOf ((Test.outline s x xs).write .version2) = .ok "scenario_outline" :=
      typeOf_object (by simp [typeField, tagsField, stepsField])
    have hx : (((x :: xs).map (Examples.write .version2)).map Shape.Elements.examples).map
        (FeatureTree.Examples.relined id) = (x :: xs).map Examples.examples := by
      simp [Function.comp_def, examples_write_elements]
    refine ⟨.test (.outline (Shape.outline Shape.Elements.elementParts _ _
      ((Test.outline s x xs).write .version2))), ?_,
      congrArg Shape.Child.test (outline_write .version2 s x xs hs hx)⟩
    change Shape.Elements.child ((Test.outline s x xs).write .version2) = _
    rw [Shape.Elements.child, ht, ← examplesAt_write]
    rfl

lemma examples_write_all {form : Form} (hf : form ≠ .version2) (xs : List Examples) :
    ((xs.map (Examples.write form)).map Shape.headedExamples).map (FeatureTree.Examples.relined id)
      = xs.map Examples.examples := by
  simp [Function.comp_def, examples_write_headed hf]

lemma definition_write {form : Form} (hf : form = .version3 ∨ form = .version4) (t : Test) :
    ∃ y, Shape.Definitions.definition (t.write form) = .ok y ∧ y.relined id = t.test := by
  rcases t with s | ⟨s, x, xs⟩
  · obtain ⟨ss, hread, hs⟩ : ∃ ss, Shape.Definitions.steps ((Test.scenario s).write form) = .ok ss
        ∧ ss.map (FeatureTree.Step.relined id) = s.steps.map Step.step :=
      steps_write_definitions hf (by simp [typeField, tagsField, stepsField])
    have ht : Shape.typeOf ((Test.scenario s).write form) = .ok "Scenario" :=
      typeOf_object (by rcases hf with rfl | rfl <;> simp [typeField, tagsField, stepsField])
    refine ⟨.scenario (Shape.scenario Shape.Definitions.definitionParts ss
      ((Test.scenario s).write form)), ?_, scenario_write form s hs⟩
    rw [Shape.Definitions.definition, hread, ht]
    rfl
  · obtain ⟨ss, hread, hs⟩ :
        ∃ ss, Shape.Definitions.steps ((Test.outline s x xs).write form) = .ok ss
        ∧ ss.map (FeatureTree.Step.relined id) = s.steps.map Step.step :=
      steps_write_definitions hf (by simp [typeField, tagsField, stepsField])
    have ht : Shape.typeOf ((Test.outline s x xs).write form) = .ok "ScenarioOutline" :=
      typeOf_object (by rcases hf with rfl | rfl <;> simp [typeField, tagsField, stepsField])
    have hv : form ≠ .version2 := by rcases hf with rfl | rfl <;> simp
    refine ⟨.outline (Shape.outline Shape.Definitions.definitionParts ss _
      ((Test.outline s x xs).write form)), ?_,
      outline_write form s x xs hs (examples_write_all hv (x :: xs))⟩
    rw [Shape.Definitions.definition, hread, ht, ← examplesAt_write]
    rfl

lemma background_write_definitions {form : Form} (hf : form = .version3 ∨ form = .version4)
    (b : Background) :
    ∃ y, Shape.Definitions.background (b.write form) = .ok y ∧ y.relined id = b.background := by
  obtain ⟨ss, hread, hs⟩ : ∃ ss, Shape.Definitions.steps (b.write form) = .ok ss
      ∧ ss.map (FeatureTree.Step.relined id) = b.steps.map Step.step :=
    steps_write_definitions hf (by simp [typeField, stepsField])
  refine ⟨Shape.background Shape.Definitions.definitionParts ss (b.write form), ?_,
    background_write form b hs⟩
  rw [Shape.Definitions.background, hread]
  rfl

lemma child_write_definitions (c : Child) :
    ∃ y, Shape.Definitions.child (c.write .version4) = .ok y ∧ y.bare = c.child := by
  rcases c with b | t
  · obtain ⟨y, hread, hy⟩ := background_write_definitions (.inr rfl) b
    have ht : Shape.typeOf (b.write .version4) = .ok "Background" :=
      typeOf_object (by simp [typeField, stepsField])
    have hc : Shape.Definitions.child (b.write .version4)
        = return .background (← Shape.Definitions.background (b.write .version4)) := by
      rw [Shape.Definitions.child, ht]
      rfl
    refine ⟨.background y, ?_, congrArg Shape.Child.background hy⟩
    change Shape.Definitions.child (b.write .version4) = _
    rw [hc, hread]
    rfl
  · obtain ⟨y, hread, hy⟩ := definition_write (.inr rfl) t
    have hc : Shape.Definitions.child (t.write .version4)
        = return .test (← Shape.Definitions.definition (t.write .version4)) := by
      cases t with
      | scenario s =>
        rw [Shape.Definitions.child, Test.write, typeOf_object (w := "Scenario")
          (by simp [typeField, tagsField, stepsField])]
        rfl
      | outline s x xs =>
        rw [Shape.Definitions.child, Test.write, typeOf_object (w := "ScenarioOutline")
          (by simp [typeField, tagsField, stepsField])]
        rfl
    refine ⟨.test y, ?_, congrArg Shape.Child.test hy⟩
    change Shape.Definitions.child (t.write .version4) = _
    rw [hc, hread]
    rfl

lemma child_write_messages (c : Child) :
    ∃ y, Shape.Messages.child (c.write .messages) = .ok y ∧ y.bare = c.child := by
  rcases c with b | (s | ⟨s, x, xs⟩)
  · have hs : (Shape.Messages.steps (b.write .messages)).map (FeatureTree.Step.relined id)
        = b.steps.map Step.step := steps_write_messages (by simp [typeField, stepsField])
    exact ⟨.background (Shape.background Shape.Messages.definitionParts _ (b.write .messages)),
      rfl, congrArg Shape.Child.background (background_write .messages b hs)⟩
  · have hs : (Shape.Messages.steps ((Test.scenario s).write .messages)).map
        (FeatureTree.Step.relined id) = s.steps.map Step.step :=
      steps_write_messages (by simp [typeField, tagsField, stepsField])
    have hx : ((Test.scenario s).write .messages).itemsAt "examples" = [] := by
      simp [itemsAt, Test.write, Head.fields, place, typeField, tagsField, stepsField]
    have ht : Shape.Messages.test ((Test.scenario s).write .messages)
        = .scenario (Shape.scenario Shape.Messages.definitionParts
          (Shape.Messages.steps ((Test.scenario s).write .messages))
          ((Test.scenario s).write .messages)) := by
      rw [Shape.Messages.test, hx]
    exact ⟨.test _, rfl, congrArg Shape.Child.test (ht ▸ scenario_write .messages s hs)⟩
  · have hs : (Shape.Messages.steps ((Test.outline s x xs).write .messages)).map
        (FeatureTree.Step.relined id) = s.steps.map Step.step :=
      steps_write_messages (by simp [typeField, tagsField, stepsField])
    have ht : Shape.Messages.test ((Test.outline s x xs).write .messages)
        = .outline (Shape.outline Shape.Messages.definitionParts
          (Shape.Messages.steps ((Test.outline s x xs).write .messages))
          (((x :: xs).map (Examples.write .messages)).map Shape.headedExamples)
          ((Test.outline s x xs).write .messages)) := by
      rw [Shape.Messages.test, examplesAt_write]
      rfl
    exact ⟨.test _, rfl, congrArg Shape.Child.test (ht ▸ outline_write .messages s x xs hs
      (examples_write_all (by simp) (x :: xs)))⟩

/-! ### Features and documents -/

lemma background?_bare (cs : List Shape.Child) :
    (Shape.Child.background? cs).map (FeatureTree.Background.relined id)
      = Shape.Child.background? (cs.map Shape.Child.bare) := by
  rw [Shape.Child.background?, Shape.Child.background?, ← List.getLast?_map, List.map_filterMap,
    List.filterMap_map]
  congr 2
  funext c
  cases c <;> rfl

lemma tests_bare (cs : List Shape.Child) :
    (Shape.Child.tests cs).map (FeatureTree.Test.relined id)
      = Shape.Child.tests (cs.map Shape.Child.bare) := by
  rw [Shape.Child.tests, Shape.Child.tests, List.map_filterMap, List.filterMap_map]
  congr 1
  funext c
  cases c <;> rfl

lemma background?_children (f : Feature) :
    Shape.Child.background? (f.children.map Child.child)
      = f.background.map Background.background := by
  have ht : f.tests.filterMap (fun _ => (none : Option FeatureTree.Background)) = [] := by
    simp
  cases h : f.background <;>
    simp [Shape.Child.background?, Feature.children, h, List.filterMap_map, Function.comp_def,
      Child.child, ht]

lemma tests_children (f : Feature) :
    Shape.Child.tests (f.children.map Child.child) = f.tests.map Test.test := by
  cases h : f.background <;>
    simp [Shape.Child.tests, Feature.children, h, List.filterMap_map, Function.comp_def,
      Child.child]

lemma feature_write (form : Form) (f : Feature) (parts : List String)
    {b : Option FeatureTree.Background} {ts : List FeatureTree.Test}
    (hb : b.map (FeatureTree.Background.relined id) = f.background.map Background.background)
    (hts : ts.map (FeatureTree.Test.relined id) = f.tests.map Test.test) :
    (Shape.feature parts b ts (f.write form)).relined id = f.feature := by
  obtain ⟨hl, hk, hn, hd⟩ := head_write form f.head (tagsField form f.tags :: f.partFields form)
    (by cases form <;> simp [headKeys, tagsField, Feature.partFields])
  have ht : (Shape.tags (f.write form)).map (FeatureTree.Tag.relined id) = f.tags.map Tag.tag :=
    tags_write form f.tags (by cases form <;> simp [tagsField, Feature.partFields])
  rw [← Feature.write] at hl hk hn hd
  simp only [Shape.feature, FeatureTree.Feature.relined, Feature.feature, hl, hk, hn, hd, ht, hb,
    hts, id_eq]

/-- A feature is read right by every form that reads its children right. -/
lemma feature_write_children (form : Form) (f : Feature) (parts : List String)
    {cs : List Shape.Child} (hc : cs.map Shape.Child.bare = f.children.map Child.child) :
    (Shape.feature parts (Shape.Child.background? cs) (Shape.Child.tests cs)
      (f.write form)).relined id = f.feature :=
  feature_write form f parts (by rw [background?_bare, hc, background?_children])
    (by rw [tests_bare, hc, tests_children])

lemma feature_write_elements (f : Feature) :
    ∃ y, Shape.Elements.feature (f.write .version2) = .ok y ∧ y.relined id = f.feature := by
  obtain ⟨cs, hread, hc⟩ := exists_mapM child_write_elements f.children
  have hi : (f.write .version2).itemsAt "elements" = f.children.map (Child.write .version2) :=
    itemsAt_object (by simp [tagsField, Feature.partFields])
  refine ⟨_, ?_, feature_write_children .version2 f ["elements", "tags", "comments"] hc⟩
  rw [Shape.Elements.feature, hi, hread]
  rfl

lemma feature_write_definitions3 (f : Feature) :
    ∃ y, Shape.Definitions.feature3 (f.write .version3) = .ok y ∧ y.relined id = f.feature := by
  have h3 : Form.version3 = .version3 ∨ Form.version3 = .version4 := .inl rfl
  obtain ⟨ts, hread, hts⟩ := exists_mapM (definition_write h3) f.tests
  have hi : (f.write .version3).itemsAt "scenarioDefinitions"
      = f.tests.map (Test.write .version3) :=
    itemsAt_object (by simp [tagsField, Feature.partFields])
  have hp : (f.write .version3).present? "background"
      = f.background.map (Background.write .version3) := by
    cases hb : f.background <;>
      simp [present?, Feature.write, Feature.partFields, hb, Head.fields, place, tagsField,
        Background.write]
  cases hb : f.background with
  | none =>
    refine ⟨_, ?_, feature_write .version3 f Shape.Definitions.featureParts (b := none)
      (by simp [hb]) hts⟩
    rw [Shape.Definitions.feature3, hp, hb, hi, hread]
    rfl
  | some b =>
    obtain ⟨y, hy, hbare⟩ := background_write_definitions h3 b
    refine ⟨_, ?_, feature_write .version3 f Shape.Definitions.featureParts (b := some y)
      (by simp [hb, hbare]) hts⟩
    rw [Shape.Definitions.feature3, hp, hb, Option.map_some, hi, hread]
    simp only [hy]
    rfl

lemma feature_write_definitions4 (f : Feature) :
    ∃ y, Shape.Definitions.feature4 (f.write .version4) = .ok y ∧ y.relined id = f.feature := by
  obtain ⟨cs, hread, hc⟩ := exists_mapM child_write_definitions f.children
  have hi : (f.write .version4).itemsAt "children" = f.children.map (Child.write .version4) :=
    itemsAt_object (by simp [tagsField, Feature.partFields])
  refine ⟨_, ?_, feature_write_children .version4 f Shape.Definitions.featureParts hc⟩
  rw [Shape.Definitions.feature4, hi, hread]
  rfl

lemma feature_write_messages (f : Feature) :
    ∃ y, Shape.Messages.feature (f.write .messages) = .ok y ∧ y.relined id = f.feature := by
  obtain ⟨cs, hread, hc⟩ := exists_mapM child_write_messages f.children
  have hi : (f.write .messages).itemsAt "children" = f.children.map (Child.write .messages) :=
    itemsAt_object (by simp [tagsField, Feature.partFields])
  refine ⟨_, ?_, feature_write_children .messages f ["children", "tags"] hc⟩
  rw [Shape.Messages.feature, hi, hread]
  rfl

/-- An object without the wrapper of messages goes by its type. -/
lemma detect_object {fs : List (String × Option Json)} {w : String} {p : Parsed}
    (hg : lastField? "gherkinDocument" fs = none) (ht : lastField? "type" fs = some (.str w))
    (hw : w = "GherkinDocument" ∧ p = .version4 (object fs)
      ∨ w = "Feature" ∧ p = .version3 (object fs)) :
    Parsed.detect (object fs) = .ok p := by
  rw [← get?_object] at hg ht
  obtain ⟨gs, hgs⟩ : ∃ gs, object fs = .obj gs := ⟨_, rfl⟩
  rw [hgs] at hg ht hw ⊢
  simp only [Parsed.detect, hg, strAt?, ht, bind, Option.bind, str?]
  rcases hw with ⟨rfl, rfl⟩ | ⟨rfl, rfl⟩ <;> rfl

/-- **The four forms agree.** Every form of a document is recognised for what it is, and reading
it gives, raw elements aside, the one feature that the draft means. -/
theorem detect_document (f : Feature) (form : Form) (name : Text) :
    ∃ p file y, Parsed.detect (f.document form) = .ok p ∧ p.shape = form.shape
      ∧ p.file name = .ok file ∧ file.feature = some y ∧ y.relined id = f.feature := by
  cases form with
  | version2 =>
    obtain ⟨y, hread, hy⟩ := feature_write_elements f
    have hfile : Shape.Elements.file (Locate.path? name) (.arr [f.write .version2])
        = .ok ⟨Locate.path? name, some y,
          (Shape.Elements.commentsBelow (f.write .version2)).mergeSort Shape.Elements.notAfter,
          none⟩ := by
      simp only [Shape.Elements.file, items, hread]
      rfl
    exact ⟨.version2 _, _, y, rfl, rfl, hfile, rfl, hy⟩
  | version3 =>
    obtain ⟨y, hread, hy⟩ := feature_write_definitions3 f
    have hfile : Shape.Definitions.file3 (Locate.path? name) (f.write .version3)
        = .ok ⟨Locate.path? name, some y, Shape.comments (f.write .version3), none⟩ := by
      rw [Shape.Definitions.file3, hread]
      rfl
    have hd : Parsed.detect (f.write .version3) = .ok (.version3 (f.write .version3)) :=
      detect_object (by simp [Head.fields, place, tagsField, Feature.partFields])
        (by simp [tagsField, Feature.partFields]) (.inr ⟨rfl, rfl⟩)
    exact ⟨.version3 _, _, y, hd, rfl, hfile, rfl, hy⟩
  | version4 =>
    obtain ⟨y, hread, hy⟩ := feature_write_definitions4 f
    obtain ⟨v, hv⟩ : ∃ v, v = f.document .version4 := ⟨_, rfl⟩
    have hp : v.present? "feature" = some (f.write .version4) := by
      simp [hv, Feature.document, present?, Feature.write]
    have hfile : Shape.Definitions.file4 (Locate.path? name) v
        = .ok ⟨Locate.path? name, some y, Shape.comments v,
          some (v.without ["feature", "comments"])⟩ := by
      rw [Shape.Definitions.file4, hp]
      simp only [hread]
      rfl
    have hd : Parsed.detect v = .ok (.version4 v) := by
      rw [hv]
      exact detect_object (by simp) (by simp) (.inl ⟨rfl, rfl⟩)
    exact ⟨.version4 v, _, y, hv ▸ hd, rfl, hfile, rfl, hy⟩
  | messages =>
    obtain ⟨y, hread, hy⟩ := feature_write_messages f
    obtain ⟨v, hv⟩ : ∃ v, v = object [("feature", some (f.write .messages))] := ⟨_, rfl⟩
    have hp : v.present? "feature" = some (f.write .messages) := by
      simp [hv, present?, Feature.write]
    have hfile : Shape.Messages.file (Locate.path? name) v
        = .ok ⟨Locate.path? name, some y, Shape.comments v,
          some (v.without ["feature", "comments"])⟩ := by
      rw [Shape.Messages.file, hp]
      simp only [hread]
      rfl
    exact ⟨.messages v, _, y, by rw [hv]; rfl, rfl, hfile, rfl, hy⟩

end Draft

end FeatureTree
