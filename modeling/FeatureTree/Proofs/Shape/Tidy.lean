import FeatureTree.Proofs.Document.Robust
import FeatureTree.Proofs.Shape.Vetting
import FeatureTree.Proofs.Source.Fences
import FeatureTree.Proofs.Text.Prose

/-!
Files are tidy, whatever they were read from.

Keywords, names, texts and content types are trimmed, tags start with an at sign and descriptions
have nothing to normalise. For the JSON forms this follows from what a file keeps of its document;
for a tree it is shown part by part. Which nodes a tidy tree is made of is said once for both.
-/

namespace FeatureTree

open Text

/-- The texts with which a part begins are trimmed and normalised. -/
structure Text.TidyHead (keyword name description : Text) : Prop where
  keyword : trim keyword = keyword
  name : trim name = name
  description : Normal description

namespace Node

/-- The texts of a node itself are trimmed and normalised. -/
def Tidy : Node → Prop
  | feature f => TidyHead f.keyword f.name f.description
  | background b => TidyHead b.keyword b.name b.description
  | scenario s => TidyHead s.keyword s.name s.description
  | outline o => TidyHead o.keyword o.name o.description
  | examples x => TidyHead x.keyword x.name x.description
  | step s => trim s.keyword = s.keyword ∧ trim s.text = s.text
  | docString d => ∀ type, d.contentType = some type → trim type = type ∧ type ≠ []
  | tag t => t.name.head? = some '@' ∧ trim t.name = t.name
  | comment c => trim c.text = c.text
  | _ => True

/-- A tidy node with nothing but tidy nodes below it. -/
abbrev AllTidy (n : Node) : Prop := Everywhere Tidy n

end Node

/-! ### Trimmed texts -/

lemma Text.tidyHead_trim (k n d : Text) : TidyHead (trim k) (trim n) (normalise d) :=
  ⟨trim_trim k, trim_trim n, normal_normalise d⟩

lemma Text.trim_of_trimmed? {t u : Text} (h : trimmed? t = some u) : trim u = u ∧ u ≠ [] := by
  unfold trimmed? at h
  split at h
  · simp at h
  · rename_i hne
    rw [← Option.some.inj h]
    exact ⟨trim_trim t, hne⟩

lemma Text.trim_tagName (t : Text) :
    (tagName t).head? = some '@' ∧ trim (tagName t) = tagName t := by
  have hat : isBlank '@' = false := by decide
  have hend : trimEnd (trim t) = trim t := trimEnd_eq_self_of_trim (trim_trim t)
  unfold tagName
  split
  · rename_i n hn
    exact ⟨rfl, hn ▸ trim_trim t⟩
  · refine ⟨rfl, trim_eq_self (trimStart_cons_of_not_blank _ hat) ?_⟩
    by_cases hnil : trim t = []
    · rw [hnil]
      exact trimEnd_append_of_not_blank [] hat
    · exact trimEnd_append_eq_self ['@'] hnil hend

/-! ### Tidy trees -/

namespace Node

lemma tidy_leaf {n : Node} (hleaf : n.children = []) (h : n.Tidy) : n.AllTidy :=
  .intro h (by simp [hleaf])

lemma tidy_row (r : Row) : AllTidy (.row r) := by
  refine .intro trivial fun c hc => ?_
  obtain ⟨x, -, rfl⟩ := List.mem_map.mp hc
  exact tidy_leaf rfl trivial

lemma tidy_step {s : Step} (hk : trim s.keyword = s.keyword) (ht : trim s.text = s.text)
    (hd : ∀ d, s.block = some (.docString d) → Tidy (.docString d)) : AllTidy (.step s) := by
  refine .intro ⟨hk, ht⟩ fun c hc => ?_
  obtain ⟨b, hb, rfl⟩ := List.mem_map.mp hc
  cases b with
  | docString d => exact tidy_leaf rfl (hd d (Option.mem_toList.mp hb))
  | table t =>
    refine .intro trivial fun c hc => ?_
    obtain ⟨r, -, rfl⟩ := List.mem_map.mp hc
    exact tidy_row r

lemma tidy_background {b : Background} (h : Tidy (.background b))
    (hs : ∀ s ∈ b.steps, AllTidy (.step s)) : AllTidy (.background b) := by
  refine .intro h fun c hc => ?_
  obtain ⟨s, hmem, rfl⟩ := List.mem_map.mp hc
  exact hs s hmem

lemma tidy_examples {x : Examples} (h : Tidy (.examples x)) (ht : ∀ t ∈ x.tags, Tidy (.tag t)) :
    AllTidy (.examples x) := by
  refine .intro h fun c hc => ?_
  rcases List.mem_append.mp hc with hc | hc
  · obtain ⟨t, hmem, rfl⟩ := List.mem_map.mp hc
    exact tidy_leaf rfl (ht t hmem)
  · obtain ⟨r, -, rfl⟩ := List.mem_map.mp hc
    exact tidy_row r

lemma tidy_scenario {s : Scenario} (h : Tidy (.scenario s)) (ht : ∀ t ∈ s.tags, Tidy (.tag t))
    (hs : ∀ x ∈ s.steps, AllTidy (.step x)) : AllTidy (.scenario s) := by
  refine .intro h fun c hc => ?_
  rcases List.mem_append.mp hc with hc | hc
  · obtain ⟨t, hmem, rfl⟩ := List.mem_map.mp hc
    exact tidy_leaf rfl (ht t hmem)
  · obtain ⟨x, hmem, rfl⟩ := List.mem_map.mp hc
    exact hs x hmem

lemma tidy_outline {o : Outline} (h : Tidy (.outline o)) (ht : ∀ t ∈ o.tags, Tidy (.tag t))
    (hs : ∀ s ∈ o.steps, AllTidy (.step s)) (hx : ∀ x ∈ o.examples, AllTidy (.examples x)) :
    AllTidy (.outline o) := by
  refine .intro h fun c hc => ?_
  simp only [children, List.mem_append, List.mem_map] at hc
  rcases hc with (⟨t, hmem, rfl⟩ | ⟨s, hmem, rfl⟩) | ⟨x, hmem, rfl⟩
  · exact tidy_leaf rfl (ht t hmem)
  · exact hs s hmem
  · exact hx x hmem

lemma tidy_feature {f : Feature} (h : Tidy (.feature f)) (ht : ∀ t ∈ f.tags, Tidy (.tag t))
    (hb : ∀ b ∈ f.background, AllTidy (.background b)) (hx : ∀ x ∈ f.tests, AllTidy x.node) :
    AllTidy (.feature f) := by
  refine .intro h fun c hc => ?_
  simp only [children, List.mem_append, List.mem_map, Option.mem_toList] at hc
  rcases hc with (⟨t, hmem, rfl⟩ | ⟨b, hmem, rfl⟩) | ⟨x, hmem, rfl⟩
  · exact tidy_leaf rfl (ht t hmem)
  · exact hb b hmem
  · exact hx x hmem

lemma tidy_file {file : FeatureFile} (h : ∀ f ∈ file.feature, AllTidy (.feature f)) :
    AllTidy (.featureFile file) := by
  refine .intro trivial fun c hc => ?_
  obtain ⟨f, hmem, rfl⟩ := List.mem_map.mp hc
  exact h f (Option.mem_toList.mp hmem)

end Node

/-! ### Files from JSON -/

open Node

variable {form : Form} {v : Json}

lemma Heading.tidy {line : Option Nat} {k n d : Text} (h : Heading v line k n d) :
    TidyHead k n d := by
  rw [h.keyword, h.name, h.description]
  exact tidyHead_trim _ _ _

lemma tidy_of_mem_tags {vs : List Json} {ts : List Tag} (h : List.Forall₂ Tag.Keeps vs ts) :
    ∀ t ∈ ts, Tidy (.tag t) := by
  intro t ht
  obtain ⟨w, -, hw⟩ := exists_mem_of_forall₂ h ht
  rw [Tidy, hw.name]
  exact trim_tagName _

lemma Comment.Keeps.tidy {c : Comment} (h : c.Keeps v) : Tidy (.comment c) := by
  rw [Tidy, h.text]
  exact trim_trim _

lemma Form.trim_of_contentType? {w : Json} {type : Text} (h : form.contentType? w = some type) :
    trim type = type ∧ type ≠ [] := by
  cases form with
  | messages =>
    rcases Option.or_eq_some_iff.mp h with h | ⟨-, h⟩
    · exact trim_of_trimmed? h
    · exact trim_of_trimmed? h
  | version2 => exact trim_of_trimmed? h
  | version3 => exact trim_of_trimmed? h
  | version4 => exact trim_of_trimmed? h

lemma Step.Keeps.tidy {s : Step} (h : s.Keeps form v) : AllTidy (.step s) := by
  refine tidy_step (h.keyword ▸ trim_trim _) (h.text ▸ trim_trim _) fun d hd type htype => ?_
  have hblock := h.block
  rw [hd] at hblock
  obtain ⟨-, w, -, -, -, hcontent⟩ := hblock
  exact form.trim_of_contentType? (hcontent ▸ htype)

lemma tidy_of_mem_steps {vs : List Json} {ss : List Step}
    (h : List.Forall₂ (Step.Keeps form) vs ss) : ∀ s ∈ ss, AllTidy (.step s) := by
  intro s hs
  obtain ⟨w, -, hw⟩ := exists_mem_of_forall₂ h hs
  exact hw.tidy

lemma Background.Keeps.tidy {b : Background} (h : b.Keeps form v) : AllTidy (.background b) :=
  tidy_background h.heading.tidy (tidy_of_mem_steps h.steps)

lemma Examples.Keeps.tidy {x : Examples} (h : x.Keeps form v) : AllTidy (.examples x) :=
  tidy_examples h.heading.tidy (tidy_of_mem_tags h.tags)

lemma Test.Keeps.tidy {p : Draft.Section × Json} {t : Test} (h : t.Keeps form p) :
    AllTidy t.node := by
  obtain ⟨_ | _ | _, w⟩ := p <;> cases t
  case scenario.scenario =>
    exact tidy_scenario h.heading.tidy (tidy_of_mem_tags h.tags) (tidy_of_mem_steps h.steps)
  case outline.outline =>
    refine tidy_outline h.heading.tidy (tidy_of_mem_tags h.tags) (tidy_of_mem_steps h.steps) ?_
    intro x hx
    obtain ⟨w, -, hw⟩ := exists_mem_of_forall₂ h.examples hx
    exact hw.tidy
  all_goals exact h.elim

lemma Feature.Keeps.tidy {f : Feature} (h : f.Keeps form v) : AllTidy (.feature f) := by
  refine tidy_feature h.heading.tidy (tidy_of_mem_tags h.tags) (fun b hb => ?_) fun t ht => ?_
  · obtain ⟨w, hw⟩ := exists_of_rel_right h.background hb
    exact hw.tidy
  · obtain ⟨s, -, hs⟩ := exists_mem_of_forall₂ h.tests ht
    exact hs.tidy

lemma tidy_of_mem_commentsBelow {v : Json} {c : Comment}
    (h : c ∈ Shape.Elements.commentsBelow v) : Tidy (.comment c) := by
  induction v using Shape.Elements.commentsBelow.induct with
  | case1 v ih =>
    rw [Shape.Elements.commentsBelow_eq] at h
    simp only [List.mem_append, List.mem_flatMap] at h
    rcases h with h | ⟨k, -, w, hw, h⟩
    · obtain ⟨u, -, hu⟩ := exists_mem_of_forall₂ (Shape.keeps_comments v) h
      exact hu.tidy
    · exact ih k ⟨w, hw⟩ h

lemma FeatureFile.Keeps.tidy {file : FeatureFile} (h : file.Keeps form v) :
    AllTidy (.featureFile file) ∧ ∀ c ∈ file.comments, Tidy (.comment c) := by
  refine ⟨tidy_file fun f hf => ?_, fun c hc => ?_⟩
  · obtain ⟨w, hw⟩ := exists_of_rel_right h.feature hf
    exact hw.tidy
  · have hcomments := h.comments
    split at hcomments
    · obtain ⟨f, -, hf⟩ := List.mem_flatMap.mp (hcomments.mem_iff.mp hc)
      exact tidy_of_mem_commentsBelow hf
    · obtain ⟨w, -, hw⟩ := exists_mem_of_forall₂ hcomments hc
      exact hw.tidy

/-! ### Located trees -/

lemma Source.trim_of_mem_commentsFrom {fence : Option Fence} {ls : List (Nat × Text)}
    {c : Located Text} (h : c ∈ commentsFrom fence ls) : trim c.value = c.value := by
  fun_induction commentsFrom fence ls with
  | case1 => simp at h
  | case2 _ _ _ _ ih => exact ih h
  | case3 _ _ _ _ _ ih => exact ih h
  | case4 n l ls _ _ ih =>
    rcases List.mem_cons.mp h with rfl | h
    · exact trim_trim l
    · exact ih h
  | case5 _ _ _ _ _ ih => exact ih h

namespace Locate

variable (fr : Frame)

lemma tidy_comments : ∀ c ∈ comments fr, Tidy (.comment c) := by
  intro c hc
  obtain ⟨u, hu, rfl⟩ := List.mem_map.mp hc
  exact Source.trim_of_mem_commentsFrom hu

lemma tidy_tags (names : List Text) (k : Nat) : ∀ t ∈ tags fr names k, Tidy (.tag t) := by
  intro t ht
  have hname : t.name ∈ names.map tagName := map_name_tags fr names k ▸ List.mem_map_of_mem ht
  obtain ⟨n, -, hn⟩ := List.mem_map.mp hname
  rw [Tidy, ← hn]
  exact trim_tagName n

lemma tidy_docString (k : Nat) (body : Text) : Tidy (.docString (docString fr k body)) := by
  intro type htype
  unfold docString at htype
  split at htype
  · rename_i d hd
    obtain ⟨f, _, opening, _, _, _, -, -, -, -, -, hvalue⟩ := Source.docString?_spec hd
    rw [hvalue] at htype
    exact trim_of_trimmed? htype
  · simp at htype

lemma tidy_step (g : Grammar.Step) : AllTidy (.step (step fr g)) := by
  refine Node.tidy_step (trim_trim _) (trim_trim _) fun d hd => ?_
  change block fr _ g = some (.docString d) at hd
  unfold block at hd
  split at hd
  · simp at hd
  · obtain ⟨body, -, hb⟩ := Option.map_eq_some_iff.mp hd
    rw [← Block.docString.inj hb]
    exact tidy_docString fr _ body

lemma tidy_steps (gs : List Grammar.Step) : ∀ s ∈ gs.map (step fr), AllTidy (.step s) := by
  intro s hs
  obtain ⟨g, -, rfl⟩ := List.mem_map.mp hs
  exact tidy_step fr g

lemma tidy_background (g : Grammar.Background) : AllTidy (.background (background fr g)) :=
  Node.tidy_background (tidyHead_trim _ _ _) (tidy_steps fr g.steps)

lemma tidy_examples (g : Grammar.Examples) : AllTidy (.examples (examples fr g)) :=
  Node.tidy_examples (tidyHead_trim _ _ _) (tidy_tags fr g.tags _)

lemma tidy_test (g : Grammar.Scenario) : AllTidy (test fr g).node := by
  unfold test
  simp only
  split
  · refine tidy_outline (tidyHead_trim _ _ _) (tidy_tags fr g.tags _) (tidy_steps fr g.steps) ?_
    intro x hx
    obtain ⟨y, -, rfl⟩ := List.mem_map.mp hx
    exact tidy_examples fr y
  · exact tidy_scenario (tidyHead_trim _ _ _) (tidy_tags fr g.tags _) (tidy_steps fr g.steps)

lemma tidy_feature {g : Grammar.Feature} {f : Feature} (h : feature fr g = .ok f) :
    AllTidy (.feature f) := by
  unfold feature at h
  split at h
  · rw [← Except.ok.inj h]
    refine Node.tidy_feature (tidyHead_trim _ _ _) (tidy_tags fr g.tags _) (fun b hb => ?_) ?_
    · obtain ⟨x, -, rfl⟩ := Option.map_eq_some_iff.mp hb
      exact tidy_background fr x
    · intro t ht
      obtain ⟨s, -, rfl⟩ := List.mem_map.mp ht
      exact tidy_test fr s
  · simp at h

lemma tidy_file {name : Text} {g : Option Grammar.Feature} {file : FeatureFile}
    (h : Locate.file fr name g = .ok file) :
    AllTidy (.featureFile file) ∧ ∀ c ∈ file.comments, Tidy (.comment c) := by
  cases g with
  | none =>
    rw [file_none] at h
    rw [← Except.ok.inj h]
    exact ⟨Node.tidy_file (by simp), tidy_comments fr⟩
  | some g =>
    rw [file_some] at h
    cases hf : feature fr g with
    | error e => simp [hf, Except.map] at h
    | ok f =>
      rw [hf] at h
      rw [← Except.ok.inj h]
      refine ⟨Node.tidy_file fun x hx => ?_, tidy_comments fr⟩
      rw [← Option.some.inj hx]
      exact tidy_feature fr hf

end Locate

/-- **Files are tidy.** Whatever a file was read from, everything in it is trimmed and
normalised. -/
theorem Parsed.file_tidy (p : Parsed) (name : Text) (file : FeatureFile)
    (h : p.file name = .ok file) :
    Node.Everywhere Node.Tidy (.featureFile file)
      ∧ ∀ c ∈ file.comments, Node.Tidy (.comment c) := by
  cases p with
  | version2 v => exact ((Form.vetted_file .version2 name v).of_ok h).tidy
  | version3 v => exact ((Form.vetted_file .version3 name v).of_ok h).tidy
  | version4 v => exact ((Form.vetted_file .version4 name v).of_ok h).tidy
  | messages v => exact ((Form.vetted_file .messages name v).of_ok h).tidy
  | tree g t => exact Locate.tidy_file _ h

/-- A document with blanks around all that it says. -/
def blankedDocument : Json :=
  .obj [("comments", .arr [.obj [("text", .str " # note ")]]),
    ("feature", .obj [("children", .arr [.obj [("scenario", .obj [("keyword", .str "Scenario"),
        ("steps", .arr [.obj [
          ("docString", .obj [("content", .str " a "), ("mediaType", .str " json ")]),
          ("keyword", .str "Given "), ("text", .str " x ")]])])]]),
      ("description", .str "\n   a  \n     b\n\n"), ("keyword", .str " Feature "),
      ("name", .str "\tn "), ("tags", .arr [.obj [("name", .str " t ")]])])]

theorem Parsed.file_tidy_blanked :
    ∃ file, Parsed.file [] (.messages blankedDocument) = .ok file
      ∧ file.feature.map Feature.description = some "a\n  b".toList
      ∧ Node.Everywhere Node.Tidy (.featureFile file)
      ∧ ∀ c ∈ file.comments, Node.Tidy (.comment c) :=
  ⟨_, rfl, by decide +kernel, file_tidy (.messages blankedDocument) [] _ rfl⟩

end FeatureTree
