import FeatureTree.Proofs.Node.Said
import FeatureTree.Proofs.RoundTrip.Written

/-!
Features are read as they were rendered.
-/

namespace FeatureTree

namespace RoundTrip

open Text Grammar Parse Render

variable {f : Feature} {D before after : List Text} {s : State}

/-! ### The lines of a feature -/

/-- The lines of a background below a feature, if there is one. -/
def backgroundLines (b : Option Background) : List Text :=
  (b.map fun b => [] :: indent 1 b.lines).getD []

lemma lines_feature (f : Feature) :
    f.lines = header f.tags f.keyword "Feature".toList f.name f.description
      ++ (backgroundLines f.background ++ f.tests.flatMap (testAt 1)) := by
  rw [Feature.lines, List.flatMap_append, List.flatMap_map, List.flatMap_map]
  cases f.background with
  | none => rfl
  | some b =>
    rw [backgroundLines, Option.toList_some, List.flatMap_singleton]
    rfl

lemma written_feature (hw : f.WellRead) (hf : f.Faithful) : Written f.lines := by
  obtain ⟨-, hbackground, htests⟩ := hf
  rw [lines_feature]
  refine (written_header hw.tags leading_feature hw.head _).append (Written.append ?_ ?_)
  · cases hb : f.background with
    | none => exact .nil
    | some b =>
      refine ((written_background (hw.background b hb) (hbackground b hb)).indent 1).below ?_
      simp [Text.indent, Background.lines, header_ne_nil]
  · refine .flatMap fun t ht => ?_
    obtain ⟨o, ho⟩ := htests.exists_of_mem ht
    have hlines := (written_test (hw.tests t ht) ho)
    obtain ⟨ts, kw, default, name, description, sts, es, -, hl, -⟩ := exists_parts (hw.tests t ht) ho
    refine (hlines.indent 1).below ?_
    simp [Text.indent, hl, testLines, header_ne_nil]

/-! ### The parts of a feature -/

lemma run_backgroundLines (o : Option Fence) (b : Option Background) :
    Fence.run o (backgroundLines b) = Fence.run o (b.toList.flatMap Background.lines) := by
  cases b with
  | none => rfl
  | some b =>
    have hempty := run_pass o []
    rw [List.nil_append, Fence.run_nil] at hempty
    have hlines : backgroundLines (some b) = [[]] ++ indent 1 b.lines := rfl
    rw [hlines, Fence.run_append, hempty, Fence.run_indent]
    simp

/-- No background is read where a test or the end of the text follows. -/
lemma background_none (hk : s.keywords = .en) (h : Starts sections s.rest) :
    background s = (none, s.on s.rest) := by
  have hword := h.atWord isWord_of_mem_sections
  have hkey : keyword Keywords.background s = (none, s) := by
    refine keyword_none ?_
    rw [hk]
    exact h.keyword?_eq_none hword (apart_sections _ (by simp))
      (isWord_of_subset fun w => by simp only [stops, List.mem_cons, List.mem_append]; grind)
  rw [background, bind_skip hword.skipComments, bind_skip hword.skipSpaces, bind_some (mark_run s),
    bind_none hkey]
  rfl

/-- The background of a feature is read, if there is one. -/
lemma optionalBackground_run {b : Option Background} (hD : ∀ l ∈ D, '\n' ∉ l)
    (hw : ∀ x, b = some x → x.WellRead) (hf : ∀ x ∈ b, x.Faithful (Fence.run none before))
    (hat : At D s before (backgroundLines b ++ after)) (hlast : s.last = none)
    (hstop : Starts sections (ahead (before ++ backgroundLines b) after)) :
    Starts ("@" :: featureWords .en) s.rest ∧ ∃ x, optional background s
        = (some x, s.on (ahead (before ++ backgroundLines b) after))
      ∧ ∀ fr : Frame, fr.source = Source.ofText (unlines D) →
        (x.map (Locate.background fr)).map (Background.relined nowhere)
          = b.map (Background.relined nowhere) := by
  cases b with
  | none =>
    have hs : s.rest = ahead (before ++ backgroundLines none) after := by
      rw [hat.rest]
      simp [backgroundLines]
    rw [← hs] at hstop ⊢
    have hnone := background_none hat.keywords hstop
    refine ⟨hstop.tests.of_subset fun w => ?_, none, optional_none hnone, fun _ _ => rfl⟩
    simp only [featureWords, List.mem_cons, List.mem_append]
    grind
  | some b =>
    have hplaced : before ++ backgroundLines (some b) = before ++ [[]] ++ indent 1 b.lines := by
      simp [backgroundLines]
    have hat' : At D s (before ++ [[]]) (indent 1 b.lines ++ after) := At.pass hat
    rw [hplaced] at hstop ⊢
    have hbw := hw b rfl
    obtain ⟨x, hx, hsaid⟩ := background_run hD hbw (by rw [run_pass]; exact hf b rfl) hat' hlast hstop
    refine ⟨?_, some x, optional_some hx, fun fr hfr => congrArg some (hsaid fr hfr)⟩
    rw [hat'.rest, Background.lines, indent_append, List.append_assoc]
    refine (starts_header (by simp) leading_background hbw.head _).of_subset fun w => ?_
    simp only [featureWords, List.mem_cons, List.mem_append]
    grind

/-- No rules are read at the end of the text. -/
lemma rules_end (hk : s.keywords = .en) (hs : s.rest = []) : rules s = (some [], s) := by
  have hword : AtWord s.rest := hs ▸ atWord_nil
  have hkey : keyword Keywords.rule s = (none, s.on s.rest) :=
    keyword_none (by rw [hk, hs]; exact keyword?_nil leading_rule)
  have hrule : rule s = (none, s.on s.rest) := by
    rw [rule, bind_skip hword.skipSpaces, bind_some (tags_nil hs), bind_skip hword.skipSpaces,
      bind_none hkey]
  rw [rules, bind_skip hword.skipSpaces]
  exact spaced_of_reads (.nil hword hrule)

lemma featureWords_facts : ∀ w ∈ "@" :: featureWords .en, isWord w = true ∧ '\n' ∉ w.toList := by
  refine fun w hw => stops_facts w ?_
  simp only [featureWords, stops, stepWords, List.mem_cons, List.mem_append] at hw ⊢
  grind

/-- What a feature of the tree says once it is located. -/
def SaysFeature (D : List Text) (x : Grammar.Feature) (f : Feature) : Prop :=
  ∀ fr : Frame, fr.source = Source.ofText (unlines D) →
    ∃ f', Locate.feature fr x = .ok f' ∧ f'.relined nowhere = f.relined nowhere

/-- A feature is read up to the end of the text, if its background and its tests are. -/
lemma feature_parts {b : Option Grammar.Background} {xs : List Grammar.Scenario} {s₁ : State}
    (hts : ∀ t ∈ f.tags, t.WellRead)
    (h : Headed Keywords.en.feature f.keyword f.name f.description) (default : Text)
    (hf : FaithfulDescription (featureWords .en) none f.description)
    (hat : At D s [] (header f.tags f.keyword default f.name f.description ++ after))
    (hlang : ∃ r, language s = (none, s.on r))
    (hstop : Starts ("@" :: featureWords .en)
      (ahead (header f.tags f.keyword default f.name f.description) after))
    (hb : optional background
      (s.on (ahead (header f.tags f.keyword default f.name f.description) after)) = (some b, s₁))
    (hsaidB : ∀ fr : Frame, fr.source = Source.ofText (unlines D) →
      (b.map (Locate.background fr)).map (Background.relined nowhere)
        = f.background.map (Background.relined nowhere))
    (hxs : Reads AtWord scenario s₁ xs (s.on [])) (hsaid : List.Forall₂ (SaysTest D) xs f.tests) :
    ∃ y, feature s = (some y, s.on []) ∧ SaysFeature D y f := by
  set hd := header [] f.keyword default f.name f.description with hhd
  have hplaced : [] ++ indent 0 (tagLine f.tags) ++ indent 0 hd
      = header f.tags f.keyword default f.name f.description := by
    rw [indent_zero, indent_zero]
    rfl
  -- the tags
  have hat₀ : At D s [] (indent 0 (header f.tags f.keyword default f.name f.description) ++ after) := by
    rwa [indent_zero]
  obtain ⟨hword, names, u, htags, hnames, -, hu⟩ :=
    tagged_run hts leading_feature h default hat₀.rest
  rw [hu rfl] at htags
  -- the header
  have hat₁ : At D s [] (indent 0 (tagLine f.tags) ++ (indent 0 hd ++ after)) := by
    rw [← List.append_assoc, ← indent_append]
    exact hat₀
  have hrun : Fence.run none ([] ++ indent 0 (tagLine f.tags)) = none := run_tagLine none 0 hts
  obtain ⟨v, s', d, hkey, hname, hd', hnormal⟩ := header_run (f := Keywords.feature)
    (g := featureWords) leading_feature h default (clear_of_mem _ (by simp [headKeywords]))
    h.keyword (by rwa [hrun]) featureWords_facts hat₁.move (by rwa [hplaced])
  rw [hplaced, State.on_on] at hd'
  -- what stands below it
  have hscenarios : scenarios s₁ = (some xs, s.on []) :=
    (bind_skip hxs.holds.skipSpaces).trans (spaced_of_reads hxs)
  have hend : skipLineEnds (s.on []).rest = (s.on []).rest := atWord_nil.skipLineEnds
  have hrules : rules (s.on []) = (some [], s.on []) := rules_end hat.keywords rfl
  obtain ⟨r, hr⟩ := hlang
  have hall : ∃ y : Grammar.Feature, feature s = (some y, s.on []) ∧ y.keyword = f.keyword
      ∧ y.name = f.name ∧ y.description = d ∧ y.tags = names ∧ y.background = b
      ∧ y.scenarios = xs ∧ y.rules = [] := by
    rw [feature, bind_skip hword.skipSpaces, bind_some (optional_none hr),
      bind_skip hword.skipLineEnds, bind_some htags, bind_some (mark_run _), bind_some hkey,
      bind_some hname, bind_some hd', bind_some hb, bind_skip hxs.holds.skipLineEnds,
      bind_some hscenarios, bind_skip hend, bind_some hrules, bind_some (mark_run _),
      bind_skip hend]
    exact ⟨_, rfl, rfl, rfl, rfl, rfl, rfl, rfl, rfl⟩
  obtain ⟨y, hy, hyk, hyn, hyd, hyt, hyb, hys, hyr⟩ := hall
  refine ⟨y, hy, fun fr hfr => ?_⟩
  have hlocated : (y.scenarios.map (Locate.test fr)).map (Test.relined nowhere)
      = f.tests.map (Test.relined nowhere) := by
    rw [hys, List.map_map]
    exact map_eq_of_forall₂ hsaid fun x t hx => hx fr hfr
  rw [Locate.feature, hyr]
  refine ⟨_, rfl, ?_⟩
  simp only [Feature.relined, hyk, hyn, hyd, hyt, hyb, hnormal, map_tags hnames, hsaidB fr hfr,
    hlocated, trim_keyword leading_feature h, h.name.1, nowhere]

/-- **A rendered feature is read**, up to the end of the text. -/
lemma feature_run (hw : f.WellRead) (hf : f.Faithful) (hat : At f.lines s [] f.lines)
    (hlang : ∃ r, language s = (none, s.on r)) (hlast : s.last = none) :
    ∃ x, feature s = (some x, s.on []) ∧ SaysFeature f.lines x f := by
  have hD := (written_feature hw hf).newline
  obtain ⟨hdescription, hbackground, htests⟩ := hf
  set tests := f.tests.flatMap (testAt 1) with htestLines
  set hd := header f.tags f.keyword "Feature".toList f.name f.description with hhd
  have hat₁ : At f.lines s [] (hd ++ (backgroundLines f.background ++ tests)) := by
    rw [hhd, htestLines, ← lines_feature]
    exact hat
  have hat₂ : At f.lines (s.on (ahead hd (backgroundLines f.background ++ tests))) hd
      (backgroundLines f.background ++ tests) := hat₁.move
  have hrun : Fence.run none hd = Fence.run none (descriptionLines f.description) := by
    rw [← run_tagged none 0 hw.tags leading_feature hw.head "Feature".toList, indent_zero]
  have hnext := testOrEnd_tests hw.tests htests (hd ++ backgroundLines f.background) 1
  obtain ⟨hstarts, b, hb, hsaidB⟩ := optionalBackground_run hD hw.background
    (by rw [hrun]; exact hbackground) hat₂ hlast hnext.starts
  obtain ⟨xs, hxs, hsaid⟩ := reads_tests hD hw.tests
    (by rw [Fence.run_append, hrun, run_backgroundLines]; exact htests) hat₂.move hlast
  exact feature_parts hw.tags hw.head _ hdescription hat₁ hlang hstarts hb hsaidB hxs hsaid

end RoundTrip

end FeatureTree
