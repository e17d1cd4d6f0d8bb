import FeatureTree.Fragment.Read
import FeatureTree.Proofs.Dialect.English
import FeatureTree.Proofs.Document.Header
import FeatureTree.Proofs.Grammar.Blocks
import FeatureTree.Proofs.Grammar.Finds

/-!
Every part that is read from an English text is well read.

The rules of the grammar are taken one by one, each with what the part that it finds is once it is
located in a text. The type of the last step is known between the rules: there is none outside of
steps, which is why no conjunction comes first.
-/

namespace FeatureTree.Grammar

open Text Parse

variable {L M : Option StepType → Prop}

/-- A table of the tree: at least one row, all of one width, with trimmed cells. -/
def Table.Even (t : Table) : Prop :=
  t.rows ≠ [] ∧ ∃ w, ∀ r ∈ t.rows, r.length = w ∧ ∀ c ∈ r, trim c = c

lemma finds_docString : Finds L L docString fun _ => True :=
  (Finds.orElse (Finds.read fun _ _ _ _ => trivial) (Finds.read fun _ _ _ _ => trivial)).bind
    fun _ _ => Finds.pure trivial

lemma finds_table : Finds L L table Table.Even := by
  refine Finds.mark.bind fun start _ => (Finds.skip _).bind fun _ _ =>
    (Finds.spaced1 (Finds.read fun _ _ _ => trim_of_mem_row?)).bind fun rows hrows =>
    Finds.mark.bind fun stop _ => ?_
  dsimp only
  split
  · exact Finds.reject
  · rename_i hwidth
    refine (Finds.span start stop).bind fun _ _ => (Finds.position start).bind fun _ _ =>
      Finds.pure ⟨by simpa using hrows.1, (rows.headD []).length, fun r hr => ?_⟩
    obtain ⟨q, hq, rfl⟩ := List.mem_map.mp hr
    have hge : ¬ q.length < (rows.headD []).length := by
      intro hlt
      exact hwidth (List.any_eq_true.mpr ⟨q, hq, by simpa using hlt⟩)
    exact ⟨by rw [List.length_take]; omega, fun c hc => hrows.2 q hq c (List.mem_of_mem_take hc)⟩

/-! ### Steps -/

/-- A step with one of some keywords that is well read wherever it is located. -/
def Step.WellRead (words : List String) (s : Step) : Prop :=
  (∀ t n, (Locate.step ⟨Source.ofText t, n⟩ s).WellRead) ∧ s.keyword ∈ words.map String.toList

lemma finds_stepWith {f : Keywords → List String}
    (hf : f ∈ stepKeywords)
    {type : Parse StepType} {T : Prop} (htype : Finds L L type fun _ => T) :
    Finds L (fun _ => True) (stepWith f type) fun s => T ∧ Step.WellRead (f .en) s := by
  refine Finds.mark.bind fun start _ => (Finds.keyword f).bind fun keyword hk =>
    (Finds.skip _).bind fun _ _ =>
    (Finds.read fun _ _ _ => newline_not_mem_of_lineText?).bind fun value hv =>
    Finds.mark.bind fun stop _ => (Finds.skip _).bind fun _ _ => (Finds.expect _).bind fun _ _ =>
    (Finds.skip _).bind fun _ _ => finds_docString.optional.bind fun docString _ =>
    finds_table.optional.bind fun table htable => htype.bind fun ty hT => ?_
  refine Finds.of_total (fun _ => rfl) fun s hs =>
    ⟨⟨hT, fun t n => ⟨?_, ?_, ?_⟩, hk⟩, hs.1, trivial⟩
  · exact trim_stepKeyword f hf _ hk
  · exact title_trim fun hn => hv (mem_of_mem_trimEnd hn)
  · intro b hb
    change Locate.block _ _ _ = some b at hb
    rw [Locate.block] at hb
    split at hb
    · rename_i tb htb
      obtain ⟨hne, w, hw⟩ := htable tb htb
      rw [← Option.some.inj hb]
      exact Locate.rows_even _ hne hw
    · obtain ⟨body, -, rfl⟩ := Option.map_eq_some_iff.mp hb
      exact Locate.docString_typeFits t n _ body

/-- A step. Where a conjunction cannot find its type, none is found. -/
lemma finds_step {T : Prop} (hlast : Finds L L last fun _ => T) :
    Finds L (fun _ => True) step fun s => (∀ t n, (Locate.step ⟨Source.ofText t, n⟩ s).WellRead)
      ∧ (T ∨ trim s.keyword ∉ FeatureTree.Step.conjunctions.map String.toList) := by
  have plain : ∀ {f : Keywords → List String} {ty : StepType},
      f ∈ [Keywords.stepGiven, Keywords.stepWhen, Keywords.stepThen] →
      Finds L (fun _ => True) (stepWith f (pure ty)) fun s =>
        (∀ t n, (Locate.step ⟨Source.ofText t, n⟩ s).WellRead)
          ∧ (T ∨ trim s.keyword ∉ FeatureTree.Step.conjunctions.map String.toList) := by
    intro f ty hf
    refine (finds_stepWith (by simp [stepKeywords] at hf ⊢; tauto) (Finds.pure trivial)).mono ?_
    rintro s ⟨-, hs, hk⟩
    exact ⟨hs, .inr (not_mem_conjunctions _ hf _ hk)⟩
  have conjunction : ∀ {f : Keywords → List String},
      f ∈ [Keywords.stepAnd, Keywords.stepBut] →
      Finds L (fun _ => True) (stepWith f last) fun s =>
        (∀ t n, (Locate.step ⟨Source.ofText t, n⟩ s).WellRead)
          ∧ (T ∨ trim s.keyword ∉ FeatureTree.Step.conjunctions.map String.toList) := by
    intro f hf
    refine (finds_stepWith (by simp [stepKeywords] at hf ⊢; tauto) hlast).mono ?_
    rintro s ⟨hT, hs, -⟩
    exact ⟨hs, .inl hT⟩
  exact ((Finds.skip _).bind fun _ _ => plain (by simp)).orElse <|
    (plain (by simp)).orElse <| (plain (by simp)).orElse <|
    (conjunction (by simp)).orElse (conjunction (by simp))

/-- The steps of a section. -/
lemma finds_steps : Finds (· = none) (· = none) steps fun ss =>
    ∀ t n, FeatureTree.Step.Sequence (ss.map (Locate.step ⟨Source.ofText t, n⟩)) := by
  have later := (Finds.many ((Finds.skip skipSpaces).bind fun _ _ =>
    finds_step (T := True) Finds.last))
  have sequence : Finds (· = none) (fun _ => True) (spaced step) fun ss =>
      ∀ t n, FeatureTree.Step.Sequence (ss.map (Locate.step ⟨Source.ofText t, n⟩)) := by
    refine Finds.orElse ?_ ((Finds.pure fun t n => ⟨by simp, by simp⟩).weaken fun _ _ => trivial)
    refine (finds_step (T := False) Finds.last_of_none).bind_total (fun s hs => ?_) fun _ _ => by
      simp [bind_run, many]
    refine later.bind fun ss hss => Finds.pure fun t n => ⟨?_, ?_⟩
    · simp only [List.map_cons, List.forall_mem_cons, List.forall_mem_map]
      exact ⟨hs.1 t n, fun r hr => (hss r hr).1 t n⟩
    · rintro r hr
      rw [← Option.some.inj hr]
      exact hs.2.resolve_left id
  refine sequence.bind_total (fun ss hss => ?_) fun _ _ => by simp [bind_run, setLast]
  exact Finds.of_total (fun _ => rfl) fun s hs => ⟨hss, hs.1, rfl⟩

/-! ### Sections -/

lemma finds_descriptionLine (f : Keywords → List String) :
    Finds L L (descriptionLine f) fun _ => True :=
  (Finds.skip _).bind fun _ _ => (Finds.refuse _).bind fun _ _ => (Finds.words f).bind fun _ _ =>
    (Finds.refuse _).bind fun _ _ => (Finds.skip _).bind fun _ _ =>
    (Finds.read fun _ _ _ _ => trivial).bind fun _ _ => (Finds.expect _).bind fun _ _ =>
    Finds.pure trivial

lemma finds_description (f : Keywords → List String) : Finds L L (description f) fun _ => True :=
  (finds_descriptionLine f).spaced.bind fun _ _ => (Finds.skip _).bind fun _ _ => Finds.pure trivial

lemma finds_name : Finds L L name fun n => '\n' ∉ n := by
  refine (Finds.expect _).bind fun _ _ => (Finds.skip _).bind fun _ _ =>
    (Finds.read fun _ _ _ => newline_not_mem_of_lineText?).optional.bind fun n hn =>
    (Finds.skip _).bind fun _ _ => (Finds.expect _).bind fun _ _ => Finds.pure fun h => ?_
  cases n with
  | none => simp at h
  | some n => exact hn n rfl (mem_of_mem_trimEnd h)

lemma finds_tags : Finds L L tags fun ts => ∀ t ∈ ts, TagWord t := by
  refine (Finds.read fun _ _ _ => tagWord_of_tag?).optional.bind fun first hfirst => ?_
  have later : Finds L L (many do skip skipLayout; read tag?) fun ts => ∀ t ∈ ts, TagWord t :=
    Finds.many ((Finds.skip _).bind fun _ _ => Finds.read fun _ _ _ => tagWord_of_tag?)
  have ended : ∀ ts : List Text, (∀ t ∈ ts, TagWord t) →
      Finds L L (do skip skipSpaces; skip skipLineEnds; return ts) fun ts => ∀ t ∈ ts, TagWord t :=
    fun ts hts => (Finds.skip _).bind fun _ _ => (Finds.skip _).bind fun _ _ => Finds.pure hts
  cases first with
  | none => exact ended [] (by simp)
  | some t =>
    refine (later.bind fun ts hts => Finds.pure ?_).bind ended
    simpa using ⟨hfirst t rfl, hts⟩

lemma headed_located {ws : List String} (hws : Leading ws) {keyword name : Text}
    (hk : keyword ∈ ws.map String.toList) (hn : '\n' ∉ name)
    (description : Text) : Headed ws (trim keyword) (trim name) (normalise description) :=
  ⟨(hws keyword hk).2.2.2.symm ▸ hk, title_trim hn, exists_prose description⟩

lemma finds_background : Finds (· = none) (· = none) background fun b =>
    ∀ t n, (Locate.background ⟨Source.ofText t, n⟩ b).WellRead := by
  refine (Finds.skip _).bind fun _ _ => (Finds.skip _).bind fun _ _ => Finds.mark.bind fun start _ =>
    (Finds.keyword _).bind fun keyword hk => finds_name.bind fun name hn =>
    (finds_description _).bind fun d _ => finds_steps.bind fun ss hss =>
    Finds.mark.bind fun stop _ => (Finds.span start stop).bind fun _ _ =>
    (Finds.position start).bind fun _ _ => Finds.pure fun t n => ⟨?_, hss t n⟩
  exact headed_located leading_background hk hn d

lemma finds_examples : Finds L L examples fun x =>
    ∀ t n, (Locate.examples ⟨Source.ofText t, n⟩ x).WellRead := by
  refine (Finds.skip _).bind fun _ _ => (Finds.skip _).bind fun _ _ =>
    finds_tags.bind fun ts hts => (Finds.skip _).bind fun _ _ => Finds.mark.bind fun start _ =>
    (Finds.keyword _).bind fun keyword hk => finds_name.bind fun name hn =>
    (finds_description _).bind fun d _ => finds_table.optional.bind fun table htable =>
    Finds.mark.bind fun stop _ => (Finds.span start stop).bind fun _ _ =>
    (Finds.position start).bind fun _ _ => Finds.pure fun t n => ⟨?_, ?_, ?_⟩
  · exact headed_located leading_examples hk hn d
  · exact Locate.tags_wellRead _ hts _
  · cases table with
    | none => exact ⟨0, by simp [Locate.examples]⟩
    | some tb =>
      obtain ⟨hne, w, hw⟩ := htable tb rfl
      exact (Locate.rows_even _ hne hw).2

/-- A scenario of the tree whose parts are well read wherever they are located. -/
structure Scenario.WellRead (words : List String) (s : Scenario) : Prop where
  keyword : s.keyword ∈ words.map String.toList
  name : '\n' ∉ s.name
  tags : ∀ t ∈ s.tags, TagWord t
  steps : ∀ t n, FeatureTree.Step.Sequence (s.steps.map (Locate.step ⟨Source.ofText t, n⟩))
  examples : ∀ x ∈ s.examples, ∀ t n, (Locate.examples ⟨Source.ofText t, n⟩ x).WellRead

lemma finds_scenarioWith (f : Keywords → List String) :
    Finds (· = none) (· = none) (scenarioWith f) (Scenario.WellRead (f .en)) :=
  (Finds.skip _).bind fun _ _ => (Finds.skip _).bind fun _ _ =>
    finds_tags.bind fun _ hts => (Finds.skip _).bind fun _ _ => Finds.mark.bind fun start _ =>
    (Finds.keyword _).bind fun _ hk => finds_name.bind fun _ hn =>
    (finds_description _).bind fun _ _ => finds_steps.bind fun _ hss =>
    finds_examples.many.bind fun _ hxs => Finds.mark.bind fun stop _ =>
    (Finds.span start stop).bind fun _ _ => (Finds.position start).bind fun _ _ =>
    Finds.pure ⟨hk, hn, hts, hss, hxs⟩

lemma finds_scenario : Finds (· = none) (· = none) scenario
    (Scenario.WellRead (Keywords.en.scenario ++ Keywords.en.outline)) := by
  refine ((finds_scenarioWith _).mono fun s hs => ?_).orElse
    ((finds_scenarioWith _).mono fun s hs => ?_)
  · exact { hs with keyword := by simp only [List.map_append, List.mem_append]; exact .inl hs.keyword }
  · exact { hs with keyword := by simp only [List.map_append, List.mem_append]; exact .inr hs.keyword }

/-- A test with examples, or with the keyword of an outline, is located as an outline. -/
lemma isOutline_iff {x : Scenario}
    (h : x.keyword ∈ (Keywords.en.scenario ++ Keywords.en.outline).map String.toList) :
    Locate.isOutline x = true
      ↔ x.examples ≠ [] ∨ x.keyword ∈ Keywords.en.outline.map String.toList := by
  rw [← mentions_outline _ h]
  simp [Locate.isOutline, or_assoc]

lemma test_wellRead {s : Scenario}
    (h : s.WellRead (Keywords.en.scenario ++ Keywords.en.outline)) (t : Text) (n : Nat) :
    (Locate.test ⟨Source.ofText t, n⟩ s).WellRead := by
  have htrim : trim s.keyword = s.keyword := (leading_tests _ h.keyword).2.2.2
  have hsay := isOutline_iff h.keyword
  rw [Locate.test]
  split
  · rename_i hout
    refine ⟨headed_located leading_tests h.keyword h.name _, Locate.tags_wellRead _ h.tags _, h.steps t n,
      ?_, ?_⟩
    · simpa using fun x hx => h.examples x hx t n
    · intro hnil
      have hnil : s.examples = [] := List.map_eq_nil_iff.mp hnil
      simp only [htrim]
      exact (hsay.mp hout).resolve_left fun hne => hne hnil
  · rename_i hout
    have hk := h.keyword
    rw [List.map_append, List.mem_append] at hk
    have hscenario : s.keyword ∈ Keywords.en.scenario.map String.toList :=
      hk.resolve_right fun hmem => hout (hsay.mpr (.inr hmem))
    exact ⟨headed_located leading_scenario hscenario h.name _, Locate.tags_wellRead _ h.tags _,
      h.steps t n⟩

/-! ### The feature -/

lemma finds_scenarios : Finds (· = none) (· = none) scenarios fun ss =>
    ∀ s ∈ ss, ∀ t n, (Locate.test ⟨Source.ofText t, n⟩ s).WellRead :=
  (Finds.skip _).bind fun _ _ => (finds_scenario.mono fun _ => test_wellRead).spaced

lemma finds_rule : Finds (· = none) (· = none) rule fun _ => True :=
  (Finds.skip _).bind fun _ _ => finds_tags.bind fun _ _ => (Finds.skip _).bind fun _ _ =>
    (Finds.keyword _).bind fun _ _ => finds_name.bind fun _ _ =>
    (finds_description _).bind fun _ _ => finds_background.optional.bind fun _ _ =>
    (Finds.skip _).bind fun _ _ => finds_scenarios.bind fun _ _ =>
    (Finds.skip _).bind fun _ _ => Finds.pure trivial

/-- A feature without a language header is well read wherever it is located. -/
lemma feature_wellRead {s s₁ : State} {f : Feature} (hs : English (· = none) s₁)
    (hlang : language { s with rest := skipSpaces s.rest } = (none, s₁))
    (h : (feature s).1 = some f) {t : Text} {n : Nat} {g : FeatureTree.Feature}
    (hg : Locate.feature ⟨Source.ofText t, n⟩ f = .ok g) : g.WellRead := by
  have hopt : optional language { s with rest := skipSpaces s.rest }
      = (some none, { s₁ with rest := skipSpaces s.rest }) := by
    simp only [Parse.optional, hlang]
  rw [feature, bind_run, skip] at h
  simp only at h
  rw [bind_run, hopt] at h
  simp only at h
  suffices key : Finds (· = none) (· = none) _ fun f : Feature =>
      ∀ g, Locate.feature ⟨Source.ofText t, n⟩ f = .ok g → g.WellRead from
    (((key _ (hs.withRest _)).2 f h).1 g hg)
  refine (Finds.skip _).bind fun _ _ => finds_tags.bind fun ts hts =>
    Finds.mark.bind fun start _ => (Finds.keyword _).bind fun keyword hk =>
    finds_name.bind fun name hn => (finds_description _).bind fun d _ =>
    finds_background.optional.bind fun b hb => (Finds.skip _).bind fun _ _ =>
    finds_scenarios.bind fun ss hss => (Finds.skip _).bind fun _ _ =>
    ((Finds.skip _).bind fun _ _ => finds_rule.spaced).bind fun rs _ =>
    Finds.mark.bind fun stop _ => (Finds.skip _).bind fun _ _ =>
    (Finds.span start stop).bind fun _ _ => (Finds.position start).bind fun _ _ =>
    Finds.pure fun g hg => ?_
  rw [Locate.feature] at hg
  split at hg
  · rw [← Except.ok.inj hg]
    refine ⟨headed_located leading_feature hk hn d, Locate.tags_wellRead _ hts _, ?_, ?_⟩
    · intro c hc
      obtain ⟨b', hb', rfl⟩ := Option.map_eq_some_iff.mp hc
      exact hb b' hb' t n
    · simpa using fun s hs => hss s hs t n
  · simp at hg

end FeatureTree.Grammar

namespace FeatureTree

lemma Dialect.keywords_english : Dialect.english.keywords = .ok .en := by
  have h : Keywords.ofCode? Dialect.english.code = some .en := by rfl
  rw [keywords, h]

namespace Fragment

/-- A fragment is read if its text in the shell has content, the grammar gives it a tree without
rules, and the part is found there. -/
lemma read_eq_ok_iff {k : Fragment} {d : Dialect} {t : Text} {n : Node} :
    Fragment.read k d t = .ok n ↔
      Document.isFeatureless (k.wrap t).1.terminated = false ∧
        ∃ kw tree f, ((Dialect.declared? (k.wrap t).1.terminated).getD d).keywords = .ok kw
          ∧ Grammar.parse? kw (k.wrap t).1.terminated.masked = some tree
          ∧ Locate.feature ⟨Source.ofText (k.wrap t).1.terminated, (k.wrap t).2⟩ tree = .ok f
          ∧ extract? f k = some n := by
  rcases hwrap : k.wrap t with ⟨wrapped, shell⟩
  have hread : Fragment.read k d t
      = (Document.readInShell shell k.file d wrapped).bind fun file =>
        (file.feature.bind (extract? · k)).elim (.error (.missing k)) .ok := by
    simp only [Fragment.read, hwrap]
    rcases Document.readInShell shell k.file d wrapped with e | file
    · rfl
    · simp only [bind, Except.bind]
      cases file.feature.bind (extract? · k) <;> rfl
  rw [hread, Document.readInShell]
  split
  · rename_i hless
    simp [hless, Locate.file_none, Except.bind]
  rename_i hless
  rcases hk : ((Dialect.declared? wrapped.terminated).getD d).keywords with e | kw
  · simp [hless, bind, Except.bind]
  rcases htree : Grammar.parse? kw wrapped.terminated.masked with _ | tree
  · simp [hless, htree, bind, Except.bind]
  rcases hl : Locate.feature ⟨Source.ofText wrapped.terminated, shell⟩ tree with e | f
  · simp [hless, htree, Locate.file_some, hl, Except.map, bind, Except.bind]
  · rcases hn : extract? f k with _ | m <;>
      simp [hless, htree, Locate.file_some, hl, hn, Except.map, bind, Except.bind]

/-- **What is read from an English text is part of a feature that is well read.** -/
lemma exists_wellRead {k : Fragment} {t : Text} {n : Node} (ht : ¬ Dialect.HasHeader (k.wrap t).1)
    (h : Fragment.read k .english t = .ok n) : ∃ f : Feature, f.WellRead ∧ extract? f k = some n := by
  obtain ⟨-, kw, tree, f, hk, hparse, hlocate, hn⟩ := read_eq_ok_iff.mp h
  refine ⟨f, ?_, hn⟩
  set wrapped := (k.wrap t).1.terminated with hwrapped
  have hhead : ¬ Dialect.HasHeader wrapped := by
    rwa [Dialect.HasHeader, hwrapped, Text.contents_terminated]
  rw [Dialect.declared?_eq_none hhead, Option.getD_none, Dialect.keywords_english] at hk
  obtain rfl := Except.ok.inj hk
  have hlang := Grammar.not_headerAt_of_not_hasHeader wrapped.veils_masked hhead
  rw [Grammar.parse?] at hparse
  split at hparse
  · rename_i tree' s hrun
    obtain ⟨r, hr⟩ := Grammar.language_eq_none (s := Grammar.State.on
      ⟨wrapped.masked, Text.byteLength wrapped.masked, wrapped.masked, .en, none, false⟩
      (Grammar.skipSpaces wrapped.masked)) hlang
    refine Grammar.feature_wellRead ⟨rfl, rfl⟩ hr (f := tree) ?_ hlocate
    rw [hrun]
    split at hparse
    · simp at hparse
    · exact hparse
  · simp at hparse

/-- **A feature that is read from an English text is well read.** -/
theorem wellRead_of_read {t : Text} {f : Feature} (ht : ¬ Dialect.HasHeader t)
    (h : Fragment.read .feature .english t = .ok (.feature f)) : f.WellRead := by
  obtain ⟨g, hg, hn⟩ := exists_wellRead (k := .feature) ht h
  obtain rfl : g = f := by simpa [extract?] using hn
  exact hg

end Fragment

end FeatureTree
