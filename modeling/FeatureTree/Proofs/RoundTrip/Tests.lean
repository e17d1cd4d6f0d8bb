import FeatureTree.Proofs.Document.Outcome
import FeatureTree.Proofs.Related
import FeatureTree.Proofs.RoundTrip.Sections

/-!
Rendered backgrounds, examples, scenarios and outlines are read.
-/

namespace FeatureTree.RoundTrip

open Text Grammar Parse Render

variable {D before after : List Text} {k : Nat} {s : State}

lemma map_steps {xs : List Grammar.Step} {sts : List Step} (h : List.Forall₂ (SaysStep D) xs sts)
    {fr : Frame} (hfr : fr.source = Source.ofText (unlines D)) :
    (xs.map (Locate.step fr)).map (Step.relined nowhere) = sts.map (Step.relined nowhere) := by
  rw [List.map_map]
  exact map_eq_of_forall₂ h fun x st hx => hx fr hfr

lemma trim_keyword {ws : List String} {kw name description : Text} (hws : Leading ws)
    (h : Headed ws kw name description) : trim kw = kw :=
  (hws kw h.keyword).2.2.2

/-! ### Backgrounds -/

/-- What a background of the tree says once it is located. -/
def SaysBackground (D : List Text) (x : Grammar.Background) (b : Background) : Prop :=
  ∀ fr : Frame, fr.source = Source.ofText (unlines D) →
    (Locate.background fr x).relined nowhere = b.relined nowhere

/-- **A rendered background is read.** -/
lemma background_run {b : Background} (hD : ∀ l ∈ D, '\n' ∉ l) (hw : b.WellRead)
    (hf : b.Faithful (Fence.run none before)) (hat : At D s before (indent k b.lines ++ after))
    (hlast : s.last = none) (hstop : Starts sections (ahead (before ++ indent k b.lines) after)) :
    ∃ x, background s = (some x, s.on (ahead (before ++ indent k b.lines) after))
      ∧ SaysBackground D x b := by
  obtain ⟨t, s₁, s₂, x, xs, hkey, hname, hx, hxs, hnormal, hsaid⟩ := section_run
    (f := Keywords.background) hD leading_background hw.head "Background".toList
    (clear_of_mem _ (by simp [headKeywords])) hw.head.keyword hw.steps hf hat hlast hstop
  have hword : AtWord s.rest := by
    rw [hat.rest]
    exact (shown_keywordLine before k leading_background hw.head _).1.atWord _
  have hrun : ∃ y : Grammar.Background, background s
        = (some y, s.on (ahead (before ++ indent k b.lines) after))
      ∧ y.keyword = b.keyword ∧ y.name = b.name ∧ y.description = x ∧ y.steps = xs := by
    rw [background, bind_skip hword.skipComments, bind_skip hword.skipSpaces,
      bind_some (mark_run s), bind_some hkey, bind_some hname, bind_some hx, bind_some hxs,
      bind_some (mark_run _)]
    exact ⟨_, rfl, rfl, rfl, rfl, rfl⟩
  obtain ⟨y, hy, hyk, hyn, hyd, hys⟩ := hrun
  refine ⟨y, hy, fun fr hfr => ?_⟩
  simp only [Locate.background, Background.relined, hyk, hyn, hyd, hys, hnormal, map_steps hsaid hfr,
    trim_keyword leading_background hw.head, hw.head.name.1, nowhere]

/-! ### Headers with tags -/

lemma map_tags {ts : List Tag} {names : List Text} (h : names.map tagName = ts.map Tag.name)
    (fr : Frame) (n : Nat) :
    (Locate.tags fr names n).map (Tag.relined nowhere) = ts.map (Tag.relined nowhere) := by
  have hof : ∀ us : List Tag, us.map (Tag.relined nowhere)
      = (us.map Tag.name).map fun name => { name } := by
    intro us
    rw [List.map_map]
    rfl
  rw [hof, hof, Locate.map_name_tags, h]

lemma run_tagLine (o : Option Fence) (k : Nat) {ts : List Tag} (hts : ∀ t ∈ ts, t.WellRead) :
    Fence.run o (indent k (tagLine ts)) = o := by
  obtain ⟨ws, hws, -⟩ := exists_tagWords hts
  rw [tagLine]
  split
  · rfl
  · rename_i hne
    cases ws with
    | nil =>
      obtain rfl : ts = [] := by simpa using hws
      simp at hne
    | cons w ws =>
      rw [hws, joinWith_tags]
      exact run_of_isLead o k rfl

variable {ws : List String} {kw name description : Text} {ts : List Tag}

/-- The fence after a header with tags is the one after its description, too. -/
lemma run_tagged (o : Option Fence) (k : Nat) (hts : ∀ t ∈ ts, t.WellRead) (hws : Leading ws)
    (h : Headed ws kw name description) (default : Text) :
    Fence.run o (indent k (header ts kw default name description))
      = Fence.run o (descriptionLines description) := by
  have hlines : header ts kw default name description
      = tagLine ts ++ header [] kw default name description := rfl
  rw [hlines, indent_append, Fence.run_append, run_tagLine o k hts, run_header o hws h]

/-- The first line of a header starts with a tag or with its keyword. -/
lemma exists_header_line (before : List Text) (k : Nat) (hts : ∀ t ∈ ts, t.WellRead)
    (hws : Leading ws) (h : Headed ws kw name description) (default : Text) :
    ∃ l ls, indent k (header ts kw default name description) = indentLine k l :: ls
      ∧ Shown before k l l ∧ ∃ w ∈ "@" :: ws, w.toList <+: l := by
  obtain ⟨vs, hvs, hwords, -⟩ := exists_tagWords hts
  cases vs with
  | nil =>
    obtain rfl : ts = [] := by simpa using hvs
    obtain ⟨w, hw, hwk⟩ := List.mem_map.mp h.keyword
    obtain ⟨c, t, hct, -⟩ := exists_of_isLead (hws kw h.keyword).1
    have hne : kw ≠ [] := by simp [hct]
    refine ⟨_, _, rfl, (shown_keywordLine before k hws h default).1, w, by simp [hw], ?_⟩
    rw [keywordLine_eq hne default h.name, hwk]
    exact List.prefix_append _ _
  | cons v vs =>
    have hne : ts ≠ [] := by rintro rfl; simp at hvs
    refine ⟨'@' :: (v ++ tagTail vs), indent k (header [] kw default name description), ?_,
      shown_tags before k hwords, "@", by simp, ⟨_, rfl⟩⟩
    rw [header, tagLine, if_neg (by simpa using hne), hvs, joinWith_tags]
    rfl

/-- The tags above a keyword line are read, and the parser rests at the keyword. -/
lemma tagged_run (hts : ∀ t ∈ ts, t.WellRead) (hws : Leading ws)
    (h : Headed ws kw name description) (default : Text)
    (hrest : s.rest = ahead before (indent k (header ts kw default name description) ++ after)) :
    AtWord s.rest ∧ ∃ names u, tags s = (some names, s.on u)
      ∧ names.map tagName = ts.map Tag.name
      ∧ skipSpaces u = ahead (before ++ indent k (tagLine ts))
        (indent k (header [] kw default name description) ++ after)
      ∧ (k = 0 → u = ahead (before ++ indent k (tagLine ts))
        (indent k (header [] kw default name description) ++ after)) := by
  obtain ⟨hshown, hhead, -⟩ :=
    shown_keywordLine (before ++ indent k (tagLine ts)) k hws h default
  have hlines : indent k (header ts kw default name description) ++ after
      = indent k (tagLine ts) ++ (indent k (header [] kw default name description) ++ after) := by
    rw [← List.append_assoc, ← indent_append]
    rfl
  obtain ⟨l, ls, hl, hfirst, -⟩ := exists_header_line before k hts hws h default
  have hword : AtWord s.rest := by
    rw [hrest, hl]
    exact hfirst.atWord _
  rw [hlines] at hrest
  exact ⟨hword, tags_run hts hshown hhead hrest⟩

/-- A header starts with a tag or with its keyword. -/
lemma starts_header (hts : ∀ t ∈ ts, t.WellRead) (hws : Leading ws)
    (h : Headed ws kw name description) (default : Text) :
    Starts ("@" :: ws) (ahead before (indent k (header ts kw default name description) ++ after)) := by
  obtain ⟨l, ls, hl, hfirst, w, hw, hwl⟩ := exists_header_line before k hts hws h default
  refine .inr ⟨w, hw, ?_⟩
  rw [hl, List.cons_append, hfirst.ahead_eq]
  exact hwl.trans (List.prefix_append _ _)

/-- Reading on from a header gets ahead. -/
lemma length_header_lt (hts : ∀ t ∈ ts, t.WellRead) (hws : Leading ws)
    (h : Headed ws kw name description) (default : Text) (ls after : List Text) :
    (ahead (before ++ indent k (header ts kw default name description ++ ls)) after).length
      < (ahead before (indent k (header ts kw default name description ++ ls) ++ after)).length := by
  obtain ⟨l, ms, hl, hfirst, -⟩ := exists_header_line before k hts hws h default
  rw [indent_append, hl]
  exact hfirst.length_lt (ms ++ indent k ls) after

/-! ### Examples -/

/-- What examples of the tree say once they are located. -/
def SaysExamples (D : List Text) (x : Grammar.Examples) (e : Examples) : Prop :=
  ∀ fr : Frame, fr.source = Source.ofText (unlines D) →
    (Locate.examples fr x).relined nowhere = e.relined nowhere

/-- The rows of examples are read, if there are any. -/
lemma optionalTable_run {rs : List Row} (hD : ∀ l ∈ D, '\n' ∉ l) (heven : Row.Even rs)
    (hf : FaithfulRows (Fence.run none before) rs)
    (hat : At D s before (indent k (Table.linesOfRows rs) ++ after))
    (hstop : Starts sections (ahead (before ++ indent k (Table.linesOfRows rs)) after)) :
    Starts ("@" :: examplesWords .en) s.rest ∧ ∃ t : Option Grammar.Table, optional table s
        = (some t, s.on (ahead (before ++ indent k (Table.linesOfRows rs)) after))
      ∧ ∀ fr : Frame, fr.source = Source.ofText (unlines D) →
        ((t.map (Locate.rows fr)).getD []).map (Row.relined nowhere)
          = rs.map (Row.relined nowhere) := by
  have hmarks : Starts marks (ahead (before ++ indent k (Table.linesOfRows rs)) after) :=
    hstop.of_subset fun w => by
      simp only [sections, marks, stepWords, List.mem_cons, List.mem_append]; grind
  by_cases hne : rs = []
  · subst hne
    have hs : s.rest = ahead (before ++ indent k (Table.linesOfRows [])) after := by
      rw [hat.rest]
      simp [indent, Table.linesOfRows, Table.linesOfValues]
    rw [← hs] at hstop hmarks ⊢
    have hnone : table s = (none, s.on s.rest) := table_none hmarks
    refine ⟨hstop.tests.of_subset fun w => ?_, none, optional_none hnone, fun _ _ => rfl⟩
    simp only [examplesWords, stepWords, List.mem_cons, List.mem_append]
    grind
  · obtain ⟨t, ht, hsaid⟩ := table_says hD hne heven hf hat hmarks
    refine ⟨?_, some t, optional_some ht, hsaid⟩
    rw [hat.rest]
    exact (starts_table before k hne after).2.of_subset (by simp [examplesWords])

lemma examplesWords_facts : ∀ w ∈ "@" :: examplesWords .en, isWord w = true ∧ '\n' ∉ w.toList := by
  refine fun w hw => stops_facts w ?_
  simp only [examplesWords, stops, List.mem_cons, List.mem_append] at hw ⊢
  grind

/-- **Rendered examples are read.** -/
lemma examples_run {e : Examples} (hD : ∀ l ∈ D, '\n' ∉ l) (hw : e.WellRead)
    (hf : e.Faithful (Fence.run none before)) (hat : At D s before (indent k e.lines ++ after))
    (hstop : Starts sections (ahead (before ++ indent k e.lines) after)) :
    AtWord s.rest ∧ ∃ x, Grammar.examples s
        = (some x, s.on (ahead (before ++ indent k e.lines) after))
      ∧ SaysExamples D x e := by
  set hd := header [] e.keyword "Examples".toList e.name e.description with hhd
  set bd := Render.body e.description (Table.linesOfRows e.rows) with hbd
  have hlines : indent k e.lines = indent k (tagLine e.tags) ++ (indent k hd ++ indent k bd) := by
    have : e.lines = (tagLine e.tags ++ hd) ++ bd := rfl
    rw [this, indent_append, indent_append, List.append_assoc]
  -- the tags
  have hrest : s.rest = ahead before (indent k (header e.tags e.keyword "Examples".toList e.name
      e.description) ++ (indent k bd ++ after)) := by
    rw [hat.rest, ← List.append_assoc, ← indent_append]
    rfl
  obtain ⟨hword, names, u, htags, hnames, hskip, -⟩ :=
    tagged_run hw.tags leading_examples hw.head "Examples".toList hrest
  have hat₁ : At D s before (indent k (tagLine e.tags) ++ (indent k hd ++ (indent k bd ++ after))) := by
    have := hat
    rw [hlines] at this
    simpa [List.append_assoc] using this
  -- the header and the table
  obtain ⟨before', hplaced, hrun, hat₂⟩ := hat₁.move.move.body
  have hrun' : Fence.run none before'
      = Fence.run (Fence.run none before) (descriptionLines e.description) := by
    rw [hrun, Fence.run_append, Fence.run_append, run_tagLine _ k hw.tags,
      run_header _ leading_examples hw.head]
  have hend : before' ++ indent (k + 1) (Table.linesOfRows e.rows) = before ++ indent k e.lines := by
    rw [← hplaced, hlines, ← hbd]
    simp
  obtain ⟨hstarts, t, ht, hsaid⟩ := optionalTable_run hD hw.rows (by rw [hrun']; exact hf.2) hat₂
    (by rwa [hend])
  rw [hend] at ht
  obtain ⟨v, s₁, x, hkey, hname, hx, hnormal⟩ := header_run (f := Keywords.examples)
    (g := examplesWords) leading_examples hw.head "Examples".toList
    (clear_of_mem _ (by simp [headKeywords])) hw.head.keyword
    (by rw [Fence.run_append, run_tagLine _ k hw.tags]; exact hf.1) examplesWords_facts hat₁.move
    hstarts
  have hall : ∃ y : Grammar.Examples, Grammar.examples s
        = (some y, s.on (ahead (before ++ indent k e.lines) after))
      ∧ y.keyword = e.keyword ∧ y.name = e.name ∧ y.description = x ∧ y.tags = names
      ∧ y.table = t := by
    rw [Grammar.examples, bind_skip hword.skipComments, bind_skip hword.skipSpaces, bind_some htags,
      bind_some (skip_run _ _), State.on_rest, hskip, State.on_on, bind_some (mark_run _),
      bind_some hkey, bind_some hname, bind_some hx, bind_some ht, bind_some (mark_run _)]
    exact ⟨_, rfl, rfl, rfl, rfl, rfl, rfl⟩
  obtain ⟨y, hy, hyk, hyn, hyd, hyt, hyr⟩ := hall
  refine ⟨hword, y, hy, fun fr hfr => ?_⟩
  simp only [Locate.examples, Examples.relined, hyk, hyn, hyd, hyt, hyr, hnormal, map_tags hnames,
    hsaid fr hfr, trim_keyword leading_examples hw.head, hw.head.name.1, nowhere]

/-! ### What follows a test -/

/-- The text of another test, or none. -/
def TestOrEnd (t : Text) : Prop :=
  t = [] ∨ ∃ before after k ts kw default name description,
    t = ahead before (indent k (header ts kw default name description) ++ after)
      ∧ (∀ t ∈ ts, t.WellRead)
      ∧ Headed (Keywords.en.scenario ++ Keywords.en.outline) kw name description

lemma TestOrEnd.starts {t : Text} (h : TestOrEnd t) : Starts sections t := by
  rcases h with rfl | ⟨before, after, k, ts, kw, default, name, description, rfl, hts, hhead⟩
  · exact .inl rfl
  · refine (starts_header hts leading_tests hhead default).of_subset fun w => ?_
    simp only [sections, List.mem_cons, List.mem_append]
    grind

/-- The keyword of a test, up to its colon, does not start examples. -/
lemma keyword?_examples {t : Text} {kw : Text} (hword : AtWord (kw ++ ':' :: t))
    (hk : kw ∈ (Keywords.en.scenario ++ Keywords.en.outline).map String.toList) :
    keyword? Keywords.en.examples (kw ++ ':' :: t) = none := by
  have happ : kw ++ ':' :: t = (kw ++ [':']) ++ t := by simp
  exact hword.keyword?_eq_none_iff.mpr
    ((free_examples kw hk).absent (happ ▸ List.prefix_append _ _))

lemma tags_nil (hs : s.rest = []) : tags s = (some [], s) := by
  have hread : Parse.read tag? s = (none, s.on s.rest) := read_none (by rw [hs]; rfl)
  rw [tags, bind_some (optional_none hread)]
  change (skip skipSpaces >>= fun _ => skip skipLineEnds >>= fun _ => pure []) s = _
  rw [bind_skip (by rw [hs]; exact atWord_nil.skipSpaces),
    bind_skip (by rw [hs]; exact atWord_nil.skipLineEnds)]
  rfl

/-- No examples are read where another test or the end of the text follows. -/
lemma examples_none (hk : s.keywords = .en) (h : TestOrEnd s.rest) :
    ∃ r, Grammar.examples s = (none, s.on r) := by
  rcases h with hs | ⟨before, after, k, ts, kw, default, name, description, hs, hts, hhead⟩
  · have hword : AtWord s.rest := hs ▸ atWord_nil
    have hkey : keyword Keywords.examples s = (none, s) :=
      keyword_none (by rw [hk, hs]; exact keyword?_nil (leading_examples))
    refine ⟨s.rest, ?_⟩
    rw [Grammar.examples, bind_skip hword.skipComments, bind_skip hword.skipSpaces,
      bind_some (tags_nil hs), bind_skip hword.skipSpaces, bind_some (mark_run s), bind_none hkey]
    rfl
  · obtain ⟨hword, names, u, htags, -, hskip, -⟩ := tagged_run hts leading_tests hhead default hs
    obtain ⟨hword', v, hv⟩ := exists_ahead_header (before ++ indent k (tagLine ts)) k
      leading_tests hhead default after
    rw [hv] at hskip hword'
    have hkey : keyword Keywords.examples (s.on (kw ++ ':' :: v)) = (none, s.on (kw ++ ':' :: v)) := by
      refine keyword_none ?_
      rw [State.on_keywords, hk]
      exact keyword?_examples hword' hhead.keyword
    refine ⟨kw ++ ':' :: v, ?_⟩
    rw [Grammar.examples, bind_skip hword.skipComments, bind_skip hword.skipSpaces,
      bind_some htags, bind_some (skip_run _ _), State.on_rest, hskip, State.on_on,
      bind_some (mark_run _), bind_none hkey]

/-! ### Examples in a row -/

/-- The lines of examples below an outline. -/
def examplesAt (k : Nat) (e : Examples) : List Text := [] :: indent k e.lines

lemma starts_examples {es : List Examples} (hw : ∀ e ∈ es, e.WellRead)
    (hafter : TestOrEnd (ahead (before ++ es.flatMap (examplesAt k)) after)) :
    Starts sections (ahead before (es.flatMap (examplesAt k) ++ after)) := by
  cases es with
  | nil => exact TestOrEnd.starts (by simpa using hafter)
  | cons e es =>
    have hlines : (e :: es).flatMap (examplesAt k) ++ after
        = [] :: (indent k (header e.tags e.keyword "Examples".toList e.name e.description)
          ++ (indent k (body e.description (Table.linesOfRows e.rows))
            ++ (es.flatMap (examplesAt k) ++ after))) := by
      rw [List.flatMap_cons, examplesAt, Examples.lines, indent_append]
      simp
    rw [hlines, ahead_empty]
    refine (starts_header (hw e (by simp)).tags leading_examples
      (hw e (by simp)).head _).of_subset fun w => ?_
    simp only [sections, List.mem_cons, List.mem_append]
    grind

/-- Rendered examples are read one after the other, up to the next test. -/
lemma reads_examples {es : List Examples} (hD : ∀ l ∈ D, '\n' ∉ l) (hw : ∀ e ∈ es, e.WellRead)
    (hf : Fence.Each Examples.Faithful Examples.lines (Fence.run none before) es)
    (hat : At D s before (es.flatMap (examplesAt k) ++ after))
    (hafter : TestOrEnd (ahead (before ++ es.flatMap (examplesAt k)) after)) :
    ∃ xs, Reads AtWord Grammar.examples s xs
        (s.on (ahead (before ++ es.flatMap (examplesAt k)) after))
      ∧ List.Forall₂ (SaysExamples D) xs es := by
  have key := reads_all Grammar.examples (examplesAt k) after (SaysExamples D)
    (fun b s' es' => s' = s.on s'.rest ∧ At D s' b (es'.flatMap (examplesAt k) ++ after)
      ∧ (∀ e ∈ es', e.WellRead)
      ∧ Fence.Each Examples.Faithful Examples.lines (Fence.run none b) es'
      ∧ TestOrEnd (ahead (b ++ es'.flatMap (examplesAt k)) after))
    ?_ ?_ before s es ⟨rfl, hat, hw, hf, hafter⟩ hat.rest
  · obtain ⟨xs, s', hreads, hsaid, ⟨hs', -⟩, hrest'⟩ := key
    rw [hrest'] at hs'
    exact ⟨xs, hs' ▸ hreads, hsaid⟩
  · rintro b s' ⟨-, hat', -, -, hafter'⟩ hrest'
    rw [List.flatMap_nil, List.append_nil, ← hrest'] at hafter'
    exact ⟨hafter'.starts.atWord isWord_of_mem_sections, examples_none hat'.keywords hafter'⟩
  · rintro b s' e es' ⟨hs', hat', hw', hf', hafter'⟩ hrest'
    have hplaced : b ++ [[]] ++ indent k e.lines = b ++ examplesAt k e := by simp [examplesAt]
    have hat₁ : At D s' (b ++ [[]]) (indent k e.lines ++ (es'.flatMap (examplesAt k) ++ after)) := by
      have := hat'
      rw [List.flatMap_cons, List.append_assoc, examplesAt, List.cons_append] at this
      exact this.pass
    rw [List.flatMap_cons, ← List.append_assoc] at hafter'
    have hnext := starts_examples (fun x hx => hw' x (by simp [hx])) hafter'
    obtain ⟨hword, x, hx, hsaid⟩ := examples_run hD (hw' e (by simp))
      (by rw [run_pass]; exact hf'.1) hat₁ (by rwa [hplaced])
    rw [hplaced] at hx
    refine ⟨hword, x, _, hx, hsaid, ⟨?_, ?_, ?_, ?_, hafter'⟩, rfl, ?_⟩
    · rw [hs']; rfl
    · rw [← hplaced]
      exact hat₁.move
    · exact fun x hx => hw' x (by simp [hx])
    · rw [← hplaced, Fence.run_append, run_pass, Fence.run_indent]
      exact hf'.2
    · rw [hat₁.rest, ← hplaced]
      exact length_header_lt (hw' e (by simp)).tags leading_examples (hw' e (by simp)).head _ _ _

/-! ### Tests -/

/-- The lines of a test with its examples, if it has any. -/
def testLines (ts : List Tag) (kw default name description : Text) (sts : List Step)
    (es : List Examples) : List Text :=
  header ts kw default name description ++ body description (sts.flatMap Step.lines)
    ++ es.flatMap fun e => [] :: e.lines

lemma indent_examples (k : Nat) (es : List Examples) :
    indent k (es.flatMap fun e => [] :: e.lines) = es.flatMap (examplesAt k) := by
  rw [indent_flatMap]
  rfl

variable {sts : List Step} {es : List Examples}

/-- The fence after a body is the one after its lines. -/
lemma run_body (o : Option Fence) (k : Nat) (description : Text) (ls : List Text) :
    Fence.run o (indent k (body description ls)) = Fence.run o ls := by
  have hempty : Fence.run o [[]] = o := by
    have := run_pass o []
    simpa using this
  rw [Fence.run_indent, body]
  split
  · rename_i h
    rw [List.isEmpty_iff.mp h]
  · rw [Fence.run_append, Fence.run_indent]
    split
    · rfl
    · rw [hempty]

/-- The parts of a test whose text says what they say, by the fence that is open before it. -/
structure TestParts (o : Option Fence) (ts : List Tag) (kw name description : Text)
    (sts : List Step) (es : List Examples) : Prop where
  tags : ∀ t ∈ ts, t.WellRead
  head : Headed (Keywords.en.scenario ++ Keywords.en.outline) kw name description
  steps : Step.Sequence sts
  examples : ∀ e ∈ es, e.WellRead
  faithful : FaithfulSteps o description sts
  faithfulExamples : Fence.Each Examples.Faithful Examples.lines
    (Fence.run o (descriptionLines description ++ sts.flatMap Step.lines)) es

/-- A test of the tree has the given parts. -/
structure SaysParts (D : List Text) (x : Grammar.Scenario) (ts : List Tag)
    (kw name description : Text) (sts : List Step) (es : List Examples) : Prop where
  keyword : x.keyword = kw
  name : x.name = name
  description : normalise x.description = description
  tags : x.tags.map tagName = ts.map Tag.name
  steps : List.Forall₂ (SaysStep D) x.steps sts
  examples : List.Forall₂ (SaysExamples D) x.examples es

/-- A test is read with one of its keywords, if its steps and its examples are. -/
lemma scenarioWith_parts (f : Keywords → List String) {xs : List Grammar.Step}
    {ys : List Grammar.Examples} {s₁ s₂ : State} (hts : ∀ t ∈ ts, t.WellRead)
    (h : Headed (Keywords.en.scenario ++ Keywords.en.outline) kw name description) (default : Text)
    (hclear : Clear (f .en)) (hmem : kw ∈ (f .en).map String.toList)
    (hf : FaithfulDescription (stepWords .en) (Fence.run none before) description)
    (hat : At D s before (indent k (header ts kw default name description) ++ after))
    (hstop : Starts ("@" :: stepWords .en)
      (ahead (before ++ indent k (header ts kw default name description)) after))
    (hxs : steps (s.on (ahead (before ++ indent k (header ts kw default name description)) after))
      = (some xs, s₁))
    (hys : many Grammar.examples s₁ = (some ys, s₂)) :
    ∃ y, scenarioWith f s = (some y, s₂) ∧ y.keyword = kw ∧ y.name = name
      ∧ normalise y.description = description ∧ y.tags.map tagName = ts.map Tag.name
      ∧ y.steps = xs ∧ y.examples = ys := by
  obtain ⟨hword, names, u, htags, hnames, hskip, -⟩ := tagged_run hts leading_tests h default hat.rest
  have hplaced : before ++ indent k (tagLine ts) ++ indent k (header [] kw default name description)
      = before ++ indent k (header ts kw default name description) := by
    rw [List.append_assoc, ← indent_append]
    rfl
  have hat' : At D s before (indent k (tagLine ts)
      ++ (indent k (header [] kw default name description) ++ after)) := by
    rw [← List.append_assoc, ← indent_append]
    exact hat
  have hrun : Fence.run none (before ++ indent k (tagLine ts)) = Fence.run none before := by
    rw [Fence.run_append, run_tagLine _ k hts]
  obtain ⟨v, s', x, hkey, hname, hx, hnormal⟩ := header_run (f := f) leading_tests h default hclear
    hmem (by rwa [hrun]) stepWords_facts hat'.move (by rwa [hplaced])
  rw [hplaced, State.on_on] at hx
  have hall : ∃ y : Grammar.Scenario, scenarioWith f s = (some y, s₂) ∧ y.keyword = kw
      ∧ y.name = name ∧ y.description = x ∧ y.tags = names ∧ y.steps = xs ∧ y.examples = ys := by
    rw [scenarioWith, bind_skip hword.skipComments, bind_skip hword.skipSpaces, bind_some htags,
      bind_some (skip_run _ _), State.on_rest, hskip, State.on_on, bind_some (mark_run _),
      bind_some hkey, bind_some hname, bind_some hx, bind_some hxs, bind_some hys,
      bind_some (mark_run _)]
    exact ⟨_, rfl, rfl, rfl, rfl, rfl, rfl, rfl⟩
  obtain ⟨y, hy, hyk, hyn, hyd, hyt, hys', hye⟩ := hall
  exact ⟨y, hy, hyk, hyn, by rw [hyd, hnormal], by rw [hyt, hnames], hys', hye⟩

/-- A test is read with one of its keywords. -/
lemma scenarioWith_run (f : Keywords → List String) (hD : ∀ l ∈ D, '\n' ∉ l)
    (hp : TestParts (Fence.run none before) ts kw name description sts es) (default : Text)
    (hclear : Clear (f .en)) (hmem : kw ∈ (f .en).map String.toList) (hlast : s.last = none)
    (hat : At D s before (indent k (testLines ts kw default name description sts es) ++ after))
    (hafter : TestOrEnd
      (ahead (before ++ indent k (testLines ts kw default name description sts es)) after)) :
    ∃ x, scenarioWith f s = (some x,
        s.on (ahead (before ++ indent k (testLines ts kw default name description sts es)) after))
      ∧ SaysParts D x ts kw name description sts es := by
  obtain ⟨hts, h, hsts, hes, hf, hfe⟩ := hp
  set hd := header ts kw default name description with hhd
  set bd := body description (sts.flatMap Step.lines) with hbd
  have hlines : indent k (testLines ts kw default name description sts es)
      = indent k hd ++ (indent k bd ++ es.flatMap (examplesAt k)) := by
    rw [testLines, List.append_assoc, indent_append, indent_append, indent_examples]
  rw [hlines, ← List.append_assoc, ← List.append_assoc] at hafter ⊢
  rw [hlines, List.append_assoc, List.append_assoc] at hat
  -- the steps, and the examples after them
  have hrun : Fence.run none (before ++ indent k hd)
      = Fence.run (Fence.run none before) (descriptionLines description) := by
    rw [Fence.run_append, hhd, run_tagged _ k hts leading_tests h]
  obtain ⟨hstarts, xs, hxs, hsaid⟩ := body_run hD hsts (by rw [hrun]; exact hf.2) hat.move hlast
    (starts_examples hes hafter)
  have hrun' : Fence.run none (before ++ indent k hd ++ indent k bd)
      = Fence.run (Fence.run none before) (descriptionLines description ++ sts.flatMap Step.lines) := by
    rw [Fence.run_append, hrun, hbd, run_body, Fence.run_append]
  obtain ⟨ys, hys, hsaysE⟩ := reads_examples hD hes (by rwa [hrun']) hat.move.move hafter
  obtain ⟨y, hy, hyk, hyn, hyd, hyt, hyx, hye⟩ := scenarioWith_parts f hts h default hclear hmem hf.1
    hat hstarts hxs (many_of_reads hys)
  exact ⟨y, hy, hyk, hyn, hyd, hyt, hyx ▸ hsaid, hye ▸ hsaysE⟩

/-- The keyword of an outline starts like that of a scenario, but no colon follows there. -/
lemma scenarioWith_none (hk : s.keywords = .en) (hts : ∀ t ∈ ts, t.WellRead)
    (h : Headed (Keywords.en.scenario ++ Keywords.en.outline) kw name description) (default : Text)
    (hmem : kw ∈ Keywords.en.outline.map String.toList)
    (hrest : s.rest = ahead before (indent k (header ts kw default name description) ++ after)) :
    ∃ r, scenarioWith Keywords.scenario s = (none, s.on r) := by
  obtain ⟨hword, names, u, htags, -, hskip, -⟩ := tagged_run hts leading_tests h default hrest
  obtain ⟨hword', v, hv⟩ := exists_ahead_header (before ++ indent k (tagLine ts)) k leading_tests h
    default after
  obtain ⟨t, ht⟩ := scenario_prefix_outline kw hmem
  have hsplit : kw ++ ':' :: v = "Scenario".toList ++ ' ' :: (t ++ ':' :: v) := by
    rw [← ht, List.append_assoc, List.append_assoc]
    rfl
  rw [hv, hsplit] at hskip hword'
  have hkey : keyword Keywords.scenario (s.on ("Scenario".toList ++ ' ' :: (t ++ ':' :: v)))
      = (some "Scenario".toList, s.on (' ' :: (t ++ ':' :: v))) := by
    refine keyword_some ?_
    rw [State.on_keywords, hk]
    exact keyword?_of_mem (clear_of_mem Keywords.scenario (by simp [headKeywords]))
      (List.mem_map_of_mem (by simp [Keywords.en])) hword'
  have hname : Grammar.name (s.on (' ' :: (t ++ ':' :: v))) = (none, s.on (' ' :: (t ++ ':' :: v))) :=
    bind_none (expect_none rfl)
  refine ⟨' ' :: (t ++ ':' :: v), ?_⟩
  rw [scenarioWith, bind_skip hword.skipComments, bind_skip hword.skipSpaces, bind_some htags,
    bind_some (skip_run _ _), State.on_rest, hskip, State.on_on, bind_some (mark_run _),
    bind_some hkey, bind_none hname]

/-- A test is read with whatever keyword it has. -/
lemma scenario_run (hD : ∀ l ∈ D, '\n' ∉ l)
    (hp : TestParts (Fence.run none before) ts kw name description sts es) (default : Text)
    (hlast : s.last = none)
    (hat : At D s before (indent k (testLines ts kw default name description sts es) ++ after))
    (hafter : TestOrEnd
      (ahead (before ++ indent k (testLines ts kw default name description sts es)) after)) :
    ∃ x, scenario s = (some x,
        s.on (ahead (before ++ indent k (testLines ts kw default name description sts es)) after))
      ∧ SaysParts D x ts kw name description sts es := by
  have hmem := hp.head.keyword
  rw [List.map_append, List.mem_append] at hmem
  rcases hmem with hmem | hmem
  · obtain ⟨x, hx, hsaid⟩ := scenarioWith_run Keywords.scenario hD hp default
      (clear_of_mem _ (by simp [headKeywords])) hmem hlast hat hafter
    exact ⟨x, orElse_some hx, hsaid⟩
  · obtain ⟨x, hx, hsaid⟩ := scenarioWith_run Keywords.outline hD hp default
      (clear_of_mem _ (by simp [headKeywords])) hmem hlast hat hafter
    have hrest : s.rest = ahead before (indent k (header ts kw default name description)
        ++ (indent k (body description (sts.flatMap Step.lines) ++ es.flatMap fun e => [] :: e.lines)
          ++ after)) := by
      rw [hat.rest, testLines, List.append_assoc, indent_append, List.append_assoc]
    obtain ⟨r, hr⟩ := scenarioWith_none hat.keywords hp.tags hp.head default hmem hrest
    exact ⟨x, (orElse_none hr).trans hx, hsaid⟩

/-- What a test of the tree says once it is located. -/
def SaysTest (D : List Text) (x : Grammar.Scenario) (t : Test) : Prop :=
  ∀ fr : Frame, fr.source = Source.ofText (unlines D) →
    (Locate.test fr x).relined nowhere = t.relined nowhere

/-- The parts of a test are read as that test. -/
lemma SaysParts.scenario {x : Grammar.Scenario} {sc : Scenario} (hw : sc.WellRead)
    (h : SaysParts D x sc.tags sc.keyword sc.name sc.description sc.steps []) :
    SaysTest D x (.scenario sc) := by
  intro fr hfr
  have hmem : sc.keyword ∈ (Keywords.en.scenario ++ Keywords.en.outline).map String.toList := by
    rw [List.map_append]
    exact List.mem_append_left _ hw.head.keyword
  have hnmem := not_mem_outline _ hw.head.keyword
  have hout : ¬ Locate.isOutline x = true := by
    rw [isOutline_iff (h.keyword ▸ hmem), h.keyword, List.forall₂_nil_right_iff.mp h.examples]
    simpa using hnmem
  rw [Locate.test, if_neg hout]
  simp only [Test.relined, Scenario.relined, h.keyword, h.name, h.description, map_tags h.tags,
    map_steps h.steps hfr, trim_keyword leading_scenario hw.head, hw.head.name.1, nowhere]

lemma SaysParts.outline {x : Grammar.Scenario} {o : Outline} (hw : o.WellRead)
    (h : SaysParts D x o.tags o.keyword o.name o.description o.steps o.examples) :
    SaysTest D x (.outline o) := by
  intro fr hfr
  have hout : Locate.isOutline x = true := by
    rw [isOutline_iff (h.keyword ▸ hw.head.keyword), h.keyword]
    by_cases hes : o.examples = []
    · exact .inr (hw.outline hes)
    · refine .inl fun hx => hes ?_
      exact List.forall₂_nil_left_iff.mp (hx ▸ h.examples)
  have hexamples : (x.examples.map (Locate.examples fr)).map (Examples.relined nowhere)
      = o.examples.map (Examples.relined nowhere) := by
    rw [List.map_map]
    exact map_eq_of_forall₂ h.examples fun y e hy => hy fr hfr
  rw [Locate.test, if_pos hout]
  simp only [Test.relined, Outline.relined, h.keyword, h.name, h.description, map_tags h.tags,
    map_steps h.steps hfr, hexamples, trim_keyword leading_tests hw.head, hw.head.name.1, nowhere]

lemma TestParts.ofScenario {o : Option Fence} {sc : Scenario} (hw : sc.WellRead)
    (hf : (Test.scenario sc).Faithful o) :
    TestParts o sc.tags sc.keyword sc.name sc.description sc.steps [] where
  tags := hw.tags
  head := ⟨by rw [List.map_append]; exact List.mem_append_left _ hw.head.keyword, hw.head.name,
    hw.head.description⟩
  steps := hw.steps
  examples := by simp
  faithful := hf
  faithfulExamples := trivial

lemma TestParts.ofOutline {o : Option Fence} {out : Outline} (hw : out.WellRead)
    (hf : (Test.outline out).Faithful o) :
    TestParts o out.tags out.keyword out.name out.description out.steps out.examples where
  tags := hw.tags
  head := hw.head
  steps := hw.steps
  examples := hw.examples
  faithful := hf.1
  faithfulExamples := hf.2

/-- The lines of a test start with its header. -/
lemma exists_parts {o : Option Fence} {t : Test} (hw : t.WellRead) (hf : t.Faithful o) :
    ∃ ts kw default name description sts es, TestParts o ts kw name description sts es
      ∧ t.lines = testLines ts kw default name description sts es
      ∧ ∀ D x, SaysParts D x ts kw name description sts es → SaysTest D x t := by
  cases t with
  | scenario sc =>
    refine ⟨_, _, "Scenario".toList, _, _, _, [], .ofScenario hw hf, ?_, fun D x h => h.scenario hw⟩
    simp [Test.lines, Scenario.lines, testLines]
  | outline out =>
    exact ⟨_, _, "Scenario Outline".toList, _, _, _, _, .ofOutline hw hf, rfl,
      fun D x h => h.outline hw⟩

/-- **A rendered test is read.** -/
lemma test_run {t : Test} (hD : ∀ l ∈ D, '\n' ∉ l) (hw : t.WellRead)
    (hf : t.Faithful (Fence.run none before)) (hlast : s.last = none)
    (hat : At D s before (indent k t.lines ++ after))
    (hafter : TestOrEnd (ahead (before ++ indent k t.lines) after)) :
    ∃ x, scenario s = (some x, s.on (ahead (before ++ indent k t.lines) after))
      ∧ SaysTest D x t := by
  obtain ⟨ts, kw, default, name, description, sts, es, hp, hlines, hsaid⟩ := exists_parts hw hf
  rw [hlines] at hat hafter ⊢
  obtain ⟨x, hx, hparts⟩ := scenario_run hD hp default hlast hat hafter
  exact ⟨x, hx, hsaid D x hparts⟩

/-! ### Tests in a row -/

/-- The lines of a test below a feature. -/
def testAt (k : Nat) (t : Test) : List Text := [] :: indent k t.lines

variable {tests : List Test}

lemma testOrEnd_tests {o : Option Fence} (hw : ∀ t ∈ tests, t.WellRead)
    (hf : Fence.Each Test.Faithful Test.lines o tests) (before : List Text) (k : Nat) :
    TestOrEnd (ahead before (tests.flatMap (testAt k))) := by
  cases tests with
  | nil => exact .inl (ahead_nil before)
  | cons t tests =>
    obtain ⟨ts, kw, default, name, description, sts, es, hp, hlines, -⟩ :=
      exists_parts (hw t (by simp)) hf.1
    have hrest : ahead before ((t :: tests).flatMap (testAt k)) = ahead (before ++ [[]])
        (indent k (header ts kw default name description)
          ++ (indent k (body description (sts.flatMap Step.lines)
            ++ es.flatMap fun e => [] :: e.lines) ++ tests.flatMap (testAt k))) := by
      rw [List.flatMap_cons, testAt, List.cons_append, ahead_empty, hlines, testLines,
        List.append_assoc, indent_append, List.append_assoc]
    exact .inr ⟨_, _, k, ts, kw, default, name, description, hrest, hp.tags, hp.head⟩

/-- No test is read at the end of the text. -/
lemma scenario_end (hk : s.keywords = .en) (hs : s.rest = []) : scenario s = (none, s.on []) := by
  have hword : AtWord s.rest := hs ▸ atWord_nil
  have hon : s = s.on [] := by rw [← hs, State.on_self]
  have hwith : ∀ f : Keywords → List String, keyword? (f .en) [] = none →
      scenarioWith f s = (none, s.on []) := by
    intro f hf
    have hkey : keyword f s = (none, s) := keyword_none (by rw [hk, hs]; exact hf)
    rw [scenarioWith, bind_skip hword.skipComments, bind_skip hword.skipSpaces,
      bind_some (tags_nil hs), bind_skip hword.skipSpaces, bind_some (mark_run s), bind_none hkey,
      ← hon]
  rw [scenario, orElse_none (hwith _ (keyword?_nil leading_scenario)),
    hwith _ (keyword?_nil leading_outline)]

/-- **Rendered tests are read** one after the other, up to the end of the text. -/
lemma reads_tests (hD : ∀ l ∈ D, '\n' ∉ l) (hw : ∀ t ∈ tests, t.WellRead)
    (hf : Fence.Each Test.Faithful Test.lines (Fence.run none before) tests)
    (hat : At D s before (tests.flatMap (testAt k))) (hlast : s.last = none) :
    ∃ xs, Reads AtWord scenario s xs (s.on []) ∧ List.Forall₂ (SaysTest D) xs tests := by
  have key := reads_all scenario (testAt k) [] (SaysTest D)
    (fun b s' tests' => s' = s.on s'.rest ∧ At D s' b (tests'.flatMap (testAt k))
      ∧ (∀ t ∈ tests', t.WellRead)
      ∧ Fence.Each Test.Faithful Test.lines (Fence.run none b) tests')
    ?_ ?_ before s tests ⟨rfl, hat, hw, hf⟩ (by rw [List.append_nil]; exact hat.rest)
  · obtain ⟨xs, s', hreads, hsaid, ⟨hs', -⟩, hrest'⟩ := key
    rw [hrest', ahead_nil] at hs'
    exact ⟨xs, hs' ▸ hreads, hsaid⟩
  · rintro b s' ⟨-, hat', -⟩ hrest'
    rw [ahead_nil] at hrest'
    exact ⟨hrest' ▸ atWord_nil, [], scenario_end hat'.keywords hrest'⟩
  · rintro b s' t tests' ⟨hs', hat', hw', hf'⟩ -
    have hplaced : b ++ [[]] ++ indent k t.lines = b ++ testAt k t := by simp [testAt]
    have hat₁ : At D s' (b ++ [[]]) (indent k t.lines ++ tests'.flatMap (testAt k)) := by
      have := hat'
      rw [List.flatMap_cons, testAt, List.cons_append] at this
      exact this.pass
    have hw'' : ∀ x ∈ tests', x.WellRead := fun x hx => hw' x (by simp [hx])
    have hnext := testOrEnd_tests hw'' hf'.2 (b ++ testAt k t) k
    have hword : AtWord s'.rest := by
      rw [hat'.rest]
      exact (testOrEnd_tests hw' hf' b k).starts.atWord isWord_of_mem_sections
    obtain ⟨x, hx, hsaid⟩ := test_run hD (hw' t (by simp)) (by rw [run_pass]; exact hf'.1)
      (by rw [hs']; exact hlast) hat₁ (by rwa [hplaced])
    rw [hplaced] at hx
    refine ⟨hword, x, _, hx, hsaid, ⟨?_, ?_, hw'', ?_⟩, by simp, ?_⟩
    · rw [hs']; rfl
    · rw [← hplaced]
      exact hat₁.move
    · rw [← hplaced, Fence.run_append, run_pass, Fence.run_indent]
      exact hf'.2
    · obtain ⟨ts, kw, default, name, description, sts, es, hp, hlines, -⟩ :=
        exists_parts (hw' t (by simp)) hf'.1
      rw [testLines, List.append_assoc] at hlines
      rw [hat₁.rest, ← hplaced, State.on_rest, hlines]
      exact length_header_lt hp.tags leading_tests hp.head default _ _

end FeatureTree.RoundTrip
