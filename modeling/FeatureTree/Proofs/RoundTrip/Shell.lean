import FeatureTree.Proofs.RoundTrip.Start

/-!
Tables and rows that stand alone are read again from their own text.

They are read in a shell, a feature with one scenario of one step. Whatever their text looks like,
the rows that are read from it are equally long. Such rows are read again as they are, since no
fence is open below the step of the shell.
-/

namespace FeatureTree

open Text

/-! ### Parts of a shell -/

namespace Fragment

lemma firstTable?_relined (g : Option Nat → Option Nat) (f : Feature) :
    firstTable? (f.relined g) = (firstTable? f).map (Table.relined g) := by
  have hsteps : ∀ t : Test, (t.relined g).steps = t.steps.map (Step.relined g) := by
    intro t
    cases t <;> rfl
  have hstep : firstStep? (f.relined g) = (firstStep? f).map (Step.relined g) := by
    rw [firstStep?, firstStep?, Feature.relined, List.head?_map]
    cases f.tests.head? with
    | none => rfl
    | some t =>
      rw [Option.map_some, Option.bind_some, Option.bind_some, hsteps, List.head?_map]
  rw [firstTable?, firstTable?, hstep]
  rcases firstStep? f with _ | ⟨_, _, _, _ | (t | d), _⟩ <;> rfl

/-- The table of a feature that was well read. -/
lemma even_of_firstTable? {f : Feature} {t : Table} (hw : f.WellRead)
    (h : firstTable? f = some t) : t.rows ≠ [] ∧ Row.Even t.rows := by
  rw [firstTable?] at h
  split at h
  · rename_i t' hblock
    obtain rfl : t' = t := Option.some.inj h
    obtain ⟨st, hst, hb⟩ := Option.bind_eq_some_iff.mp hblock
    obtain ⟨test, htest, hhead⟩ := Option.bind_eq_some_iff.mp hst
    have hsteps : ∀ st ∈ test.steps, st.WellRead := by
      have htw := hw.tests test (List.mem_of_mem_head? htest)
      cases test with
      | scenario sc => exact htw.steps.each
      | outline o => exact htw.steps.each
    exact (hsteps st (List.mem_of_mem_head? hhead)).block _ hb
  · simp at h

/-- A shell starts with its keyword, so nothing in it names a language. -/
lemma not_hasHeader_shell (t : Text) : ¬ Dialect.HasHeader (stepShell ++ t) := by
  have hshell : stepShell = 'F' :: stepShell.tail := by decide +kernel
  obtain ⟨r, cs, h⟩ := exists_contents_cons (c := 'F') (by decide) (stepShell.tail ++ t)
  rw [← List.cons_append, ← hshell] at h
  exact Dialect.not_hasHeader h (by decide)

end Fragment

namespace RoundTrip

open Grammar Parse Render

/-! ### Rows in a shell -/

variable {rs : List Row} {s : State}

/-- The name of the feature and of the scenario. -/
def shellName : Text := "stand-alone shell".toList

def shellStep (rs : List Row) : Step :=
  { keyword := "Given".toList, text := "a shell step".toList, block := some (.table { rows := rs }) }

def shellScenario (rs : List Row) : Scenario :=
  { keyword := "Scenario".toList, name := shellName, steps := [shellStep rs] }

def shellFeature (rs : List Row) : Feature :=
  { keyword := "Feature".toList, name := shellName, tests := [.scenario (shellScenario rs)] }

def featureHead : List Text := header [] "Feature".toList [] shellName []

def scenarioHead : List Text := header [] "Scenario".toList [] shellName []

/-- The lines above the rows. -/
def shellTop : List Text := featureHead ++ scenarioHead ++ ["Given a shell step".toList]

/-- The lines of rows in a shell. None of them is moved right. -/
def shellLines (rs : List Row) : List Text :=
  featureHead ++ (scenarioHead ++ [shellStep rs].flatMap (stepAt 0 0))

lemma shellLines_eq (rs : List Row) : shellLines rs = shellTop ++ Table.linesOfRows rs := by
  rw [← indent_zero (Table.linesOfRows rs), shellTop, shellLines, List.flatMap_singleton, stepAt,
    indentLine_zero, List.append_assoc, List.append_assoc]
  rfl

lemma written_shell (rs : List Row) : Written (shellLines rs) := by
  rw [shellLines_eq]
  exact .append (.ofForall (by decide)) (written_rows rs)

/-- The text of rows in a shell. -/
lemma terminated_shell (hne : rs ≠ []) :
    (Fragment.stepShell ++ joinLines (Table.linesOfRows rs)).terminated
      = unlines (shellLines rs) := by
  have hlines : Table.linesOfRows rs ≠ [] := by
    simpa [Table.linesOfRows, Table.linesOfValues] using hne
  have hshell : Fragment.stepShell = unlines shellTop := by decide +kernel
  rw [← (written_shell rs).terminated (by simp [shellLines_eq, hlines])]
  obtain ⟨init, l, hl⟩ := (List.eq_nil_or_concat (Table.linesOfRows rs)).resolve_left hlines
  rw [shellLines_eq, hl, List.concat_eq_append, ← List.append_assoc, joinLines_concat,
    joinLines_concat, unlines_append, hshell, List.append_assoc]

lemma headed_shell {ws : List String} {kw : Text} (h : kw ∈ ws.map String.toList) :
    Headed ws kw shellName [] :=
  ⟨h, ⟨by decide, by decide⟩, [], rfl, ⟨by simp, by simp, rfl, rfl⟩⟩

lemma headed_scenario :
    Headed (Keywords.en.scenario ++ Keywords.en.outline) "Scenario".toList shellName [] :=
  headed_shell (by decide)

lemma wellRead_shellStep (hne : rs ≠ []) (heven : Row.Even rs) : (shellStep rs).WellRead where
  keyword := (by decide : "Given".toList ∈ Step.keywords.map String.toList)
  text := (⟨by decide, by decide⟩ : Title "a shell step".toList)
  block b hb := by
    obtain rfl := Option.some.inj hb
    exact ⟨hne, heven⟩

lemma wellRead_shellScenario (hne : rs ≠ []) (heven : Row.Even rs) :
    (shellScenario rs).WellRead where
  head := headed_shell (by decide : "Scenario".toList ∈ Keywords.en.scenario.map String.toList)
  tags := by simp [shellScenario]
  steps := by
    constructor
    · simpa [shellScenario] using wellRead_shellStep hne heven
    · intro st hst
      obtain rfl := Option.some.inj hst
      exact (by decide : "Given".toList ∉ Step.conjunctions.map String.toList)

/-- The scenario of a shell is read, up to the end of the text. -/
lemma shellScenario_run (hne : rs ≠ []) (heven : Row.Even rs)
    (hat : At (shellLines rs) s featureHead
      (scenarioHead ++ [shellStep rs].flatMap (stepAt 0 0))) (hlast : s.last = none) :
    ∃ x, scenario s = (some x, s.on [])
      ∧ SaysTest (shellLines rs) x (.scenario (shellScenario rs)) := by
  have hw := wellRead_shellScenario hne heven
  have hsequence : Step.Sequence [shellStep rs] := hw.steps
  set sts := [shellStep rs].flatMap (stepAt 0 0) with hsts
  have hat' : At (shellLines rs) (s.on (ahead (featureHead ++ scenarioHead) (sts ++ [])))
      (featureHead ++ scenarioHead) (sts ++ []) := by
    rw [List.append_nil]
    exact hat.move
  -- the step with its rows
  have hend : ahead (featureHead ++ scenarioHead ++ sts) [] = [] := ahead_nil _
  have hopen : Fence.run none (featureHead ++ scenarioHead) = none := by decide
  have hfaithful : Fence.Each Step.Faithful Step.lines
      (Fence.run none (featureHead ++ scenarioHead)) [shellStep rs] := by
    rw [hopen]
    refine ⟨⟨(by decide : "a shell step".toList ≠ []), fun b hb => ?_⟩, trivial⟩
    obtain rfl := Option.some.inj hb
    exact .inl rfl
  obtain ⟨xs, hxs, hsaid⟩ := steps_run (written_shell rs).newline hsequence hfaithful hat' hlast
    (.inl hend)
  rw [hend, List.append_nil, State.on_on] at hxs
  -- nothing follows it
  obtain ⟨r, hr⟩ := examples_none (s := s.on []) hat.keywords (.inl rfl)
  have hys : many Grammar.examples (s.on []) = (some [], s.on []) :=
    many_of_reads (.nil atWord_nil hr)
  have hstarts : Starts ("@" :: stepWords .en) (ahead (featureHead ++ scenarioHead) sts) := by
    have hstop := starts_steps (k := 0) (j := 0) hsequence.each (text_of_each hfaithful) (.inl hend)
    rwa [List.append_nil] at hstop
  obtain ⟨y, hy, hyk, hyn, hyd, hyt, hyx, hye⟩ := scenarioWith_parts (k := 0) Keywords.scenario
    (List.forall_mem_nil _) headed_scenario [] (clear_of_mem _ (by simp [headKeywords]))
    hw.head.keyword trivial (by rw [indent_zero]; exact hat) (by rw [indent_zero]; exact hstarts)
    (by rw [indent_zero]; exact hxs) hys
  have hparts : SaysParts (shellLines rs) y [] "Scenario".toList shellName [] [shellStep rs] [] :=
    ⟨hyk, hyn, hyd, hyt, hyx ▸ hsaid, hye ▸ .nil⟩
  exact ⟨y, orElse_some hy, hparts.scenario hw⟩

/-- **Rows in a shell are read.** -/
lemma shell_run (hne : rs ≠ []) (heven : Row.Even rs)
    (hat : At (shellLines rs) s [] (shellLines rs))
    (hlang : ∃ r, language s = (none, s.on r)) (hlast : s.last = none) :
    ∃ x, feature s = (some x, s.on []) ∧ SaysFeature (shellLines rs) x (shellFeature rs) := by
  set sts := [shellStep rs].flatMap (stepAt 0 0) with hsts
  set s₁ := s.on (ahead featureHead (scenarioHead ++ sts)) with hs₁
  have hat₁ : At (shellLines rs) s₁ featureHead (scenarioHead ++ sts) := At.move hat
  obtain ⟨x, hx, hsaid⟩ := shellScenario_run hne heven hat₁ hlast
  have htest : TestOrEnd (ahead featureHead (scenarioHead ++ sts)) :=
    .inr ⟨featureHead, sts, 0, [], _, [], _, [], by rw [indent_zero]; rfl, List.forall_mem_nil _,
      headed_scenario⟩
  -- the scenario stands at a word and is all that follows
  have hshown := (shown_keywordLine featureHead 0 leading_tests headed_scenario []).1
  have hlt := hshown.length_lt sts []
  rw [ahead_nil, List.append_nil, indentLine_zero] at hlt
  have hreads : Reads AtWord scenario s₁ [x] (s.on []) :=
    .cons (htest.starts.atWord isWord_of_mem_sections) hx hlt
      (.nil atWord_nil (scenario_end hat.keywords rfl))
  obtain ⟨hstarts, b, hb, hsaidB⟩ := optionalBackground_run (b := none) (written_shell rs).newline
    (by simp) (by simp) hat₁ hlast htest.starts
  exact feature_parts (f := shellFeature rs) (List.forall_mem_nil _)
    (headed_shell (by decide : "Feature".toList ∈ Keywords.en.feature.map String.toList)) [] trivial
    hat hlang hstarts hb hsaidB hreads (.cons hsaid .nil)

lemma begins_shell (rs : List Row) : Begins (shellLines rs) := by
  have hhead : Headed Keywords.en.feature "Feature".toList shellName [] := headed_shell (by decide)
  have hshown := (shown_keywordLine [] 0 leading_feature hhead []).1
  have hline : keywordLine "Feature".toList [] shellName
      = 'F' :: (keywordLine "Feature".toList [] shellName).tail := by decide +kernel
  rw [hline] at hshown
  refine ⟨'F', _, scenarioHead ++ [shellStep rs].flatMap (stepAt 0 0), ?_, by decide, by decide, hshown⟩
  rw [← hline]
  rfl

/-- Rows that are equally long are read again, as the rows of a table that says the same. -/
lemma read_rows (hne : rs ≠ []) (heven : Row.Even rs) {k : Fragment}
    (hk : ∀ t, (k.wrap t).1 = Fragment.stepShell ++ t) :
    ∃ f t, Fragment.firstTable? f = some t
      ∧ t.relined nowhere = ({ rows := rs } : Table).relined nowhere
      ∧ ∀ n, Fragment.extract? f k = some n →
        Fragment.read k .english (joinLines (Table.linesOfRows rs)) = .ok n := by
  obtain ⟨f, hsaid, hread⟩ := (begins_shell rs).read (written_shell rs).newline
    ((congrArg terminated (hk _)).trans (terminated_shell hne))
    fun s hat hlang hlast => shell_run hne heven hat hlang hlast
  have htable : (Fragment.firstTable? f).map (Table.relined nowhere)
      = some (({ rows := rs } : Table).relined nowhere) := by
    rw [← Fragment.firstTable?_relined, hsaid, Fragment.firstTable?_relined]
    rfl
  obtain ⟨t, ht, hrelined⟩ := Option.map_eq_some_iff.mp htable
  exact ⟨f, t, ht, hrelined, hread⟩

end RoundTrip

namespace Fragment

open RoundTrip

/-- **Tables and rows that stand alone are read again from their own text**, as the same table or
row, which has the same text. -/
theorem tabular_reread (t : Text) :
    (∀ T, Fragment.read .table .english t = .ok (.table T) →
      ∃ T', Fragment.read .table .english (Node.render (.table T)) = .ok (.table T')
        ∧ Node.same (.table T') (.table T) = true
        ∧ Node.render (.table T') = Node.render (.table T))
      ∧ ∀ r, Fragment.read .row .english t = .ok (.row r) →
        ∃ r', Fragment.read .row .english (Node.render (.row r)) = .ok (.row r')
          ∧ Node.same (.row r') (.row r) = true
          ∧ Node.render (.row r') = Node.render (.row r) := by
  constructor
  · intro T h
    obtain ⟨f, hw, hT⟩ := exists_wellRead (k := .table) (not_hasHeader_shell t) h
    obtain ⟨hne, heven⟩ := even_of_firstTable? hw (t := T) (by simpa [extract?] using hT)
    obtain ⟨f', T', hT', hsaid, hread⟩ := read_rows hne heven (k := .table) fun _ => rfl
    obtain ⟨hrender, hsame⟩ := Table.alike_of_relined (a := T') (b := T) nowhere hsaid
    exact ⟨T', hread _ (by simp [extract?, hT']), hsame, hrender⟩
  · intro r h
    obtain ⟨f, hw, hr⟩ := exists_wellRead (k := .row) (not_hasHeader_shell t) h
    obtain ⟨T, hT, hhead⟩ : ∃ T, firstTable? f = some T ∧ T.rows.head? = some r := by
      simpa [extract?, Option.bind_eq_some_iff] using hr
    -- the first row makes a table of its own
    obtain ⟨-, w, heven⟩ := even_of_firstTable? hw hT
    have hsingle : Row.Even [r] := ⟨w, by simpa using heven r (List.mem_of_mem_head? hhead)⟩
    obtain ⟨f', T', hT', hsaid, hread⟩ := read_rows (by simp) hsingle (k := .row) fun _ => rfl
    obtain ⟨r', hr', hrelined⟩ : ∃ r', T'.rows = [r'] ∧ r'.relined nowhere = r.relined nowhere :=
      List.map_eq_singleton_iff.mp (congrArg Table.rows hsaid)
    obtain ⟨hrender, hsame⟩ := Row.alike_of_relined nowhere hrelined
    exact ⟨r', hread _ (by simp [extract?, hT', hr']), hsame, hrender⟩

/-- Whether a fragment is read as a node with a property. -/
def readsAs (k : Fragment) (p : Node → Bool) (t : Text) : Bool :=
  match Fragment.read k .english t with
  | .ok n => p n
  | .error _ => false

lemma exists_of_readsAs {k : Fragment} {p : Node → Bool} {t : Text} (h : readsAs k p t = true) :
    ∃ n, Fragment.read k .english t = .ok n ∧ p n = true := by
  rw [readsAs] at h
  split at h
  · rename_i n hn
    exact ⟨n, hn, h⟩
  · simp at h

/-- An escaped pipe and a backslash, a comment between the rows, and a row that is cut to the width
of the first. -/
theorem tabular_reread_ragged :
    let t := "| a \\| b |c\\\\|\n\n# x\n|d|e|f|".toList
    ∃ T r, Fragment.read .table .english t = .ok (.table T)
      ∧ T.rows.map Row.values = [["a | b".toList, "c\\".toList], ["d".toList, "e".toList]]
      ∧ Fragment.read .row .english t = .ok (.row r)
      ∧ r.values = ["a | b".toList, "c\\".toList]
      ∧ (∃ T', Fragment.read .table .english (Node.render (.table T)) = .ok (.table T')
        ∧ Node.same (.table T') (.table T) = true
        ∧ Node.render (.table T') = Node.render (.table T))
      ∧ ∃ r', Fragment.read .row .english (Node.render (.row r)) = .ok (.row r')
        ∧ Node.same (.row r') (.row r) = true
        ∧ Node.render (.row r') = Node.render (.row r) := by
  intro t
  obtain ⟨n, hn, hT⟩ := exists_of_readsAs (k := .table) (t := t) (p := fun n => match n with
    | .table T => T.rows.map Row.values
      == [["a | b".toList, "c\\".toList], ["d".toList, "e".toList]]
    | _ => false) (by decide +kernel)
  obtain ⟨m, hm, hr⟩ := exists_of_readsAs (k := .row) (t := t) (p := fun n => match n with
    | .row r => r.values == ["a | b".toList, "c\\".toList]
    | _ => false) (by decide +kernel)
  split at hT
  · split at hr
    · exact ⟨_, _, hn, beq_iff_eq.mp hT, hm, beq_iff_eq.mp hr, (tabular_reread t).1 _ hn,
        (tabular_reread t).2 _ hm⟩
    · simp at hr
  · simp at hT

end Fragment

end FeatureTree
