import FeatureTree.Proofs.RoundTrip.Blocks

/-!
Rendered steps are read, each with its block, and located where they were written.
-/

namespace FeatureTree.RoundTrip

open Text Grammar Parse

variable {D before after : List Text} {j k : Nat} {s : State}

/-! ### Blocks below a step -/

/-- No doc string is read where a table or something else follows. -/
lemma docString_none (h : Starts ("|" :: marks) s.rest) : Grammar.docString s = (none, s) := by
  have hnot := h.absent apart_fences (by simp)
  have hq : fence? Fence.quotes.mark s.rest = none := fence?_eq_none (hnot "\"\"\"" (by simp))
  have hg : fence? Fence.backquotes.mark s.rest = none :=
    fence?_eq_none (hnot "\x60\x60\x60" (by simp))
  have hfirst : Parse.read (fence? Fence.quotes.mark) s = (none, s.on s.rest) := read_none hq
  rw [Grammar.docString, bind_none ((orElse_none hfirst).trans (read_none hg))]

/-- No table is read where something else follows. -/
lemma table_none (h : Starts marks s.rest) : table s = (none, s) := by
  have hrow : spaced1 (Parse.read row?) s = (none, s) := bind_none (read_none (row?_marks h))
  rw [table, bind_some (mark_run s), bind_skip (h.atWord isWord_of_mem_marks).skipSpaces,
    bind_none hrow]

/-- The lines of a block, if there is one. -/
def blockLines (k : Nat) (b : Option Block) : List Text := (b.map fun b => indent k b.lines).getD []

/-- The first row of a table. -/
lemma exists_row {rs : List Row} (hne : rs ≠ []) (before : List Text) (k : Nat) :
    ∃ l y ls, indent k (Table.linesOfRows rs) = indentLine k l :: ls ∧ l ≠ []
      ∧ Shown before k l ('|' :: y) := by
  obtain ⟨width, hlines⟩ := Table.indent_linesOfRows rs k
  obtain ⟨r, rs, rfl⟩ := List.exists_cons_of_ne_nil hne
  obtain ⟨y, hy, -⟩ := shown_row before k width r.values
  exact ⟨_, y, _, hlines, Table.rowLine_ne_nil _ _, hy⟩

/-- A table starts with a pipe. -/
lemma starts_table (before : List Text) (k : Nat) {rs : List Row} (hne : rs ≠ [])
    (after : List Text) :
    AtWord (ahead before (indent k (Table.linesOfRows rs) ++ after))
      ∧ Starts ["|"] (ahead before (indent k (Table.linesOfRows rs) ++ after)) := by
  obtain ⟨l, y, ls, hl, -, hshown⟩ := exists_row hne before k
  rw [hl, List.cons_append]
  refine ⟨hshown.atWord _, .inr ⟨"|", by simp, ?_⟩⟩
  rw [hshown.ahead_eq]
  exact ⟨_, rfl⟩

/-- A rendered table is read and located. -/
lemma table_says {rs : List Row} (hD : ∀ l ∈ D, '\n' ∉ l) (hne : rs ≠ []) (heven : Row.Even rs)
    (hf : FaithfulRows (Fence.run none before) rs)
    (hat : At D s before (indent k (Table.linesOfRows rs) ++ after))
    (hstop : Starts marks (ahead (before ++ indent k (Table.linesOfRows rs)) after)) :
    ∃ t, table s = (some t, s.on (ahead (before ++ indent k (Table.linesOfRows rs)) after))
      ∧ ∀ fr : Frame, fr.source = Source.ofText (unlines D) →
        (Locate.rows fr t).map (Row.relined nowhere) = rs.map (Row.relined nowhere) := by
  obtain ⟨w, heven⟩ := heven
  obtain ⟨l, y, ls, hl, hlne, hshown⟩ := exists_row hne before k
  obtain ⟨t, ht, hlen, hwidth, hstart⟩ :=
    table_run hne (fun r hr => (heven r hr).1) hf hat.rest hstop
  refine ⟨t, ht, fun fr hfr => ?_⟩
  have hlines := hat.lines
  rw [hlines] at hD
  have hb : ∀ x ∈ before, '\n' ∉ x := fun x hx => hD x (by simp [hx])
  have ha : ∀ x ∈ after, '\n' ∉ x := fun x hx => hD x (by simp [hx])
  have hline : fr.source.lineOf t.span.start = before.length + 1 := by
    rw [hfr, hstart, hat.size, hat.rest, hlines, hl, List.cons_append]
    exact hshown.lineOf hb hlne (ls ++ after)
  exact located_rows hb ha heven (by rw [hfr, hlines]) hlen hwidth hline

/-- The block of a step is read and located. -/
lemma block_run {b : Option Block} (hD : ∀ l ∈ D, '\n' ∉ l) (hat : At D s before (blockLines k b ++ after))
    (hw : ∀ x, b = some x → x.WellRead) (hf : ∀ x ∈ b, x.Faithful (Fence.run none before))
    (hstop : Starts marks (ahead (before ++ blockLines k b) after)) :
    AtWord s.rest ∧ ∃ doc tab s', optional Grammar.docString s = (some doc, s')
      ∧ optional table s' = (some tab, s.on (ahead (before ++ blockLines k b) after))
      ∧ ∀ (fr : Frame) (x : Grammar.Step), fr.source = Source.ofText (unlines D) →
        x.docString = doc → x.table = tab →
        (Locate.block fr before.length x).map (Block.relined nowhere)
          = b.map (Block.relined nowhere) := by
  have hrest := hat.rest
  have hlines := hat.lines
  have hnl : (∀ l ∈ before, '\n' ∉ l) ∧ ∀ l ∈ after, '\n' ∉ l := by
    rw [hlines] at hD
    exact ⟨fun l hl => hD l (by simp [hl]), fun l hl => hD l (by simp [hl])⟩
  rcases b with _ | (t | d)
  · -- neither a doc string nor a table
    have hs : s.rest = ahead before after := hrest
    have hstop' : Starts marks s.rest := by
      rw [hs]
      simpa [blockLines] using hstop
    have hdoc : Grammar.docString s = (none, s.on s.rest) :=
      docString_none (hstop'.mono fun w hw => ⟨w, by simp [hw], List.prefix_refl _⟩)
    have htab : table s = (none, s.on s.rest) := table_none hstop'
    refine ⟨hstop'.atWord isWord_of_mem_marks, none, none, s, optional_none hdoc, ?_, ?_⟩
    · rw [optional_none htab]
      simp [blockLines, ← hs]
    · intro fr x _ hxd hxt
      rw [Locate.block, hxt, hxd]
      rfl
  · -- a table
    obtain ⟨hne, heven⟩ := hw _ rfl
    obtain ⟨hword, hpipe⟩ := starts_table before k hne after
    have hblock : blockLines k (some (.table t)) = indent k (Table.linesOfRows t.rows) := rfl
    rw [hblock] at hstop ⊢
    have hrest : s.rest = ahead before (indent k (Table.linesOfRows t.rows) ++ after) := hat.rest
    have hdoc : Grammar.docString s = (none, s.on s.rest) := by
      refine docString_none ?_
      rw [hrest]
      exact hpipe.mono (by simp)
    obtain ⟨tab, htab, hsaid⟩ := table_says hD hne heven (hf _ rfl) hat hstop
    refine ⟨hrest ▸ hword, none, some tab, s, optional_none hdoc, optional_some htab, ?_⟩
    intro fr x hfr hxd hxt
    rw [Locate.block, hxt]
    simp only [Option.map_some, Block.relined, Table.relined, Locate.table, hsaid fr hfr, nowhere]
  · -- a doc string
    have hblock : blockLines k (some (.docString d)) = indent k d.lines := rfl
    rw [hblock] at hrest hlines hstop ⊢
    obtain ⟨body, hdoc⟩ := docString_run (hw _ rfl) (hf _ rfl) hrest
    have htab : table (s.on (ahead (before ++ indent k d.lines) after))
        = (none, (s.on (ahead (before ++ indent k d.lines) after)).on _) := table_none hstop
    have hword : AtWord s.rest := by
      rw [hrest, DocString.lines_eq, indent_cons]
      exact (shown_of_not_isRow before k (solid_openingLine (hw _ rfl)) rfl).atWord _
    refine ⟨hword, some body, none, _, optional_some hdoc, optional_none htab, ?_⟩
    intro fr x hfr hxd hxt
    rw [Locate.block, hxt, hxd]
    simp only [Option.map_some, Block.relined]
    rw [located_docString (hw _ rfl) (hf _ rfl) hnl.1 hnl.2 (by rw [hfr, hlines])]

/-! ### One step -/

/-- The line of a step. -/
def stepLine (st : Step) : Text := st.keyword ++ ' ' :: st.text

variable {st : Step}

lemma trimEnd_stepLine (hw : st.WellRead) (ht : st.text ≠ []) :
    trimEnd (stepLine st) = stepLine st := by
  have := trimEnd_append_eq_self (st.keyword ++ [' ']) ht (trimEnd_eq_self_of_trim hw.text.1)
  simpa [stepLine] using this

/-- The lines of a step at level `k` whose block stands at level `j`. -/
def stepAt (k j : Nat) (st : Step) : List Text :=
  indentLine k (stepLine st) :: blockLines j st.block

lemma lines_step (hw : st.WellRead) (ht : st.text ≠ []) :
    indent k st.lines = stepAt k (k + 1) st := by
  obtain ⟨hne, -, -, -⟩ := stepKeyword_facts _ hw.keyword
  have htrim := trimEnd_stepLine hw ht
  rw [stepLine] at htrim
  rw [Step.lines, if_neg (by simpa using hne), htrim, indent_cons, stepAt]
  cases hb : st.block with
  | none => rfl
  | some b =>
    simp only [blockLines, Option.map_some, Option.getD_some, indent_indent]
    rfl

lemma isLead_stepLine (hw : st.WellRead) : isLead (stepLine st) = true :=
  isLead_append (stepKeyword_facts _ hw.keyword).2.1 _

lemma shown_step (before : List Text) (k : Nat) (hw : st.WellRead) (ht : st.text ≠ []) :
    Shown before k (stepLine st) (stepLine st) := by
  refine shown_of_isLead before k (isLead_stepLine hw) ?_ (trimEnd_stepLine hw ht)
  have := (stepKeyword_facts _ hw.keyword).2.2.1
  simp [stepLine, this, hw.text.2]

/-- The fence after a step does not depend on where its lines stand. -/
lemma run_stepAt (hw : st.WellRead) (ht : st.text ≠ []) (o : Option Fence) :
    Fence.run o (stepAt k j st) = Fence.run o st.lines := by
  have hblock : ∀ i, Fence.run o (blockLines i st.block) = Fence.run o (blockLines 0 st.block) := by
    intro i
    cases st.block with
    | none => rfl
    | some b => simp [blockLines, Fence.run_indent]
  have hall : ∀ k j, Fence.run o (stepAt k j st) = Fence.run o (blockLines 0 st.block) := by
    intro k j
    have hcons : stepAt k j st = [indentLine k (stepLine st)] ++ blockLines j st.block := rfl
    rw [hcons, Fence.run_append, run_of_isLead o k (isLead_stepLine hw), hblock]
  rw [← indent_zero st.lines, lines_step hw ht, hall, hall]

/-- What a step of the tree says once it is located. -/
def SaysStep (D : List Text) (x : Grammar.Step) (st : Step) : Prop :=
  ∀ fr : Frame, fr.source = Source.ofText (unlines D) →
    (Locate.step fr x).relined nowhere = st.relined nowhere

/-- A rendered step is read with its keyword. -/
lemma stepWith_run (f : Keywords → List String) (type : Parse StepType) {ty : StepType}
    (hD : ∀ l ∈ D, '\n' ∉ l) (hw : st.WellRead) (hf : st.Faithful (Fence.run none before))
    (hat : At D s before (stepAt k j st ++ after))
    (hstop : Starts marks (ahead (before ++ stepAt k j st) after))
    (hclear : Clear (f .en)) (hk : st.keyword ++ [' '] ∈ (f .en).map String.toList)
    (htype : ∀ r, type (s.on r) = (some ty, s.on r)) :
    ∃ x, stepWith f type s
        = (some x, (s.on (ahead (before ++ stepAt k j st) after)).past ty)
      ∧ SaysStep D x st := by
  obtain ⟨ht, hblock⟩ := hf
  have hshown := shown_step before k hw ht
  set line := indentLine k (stepLine st) with hline
  have hlines : stepAt k j st = line :: blockLines j st.block := rfl
  set u := below (before ++ [line]) (blockLines j st.block ++ after) with hu
  have hrest : s.rest = (st.keyword ++ [' ']) ++ (st.text ++ '\n' :: u) := by
    rw [hat.rest, hlines, List.cons_append, hshown.ahead_eq]
    change stepLine st ++ '\n' :: u = _
    simp [stepLine]
  have hword : AtWord s.rest := by
    rw [hat.rest, hlines]
    exact hshown.atWord _
  -- the keyword and the text of the step, up to the end of the line
  have hkeyword : keyword f s = (some (st.keyword ++ [' ']), s.on (st.text ++ '\n' :: u)) := by
    refine keyword_some ?_
    rw [hat.keywords, hrest]
    exact keyword?_of_mem hclear hk (hrest ▸ hword)
  have hspaces := skipSpaces_of_trimStart ht (trimStart_eq_self_of_trim hw.text.1) ('\n' :: u)
  have htext : Parse.read lineText? (s.on (st.text ++ '\n' :: u)) = (some st.text, s.on ('\n' :: u)) :=
    read_some (lineText?_line ht hw.text.2
      (getLast?_ne_return_of_trimEnd (trimEnd_eq_self_of_trim hw.text.1)) u)
  have hlayout : expect layout? (s.on ('\n' :: u)) = (some (),
      s.on (ahead (before ++ [line]) (blockLines j st.block ++ after))) :=
    expect_some (layout?_newline u)
  -- its block
  have hplaced : before ++ [line] ++ blockLines j st.block = before ++ stepAt k j st := by
    rw [hlines]
    simp
  have hrun : Fence.run none (before ++ [line]) = Fence.run none before := by
    rw [Fence.run_append, run_of_isLead _ k (isLead_stepLine hw)]
  have hat' : At D s before ([line] ++ (blockLines j st.block ++ after)) := by
    have := hat
    rwa [hlines, List.cons_append] at this
  obtain ⟨hword', doc, tab, s', hdoc, htab, hsaid⟩ := block_run hD hat'.move hw.block
    (by rwa [hrun]) (by rwa [hplaced])
  rw [hplaced, State.on_on] at htab
  have hall : ∃ x : Grammar.Step, stepWith f type s
        = (some x, (s.on (ahead (before ++ stepAt k j st) after)).past ty)
      ∧ x.keyword = st.keyword ++ [' '] ∧ x.value = trimEnd st.text ∧ x.docString = doc
      ∧ x.table = tab ∧ x.span.start = s.size - byteLength s.rest := by
    rw [stepWith, bind_some (mark_run s), bind_some hkeyword, bind_skip hspaces, bind_some htext,
      bind_some (mark_run _), bind_skip rfl, bind_some hlayout, bind_skip hword'.skipSpaces,
      bind_some hdoc, bind_some htab, bind_some (htype _)]
    exact ⟨_, rfl, rfl, rfl, rfl, rfl, rfl⟩
  obtain ⟨x, hx, hxk, hxv, hxd, hxt, hxs⟩ := hall
  refine ⟨x, hx, fun fr hfr => ?_⟩
  have hstart : fr.source.lineOf x.span.start = (before ++ [line]).length := by
    have hb : ∀ l ∈ before, '\n' ∉ l := fun l hl => hD l (by rw [hat.lines]; simp [hl])
    rw [hfr, hxs, hat.size, hat.rest, hat.lines, hlines, List.cons_append,
      hshown.lineOf hb hshown.solid.ne_nil]
    simp
  have htrim : trim (st.keyword ++ [' ']) = st.keyword := by
    rw [trim_append_blank _ isBlank_space, (stepKeyword_facts _ hw.keyword).2.2.2]
  have hvalue : trim (trimEnd st.text) = st.text := by
    rw [trimEnd_eq_self_of_trim hw.text.1, hw.text.1]
  simp only [Locate.step, Step.relined, hstart, hsaid fr x hfr hxd hxt, hxk, hxv, htrim, hvalue,
    nowhere]

/-- A step with other keywords is not read. -/
lemma stepWith_none {f : Keywords → List String} {type : Parse StepType}
    (hk : s.keywords = .en) (hword : AtWord s.rest) (h : ∀ w ∈ f .en, ¬ w.toList <+: s.rest) :
    stepWith f type s = (none, s.on s.rest) := by
  have : keyword f s = (none, s) :=
    keyword_none (by rw [hk]; exact hword.keyword?_eq_none_iff.mpr h)
  rw [stepWith, bind_some (mark_run s), bind_none this]
  rfl

/-- A rendered step starts with its keyword. -/
lemma prefix_step (hw : st.WellRead) (ht : st.text ≠ []) :
    st.keyword ++ [' '] <+: ahead before (stepAt k j st ++ after) := by
  rw [stepAt, List.cons_append, (shown_step before k hw ht).ahead_eq]
  exact ⟨st.text ++ _, by simp [stepLine]; rfl⟩

/-- **A rendered step is read**, and a conjunction too if a step came before it. -/
lemma step_run (hD : ∀ l ∈ D, '\n' ∉ l) (hw : st.WellRead)
    (hf : st.Faithful (Fence.run none before)) (hat : At D s before (stepAt k j st ++ after))
    (hstop : Starts marks (ahead (before ++ stepAt k j st) after))
    (hlast : s.last = none → st.keyword ∉ Step.conjunctions.map String.toList) :
    ∃ x ty, step s = (some x, (s.on (ahead (before ++ stepAt k j st) after)).past ty)
      ∧ SaysStep D x st := by
  have hword : AtWord s.rest := by
    rw [hat.rest]
    exact (shown_step before k hw hf.1).atWord _
  have hprefix : st.keyword ++ [' '] <+: s.rest := hat.rest ▸ prefix_step hw hf.1
  have hother : ∀ {f : Keywords → List String} {type : Parse StepType},
      Free (f .en) (st.keyword ++ [' ']) → stepWith f type s = (none, s.on s.rest) :=
    fun h => stepWith_none hat.keywords hword (h.absent hprefix)
  have hread : ∀ (f : Keywords → List String) (type : Parse StepType) {ty : StepType},
      f ∈ stepKeywords → st.keyword ++ [' '] ∈ (f .en).map String.toList →
      (∀ r, type (s.on r) = (some ty, s.on r)) → _ := fun f type _ hf' hk htype =>
    stepWith_run f type hD hw hf hat hstop (clear_of_mem f (List.mem_append_right _ hf')) hk htype
  have hcomments : ∀ {type : Parse StepType},
      (do skip skipComments; stepWith Keywords.stepGiven type) s
        = stepWith Keywords.stepGiven type s := bind_skip hword.skipComments
  have hconj : st.keyword ∈ Step.conjunctions.map String.toList →
      ∃ ty, ∀ r, last (s.on r) = (some ty, s.on r) := by
    intro hc
    obtain ⟨ty, hty⟩ := Option.ne_none_iff_exists'.mp fun hn => hlast hn hc
    exact ⟨ty, fun r => by rw [last, State.on_last, hty]⟩
  rcases stepKeyword_cases _ hw.keyword with hk | ⟨hgiven, hk | ⟨hwhen, hk | ⟨hthen, hc, hk⟩⟩⟩
  · obtain ⟨x, hx, hsaid⟩ := hread Keywords.stepGiven (pure .context) (by simp [stepKeywords]) hk
      fun _ => rfl
    exact ⟨x, .context, orElse_some (hcomments.trans hx), hsaid⟩
  · obtain ⟨x, hx, hsaid⟩ := hread Keywords.stepWhen (pure .action) (by simp [stepKeywords]) hk
      fun _ => rfl
    refine ⟨x, .action, ?_, hsaid⟩
    rw [step, orElse_none (hcomments.trans (hother hgiven)), orElse_some hx]
  · obtain ⟨x, hx, hsaid⟩ := hread Keywords.stepThen (pure .outcome) (by simp [stepKeywords]) hk
      fun _ => rfl
    refine ⟨x, .outcome, ?_, hsaid⟩
    rw [step, orElse_none (hcomments.trans (hother hgiven)), orElse_none (hother hwhen),
      orElse_some hx]
  · obtain ⟨ty, hty⟩ := hconj hc
    rcases hk with hk | ⟨hand, hk⟩
    · obtain ⟨x, hx, hsaid⟩ := hread Keywords.stepAnd last (by simp [stepKeywords]) hk hty
      refine ⟨x, ty, ?_, hsaid⟩
      rw [step, orElse_none (hcomments.trans (hother hgiven)), orElse_none (hother hwhen),
        orElse_none (hother hthen), orElse_some hx]
    · obtain ⟨x, hx, hsaid⟩ := hread Keywords.stepBut last (by simp [stepKeywords]) hk hty
      refine ⟨x, ty, ?_, hsaid⟩
      rw [step, orElse_none (hcomments.trans (hother hgiven)), orElse_none (hother hwhen),
        orElse_none (hother hthen), orElse_none (hother hand), hx]

/-! ### Steps in a row -/

/-- No step is read where another section follows. -/
lemma step_none (hk : s.keywords = .en) (h : Starts sections s.rest) :
    step s = (none, s.on s.rest) := by
  have hword := h.atWord isWord_of_mem_sections
  have hother : ∀ {f : Keywords → List String} {type : Parse StepType}, f ∈ stepKeywords →
      stepWith f type s = (none, s.on s.rest) := fun {f} _ hf =>
    stepWith_none hk hword (h.absent (apart_sections f (List.mem_cons_of_mem _ hf))
      fun w hw => isWord_ne_nil (isWord_of_mem_step hf w hw))
  have hfirst : (do skip skipComments; stepWith Keywords.stepGiven (pure .context)) s
      = (none, s.on s.rest) :=
    (bind_skip hword.skipComments).trans (hother (by simp [stepKeywords]))
  rw [step, orElse_none hfirst, orElse_none (hother (by simp [stepKeywords])),
    orElse_none (hother (by simp [stepKeywords])), orElse_none (hother (by simp [stepKeywords])),
    hother (by simp [stepKeywords])]

/-- Steps, or what follows all of them, end a description. -/
lemma starts_steps {sts : List Step} (hw : ∀ st ∈ sts, st.WellRead) (ht : ∀ st ∈ sts, st.text ≠ [])
    (hstop : Starts sections (ahead (before ++ sts.flatMap (stepAt k j)) after)) :
    Starts ("@" :: stepWords .en) (ahead before (sts.flatMap (stepAt k j) ++ after)) := by
  cases sts with
  | nil =>
    rw [List.flatMap_nil, List.append_nil] at hstop
    refine hstop.tests.of_subset fun w => ?_
    simp only [stepWords, List.mem_cons, List.mem_append]
    grind
  | cons st sts =>
    obtain ⟨v, hv, he⟩ := List.mem_map.mp (mem_stepWords (hw st (by simp)).keyword)
    rw [List.flatMap_cons, List.append_assoc]
    refine .inr ⟨v, List.mem_cons_of_mem _ hv, ?_⟩
    rw [he]
    exact prefix_step (hw st (by simp)) (ht st (by simp))

lemma text_of_each {o : Option Fence} {sts : List Step}
    (h : Fence.Each Step.Faithful Step.lines o sts) : ∀ st ∈ sts, st.text ≠ [] := by
  intro st hst
  obtain ⟨o', ho⟩ := h.exists_of_mem hst
  exact ho.1

lemma lines_steps {sts : List Step} (hw : ∀ st ∈ sts, st.WellRead)
    (ht : ∀ st ∈ sts, st.text ≠ []) :
    indent k (sts.flatMap Step.lines) = sts.flatMap (stepAt k (k + 1)) := by
  rw [indent_flatMap]
  exact List.flatMap_congr fun st hst => lines_step (hw st hst) (ht st hst)

/-- **Rendered steps are read**, one after the other, up to the next section. -/
lemma steps_run {sts : List Step} (hD : ∀ l ∈ D, '\n' ∉ l) (hw : Step.Sequence sts)
    (hf : Fence.Each Step.Faithful Step.lines (Fence.run none before) sts)
    (hat : At D s before (sts.flatMap (stepAt k j) ++ after)) (hlast : s.last = none)
    (hstop : Starts sections (ahead (before ++ sts.flatMap (stepAt k j)) after)) :
    ∃ xs, steps s = (some xs, s.on (ahead (before ++ sts.flatMap (stepAt k j)) after))
      ∧ List.Forall₂ (SaysStep D) xs sts := by
  have key := reads_all step (stepAt k j) after (SaysStep D)
    (fun b s' sts' =>
      At D s' b (sts'.flatMap (stepAt k j) ++ after)
      ∧ s' = { s with rest := s'.rest, last := s'.last }
      ∧ (∀ st ∈ sts', st.WellRead)
      ∧ (s'.last = none → ∀ st, sts'.head? = some st →
        st.keyword ∉ Step.conjunctions.map String.toList)
      ∧ Fence.Each Step.Faithful Step.lines (Fence.run none b) sts'
      ∧ Starts sections (ahead (b ++ sts'.flatMap (stepAt k j)) after))
    ?_ ?_ before s sts
    ⟨hat, rfl, hw.each, fun _ => hw.first, hf, hstop⟩ hat.rest
  · obtain ⟨xs, s', hreads, hsaid, ⟨-, hs', -⟩, hrest'⟩ := key
    refine ⟨xs, ?_, hsaid⟩
    have hend : s.on (ahead (before ++ sts.flatMap (stepAt k j)) after)
        = { s' with last := none } := by
      rw [hs', hrest', ← hlast]
      rfl
    rw [steps, bind_some (spaced_of_reads hreads), hend]
    rfl
  · rintro b s' ⟨hat', -, -, -, -, hstop'⟩ hrest'
    rw [List.flatMap_nil, List.append_nil, ← hrest'] at hstop'
    exact ⟨hstop'.atWord isWord_of_mem_sections, _, step_none hat'.keywords hstop'⟩
  · rintro b s' st sts' ⟨hat', hs', hw', hfirst, hf', hstop'⟩ hrest'
    rw [List.flatMap_cons, List.append_assoc] at hat'
    have hstw : st.WellRead := hw' st (by simp)
    rw [List.flatMap_cons, ← List.append_assoc] at hstop'
    have hnext := starts_steps (fun x hx => hw' x (by simp [hx])) (text_of_each hf'.2) hstop'
    have hmarks : Starts marks (ahead (b ++ stepAt k j st) (sts'.flatMap (stepAt k j) ++ after)) :=
      hnext.of_subset fun w => by simp only [marks, List.mem_cons, List.mem_append]; grind
    have hshown := shown_step b k hstw hf'.1.1
    obtain ⟨x, ty, hx, hsaid⟩ := step_run hD hstw hf'.1 hat' hmarks fun hn => hfirst hn st rfl
    have hmove := hat'.move
    refine ⟨?_, x, _, hx, hsaid, ⟨⟨hmove.lines, rfl, hmove.size, hmove.keywords⟩, ?_, ?_, ?_, ?_,
      hstop'⟩, rfl, ?_⟩
    · rw [hrest']
      exact hshown.atWord _
    · rw [hs']; rfl
    · exact fun x hx => hw' x (by simp [hx])
    · intro hn
      simp [State.past] at hn
    · rw [Fence.run_append, run_stepAt hstw hf'.1.1]
      exact hf'.2
    · rw [hrest']
      exact hshown.length_lt _ _

end FeatureTree.RoundTrip
