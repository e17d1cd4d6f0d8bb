import FeatureTree.Dialect.Keywords
import FeatureTree.Document.Locate
import FeatureTree.Proofs.DocString.ReadBack
import FeatureTree.Proofs.Grammar.Lexical
import FeatureTree.Proofs.Text.Prose

/-!
What is known of a part that was read from an English text: its keyword is one of the language,
its name or text is on one line, its description is prose, its tags are single words, the rows of
its table are equally long, and no conjunction comes first among its steps.

Most of it is what the grammar gives. The rows, the tags and the doc strings are read again from
the text, and are well read whatever is found there.
-/

namespace FeatureTree

open Text

/-- A name or the text of a step: one line without outer blanks. -/
def Title (t : Text) : Prop := trim t = t ∧ '\n' ∉ t

def Tag.WellRead (t : Tag) : Prop := ∃ w, t.name = '@' :: w ∧ Grammar.TagWord w

/-- Rows of trimmed values, all of one width. -/
def Row.Even (rs : List Row) : Prop :=
  ∃ w, ∀ r ∈ rs, r.values.length = w ∧ ∀ v ∈ r.values, trim v = v

def Block.WellRead : Block → Prop
  | .table t => t.rows ≠ [] ∧ Row.Even t.rows
  | .docString d => d.TypeFits

namespace Step

/-- The keywords of steps, without the blank after them. -/
def keywords : List String := ["*", "Given", "When", "Then", "And", "But"]

/-- The keywords that go on with what the step before does. -/
def conjunctions : List String := ["And", "But"]

structure WellRead (s : Step) : Prop where
  keyword : s.keyword ∈ keywords.map String.toList
  text : Title s.text
  block : ∀ b, s.block = some b → b.WellRead

/-- Steps in a row, the first of them no conjunction. -/
structure Sequence (ss : List Step) : Prop where
  each : ∀ s ∈ ss, s.WellRead
  first : ∀ s, ss.head? = some s → s.keyword ∉ conjunctions.map String.toList

end Step

/-- The keyword line and the description of a section. -/
structure Headed (words : List String) (keyword name description : Text) : Prop where
  keyword : keyword ∈ words.map String.toList
  name : Title name
  description : ∃ ls, description = joinLines ls ∧ Prose ls

structure Background.WellRead (b : Background) : Prop where
  head : Headed Keywords.en.background b.keyword b.name b.description
  steps : Step.Sequence b.steps

structure Examples.WellRead (x : Examples) : Prop where
  head : Headed Keywords.en.examples x.keyword x.name x.description
  tags : ∀ t ∈ x.tags, t.WellRead
  rows : Row.Even x.rows

structure Scenario.WellRead (s : Scenario) : Prop where
  head : Headed Keywords.en.scenario s.keyword s.name s.description
  tags : ∀ t ∈ s.tags, t.WellRead
  steps : Step.Sequence s.steps

/-- An outline may have the keyword of a scenario, but only if it has examples. -/
structure Outline.WellRead (o : Outline) : Prop where
  head : Headed (Keywords.en.scenario ++ Keywords.en.outline) o.keyword o.name o.description
  tags : ∀ t ∈ o.tags, t.WellRead
  steps : Step.Sequence o.steps
  examples : ∀ x ∈ o.examples, x.WellRead
  outline : o.examples = [] → o.keyword ∈ Keywords.en.outline.map String.toList

def Test.WellRead : Test → Prop
  | .scenario s => s.WellRead
  | .outline o => o.WellRead

structure Feature.WellRead (f : Feature) : Prop where
  head : Headed Keywords.en.feature f.keyword f.name f.description
  tags : ∀ t ∈ f.tags, t.WellRead
  background : ∀ b, f.background = some b → b.WellRead
  tests : ∀ t ∈ f.tests, t.WellRead

/-! ### What is read again from the text -/

lemma title_trim {t : Text} (h : '\n' ∉ t) : Title (trim t) :=
  ⟨trim_trim t, fun hn => h (mem_of_mem_trim hn)⟩

lemma Source.newline_not_mem_lines {t l : Text} (h : l ∈ (Source.ofText t).lines) : '\n' ∉ l := by
  obtain ⟨p, hp, rfl⟩ := List.mem_map.mp h
  obtain ⟨l, hl, rfl | rfl⟩ := exists_of_mem_pieces hp
  · rw [Source.lineOfPiece_newline]
    exact fun hn => hl (mem_of_mem_dropReturn hn)
  · rw [Source.lineOfPiece_of_not_mem hl]
    exact fun hn => hl (mem_of_mem_dropReturn hn)

lemma Cells.trim_of_mem_splitFrom {cur t v : Text} (h : v ∈ splitFrom cur t) : trim v = v := by
  fun_induction splitFrom cur t with
  | case5 cur t ih =>
    rcases List.mem_cons.mp h with rfl | h
    · exact trim_trim _
    · exact ih h
  | case7 => simp at h
  | _ => rename_i ih; exact ih h

namespace Locate

/-- The frame of a text without a shell. -/
abbrev frame (t : Text) : Frame := ⟨Source.ofText t, 0⟩

lemma relative_frame (t : Text) {n : Nat} (h : 1 ≤ n) : (frame t).relative n = some n := by
  rw [Frame.relative, if_pos (by exact h)]
  rfl

lemma file_none (fr : Frame) (name : Text) :
    file fr name none = .ok ⟨path? name, none, comments fr, none⟩ := rfl

lemma file_some (fr : Frame) (name : Text) (g : Grammar.Feature) :
    file fr name (some g)
      = (feature fr g).map fun f => ⟨path? name, some f, comments fr, none⟩ := by
  rw [file]
  cases feature fr g <;> rfl

lemma length_assign (names : List Text) (ts : List (Located Text)) :
    (Source.assign names ts).length = names.length := by
  induction names generalizing ts with
  | nil => rfl
  | cons n names ih =>
    rw [Source.assign]
    split <;> simp [ih]

/-- The names of located tags are those of the tree. -/
lemma map_name_tags (fr : Frame) (names : List Text) (k : Nat) :
    (tags fr names k).map Tag.name = names.map tagName := by
  have hlen := length_assign (names.map tagName) (fr.source.tagsAbove k)
  rw [List.length_map] at hlen
  rw [tags, List.map_map]
  change ((names.zip _).map (tagName ∘ Prod.fst)) = _
  rw [← List.map_map, List.map_fst_zip hlen.ge]

lemma tagName_of_tagWord {w : Text} (h : Grammar.TagWord w) : tagName w = '@' :: w := by
  have hblank : ∀ c ∈ w, isBlank c = false := fun c hc => (h.2 c hc).1
  have htrim : trim w = w := by
    refine trim_eq_self (trimStart_eq_self_iff.mpr ?_) (trimEnd_eq_self_iff.mpr ?_)
    · exact fun c hc => hblank c (List.mem_of_mem_head? hc)
    · exact fun c hc => hblank c (List.mem_of_getLast? hc)
  rw [tagName, htrim]
  split
  · exact absurd rfl (h.2 '@' (by simp)).2
  · rfl

lemma tags_wellRead (fr : Frame) {names : List Text} (h : ∀ n ∈ names, Grammar.TagWord n) (k : Nat) :
    ∀ t ∈ tags fr names k, t.WellRead := by
  intro t ht
  have : t.name ∈ (tags fr names k).map Tag.name := List.mem_map_of_mem ht
  rw [map_name_tags] at this
  obtain ⟨w, hw, hname⟩ := List.mem_map.mp this
  exact ⟨w, by rw [← hname, tagName_of_tagWord (h w hw)], h w hw⟩

/-- The values of a located row are the given ones, if the tree has as many cells. -/
lemma values_row (line : Option Nat) {values parsed : List Text}
    (h : values.length = parsed.length) : (row line values parsed).values = values := by
  simp only [row, Row.values, List.map_map]
  change ((values.zip _).map Prod.fst) = _
  rw [List.map_fst_zip (by simp [h])]

lemma resolve_eq_nil_iff {t : Text} : Cells.resolve t = [] ↔ t = [] := by
  fun_cases Cells.resolve t <;> simp

lemma head?_resolve {t : Text} (h : ∀ c, t.head? = some c → isBlank c = false) :
    ∀ c, (Cells.resolve t).head? = some c → isBlank c = false := by
  fun_cases Cells.resolve t with
  | case3 => simpa using h
  | _ => simp

lemma getLast?_resolve {t : Text} (h : ∀ c, t.getLast? = some c → isBlank c = false) :
    ∀ c, (Cells.resolve t).getLast? = some c → isBlank c = false := by
  -- the last character of a list is that of its tail, unless there is none
  have tail : ∀ {a : Char} {u : Text}, (∀ c, (a :: u).getLast? = some c → isBlank c = false) →
      ∀ c, u.getLast? = some c → isBlank c = false := by
    rintro a (_ | ⟨b, u⟩) hu c hc
    · simp at hc
    · exact hu c (by simpa using hc)
  have cons : ∀ {a : Char} {u : Text}, (u = [] → isBlank a = false) →
      (∀ c, u.getLast? = some c → isBlank c = false) →
      ∀ c, (a :: u).getLast? = some c → isBlank c = false := by
    rintro a (_ | ⟨b, u⟩) ha hu c hc
    · rw [← Option.some.inj hc]
      exact ha rfl
    · exact hu c (by simpa using hc)
  fun_induction Cells.resolve t with
  | case1 t ih => exact cons (fun _ => rfl) (ih (tail (tail h)))
  | case2 t ih => exact cons (fun _ => rfl) (ih (tail (tail h)))
  | case3 c t _ _ ih =>
    refine cons (fun hr => h c ?_) (ih (tail h))
    rw [resolve_eq_nil_iff.mp hr]
    rfl
  | case4 => simp

lemma trim_resolve {t : Text} (h : trim t = t) : trim (Cells.resolve t) = Cells.resolve t :=
  trim_eq_self
    (trimStart_eq_self_iff.mpr
      (head?_resolve (trimStart_eq_self_iff.mp (trimStart_eq_self_of_trim h))))
    (trimEnd_eq_self_iff.mpr
      (getLast?_resolve (trimEnd_eq_self_iff.mp (trimEnd_eq_self_of_trim h))))

lemma rowsFrom?_spec {k : Nat} {ls : List (Nat × Text)} {rs : List (Located (List Text))}
    (h : Source.rowsFrom? k ls = some rs) :
    rs.length = k ∧ ∀ r ∈ rs, ∀ v ∈ r.value, trim v = v := by
  fun_induction Source.rowsFrom? k ls generalizing rs with
  | case1 => simp_all
  | case2 => simp at h
  | case3 k n l ls hs ih => exact ih h
  | case4 k n l ls hs cells hc ih =>
    obtain ⟨qs, hqs, rfl⟩ := Option.map_eq_some_iff.mp h
    obtain ⟨hlen, hall⟩ := ih hqs
    refine ⟨by simp [hlen], ?_⟩
    intro r hr v hv
    rcases List.mem_cons.mp hr with rfl | hr
    · rw [Cells.split?] at hc
      split at hc
      · rw [← Option.some.inj hc] at hv
        exact Cells.trim_of_mem_splitFrom hv
      · simp at hc
    · exact hall r hr v hv
  | case5 => simp at h

lemma rows_eq (fr : Frame) (g : Grammar.Table) :
    rows fr g = ((fr.source.rows? (fr.source.lineOf g.span.start) g.rows.length).filter fun rs =>
        (rs.zip g.rows).all fun p => p.1.value.length == p.2.length).elim
      (g.rows.map fun parsed => row none (parsed.map Cells.resolve) parsed)
      fun rs => (rs.zip g.rows).map fun p => row (fr.relative p.1.line) p.1.value p.2 := by
  simp only [rows]
  split
  · rename_i rs hrs
    rw [hrs]
    rfl
  · rename_i hrs
    rw [hrs]
    rfl

/-- What the rows of a located table are: either the rows of the source, which are as many and as
long as those of the tree, or the rows of the tree. -/
lemma rows_cases (fr : Frame) (g : Grammar.Table) :
    (∃ rs, fr.source.rows? (fr.source.lineOf g.span.start) g.rows.length = some rs
      ∧ rs.length = g.rows.length
      ∧ (∀ p ∈ rs.zip g.rows, p.1.value.length = p.2.length)
      ∧ rows fr g = (rs.zip g.rows).map fun p => row (fr.relative p.1.line) p.1.value p.2)
    ∨ rows fr g = g.rows.map fun parsed => row none (parsed.map Cells.resolve) parsed := by
  rw [rows_eq]
  rcases hrs : (fr.source.rows? (fr.source.lineOf g.span.start) g.rows.length).filter fun rs =>
      (rs.zip g.rows).all fun p => p.1.value.length == p.2.length with _ | rs
  · exact .inr (by rw [hrs, Option.elim_none])
  · obtain ⟨hfound, hall⟩ := Option.filter_eq_some_iff.mp hrs
    rw [List.all_eq_true] at hall
    exact .inl ⟨rs, hfound, (rowsFrom?_spec hfound).1, fun p hp => by simpa using hall p hp,
      by rw [hrs, Option.elim_some]⟩

/-- A table of the tree is located as rows of one width. -/
lemma rows_even (fr : Frame) {t : Grammar.Table} {w : Nat} (hne : t.rows ≠ [])
    (h : ∀ r ∈ t.rows, r.length = w ∧ ∀ c ∈ r, trim c = c) :
    rows fr t ≠ [] ∧ Row.Even (rows fr t) := by
  rcases rows_cases fr t with ⟨rs, hfound, hlen, hwidth, hrows⟩ | hrows
  · rw [hrows]
    constructor
    · have : rs ≠ [] := by
        rintro rfl
        exact hne (List.length_eq_zero_iff.mp hlen.symm)
      simp [this, hne]
    · refine ⟨w, fun r hr => ?_⟩
      obtain ⟨⟨q, parsed⟩, hq, rfl⟩ := List.mem_map.mp hr
      obtain ⟨hq₁, hq₂⟩ := List.of_mem_zip hq
      have hwidth : q.value.length = parsed.length := hwidth _ hq
      rw [values_row _ hwidth]
      exact ⟨hwidth.trans (h parsed hq₂).1, (rowsFrom?_spec hfound).2 q hq₁⟩
  · rw [hrows]
    constructor
    · simpa using hne
    · refine ⟨w, fun r hr => ?_⟩
      obtain ⟨parsed, hp, rfl⟩ := List.mem_map.mp hr
      rw [values_row none (by simp)]
      refine ⟨by simpa using (h parsed hp).1, fun v hv => ?_⟩
      obtain ⟨c, hc, rfl⟩ := List.mem_map.mp hv
      exact trim_resolve ((h parsed hp).2 c hc)

lemma mem_lines_of_mem_linesFrom {s : Source} {n k : Nat} {l : Text} (h : (k, l) ∈ s.linesFrom n) :
    l ∈ s.lines := by
  have hmem : (k, l) ∈ s.numbered := List.mem_of_mem_drop h
  have : l ∈ s.numbered.map Prod.snd := List.mem_map.mpr ⟨_, hmem, rfl⟩
  rwa [Source.numbered_eq, Source.map_snd_countFrom] at this

/-- The content type of a located doc string fits on its opening line. -/
lemma docString_typeFits (t : Text) (shell n : Nat) (body : Text) :
    (docString ⟨Source.ofText t, shell⟩ n body).TypeFits := by
  intro ty hty
  rw [docString] at hty
  split at hty
  · rename_i d hd
    rw [Source.docString?] at hd
    split at hd
    · simp at hd
    · rename_i k opening ls hls
      obtain ⟨f, hf, hd⟩ := Option.bind_eq_some_iff.mp hd
      obtain ⟨body, hbody, hd⟩ := Option.bind_eq_some_iff.mp hd
      rw [← Option.some.inj hd] at hty
      have hmem : (k, opening) ∈ (Source.ofText t).linesFrom (n + 1) :=
        (List.dropWhile_sublist _).mem (hls ▸ List.mem_cons_self)
      have hn : '\n' ∉ opening :=
        Source.newline_not_mem_lines (mem_lines_of_mem_linesFrom hmem)
      have hty : trimmed? ((trimStart opening).drop f.mark.length) = some ty := hty
      rw [trimmed?] at hty
      split at hty
      · simp at hty
      · rename_i u hu
        rw [← Option.some.inj hty]
        refine ⟨hu, trim_trim _, fun h => hn ?_⟩
        exact mem_of_mem_trimStart (List.mem_of_mem_drop (mem_of_mem_trim h))
  · simp at hty

end Locate

end FeatureTree
