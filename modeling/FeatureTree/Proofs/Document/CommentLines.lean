import FeatureTree.Document.Read
import FeatureTree.Proofs.Document.Header
import FeatureTree.Proofs.Document.WellRead
import FeatureTree.Proofs.Source.Fences
import FeatureTree.Shape.Basic

/-!
Which lines are comments.

A line outside doc strings that starts with a number sign is a comment, unless it names a language.
The dialect of a text is named by the first such line, and only if nothing but comments and blank
lines stands above it; the other lines that name a language are passed over all the same.
-/

namespace FeatureTree

open Text

namespace Source

/-- Line `n` starts with a number sign and no doc string is open above it. -/
def HashLine (s : Source) (n : Nat) (text : Text) : Prop :=
  ∃ l, s.line? n = some l ∧ s.commentFence (n - 1) = none ∧ trim l = text ∧ text.head? = some '#'

lemma HashLine.text_eq {s : Source} {n : Nat} {text text' : Text} (h : s.HashLine n text)
    (h' : s.HashLine n text') : text = text' := by
  obtain ⟨l, hl, -, rfl, -⟩ := h
  obtain ⟨l', hl', -, rfl, -⟩ := h'
  rw [Option.some.inj (hl.symm.trans hl')]

/-- A number sign and, after any blanks, the word that introduces a language. -/
def NamesLanguage (text : Text) : Prop :=
  ∃ blanks rest, (∀ c ∈ blanks, isBlank c = true)
    ∧ text = '#' :: (blanks ++ ("language:".toList ++ rest))

/-! ### Language lines -/

/-- What is trimmed off the end of a text does not reach into a part that ends in content. -/
lemma trimEnd_append_of_trimEnd {u : Text} (hu : trimEnd u = u) (r : Text) :
    trimEnd (u ++ r) = u ++ trimEnd r := by
  obtain ⟨w, hr, hw⟩ := exists_blanks_trimEnd r
  have hdrop : trimEnd (u ++ r) = trimEnd (u ++ trimEnd r) := by
    conv_lhs => rw [hr, ← List.append_assoc, trimEnd_append_blanks _ hw]
  rw [hdrop]
  by_cases hnil : trimEnd r = []
  · rw [hnil, List.append_nil, hu]
  · exact trimEnd_append_eq_self u hnil (trimEnd_trimEnd r)

lemma isLanguageHeader_iff {l : Text} : isLanguageHeader l = true ↔ NamesLanguage (trim l) := by
  constructor
  · intro h
    rw [isLanguageHeader] at h
    split at h
    · rename_i t ht
      obtain ⟨r, hr⟩ := List.isPrefixOf_iff_prefix.mp h
      refine ⟨t.takeWhile isBlank, trimEnd r, fun c hc => List.mem_takeWhile_imp hc, ?_⟩
      have hsplit : trimStart l = ('#' :: t.takeWhile isBlank ++ "language:".toList) ++ r := by
        rw [ht, List.append_assoc, hr, List.cons_append]
        exact congrArg _ List.takeWhile_append_dropWhile.symm
      have hend : trimEnd ('#' :: t.takeWhile isBlank ++ "language:".toList)
          = '#' :: t.takeWhile isBlank ++ "language:".toList :=
        trimEnd_append_eq_self _ (by decide) (by decide)
      rw [trim, hsplit, trimEnd_append_of_trimEnd hend]
      simp
    · simp at h
  · rintro ⟨blanks, rest, hblanks, htrim⟩
    obtain ⟨u, hu, -⟩ := exists_blanks_trimEnd (trimStart l)
    have hstart : trimStart l = '#' :: (blanks ++ ("language:".toList ++ (rest ++ u))) := by
      rw [hu, ← trim, htrim]
      simp
    have hword :
        trimStart ("language:".toList ++ (rest ++ u)) = "language:".toList ++ (rest ++ u) :=
      trimStart_eq_self_iff.mpr (by simp; decide)
    simp only [isLanguageHeader, hstart]
    rw [trimStart_blanks_append _ hblanks, hword]
    exact List.isPrefixOf_iff_prefix.mpr (List.prefix_append _ _)

lemma isComment_iff {l : Text} :
    isComment l = true ↔ (trim l).head? = some '#' ∧ ¬ NamesLanguage (trim l) := by
  rw [isComment, ← head?_trim, ← isLanguageHeader_iff]
  simp

lemma isSkipped_iff {l : Text} :
    isSkipped l = true ↔ trim l = [] ∨ (trim l).head? = some '#' := by
  rw [← List.head?_eq_none_iff, head?_trim, isSkipped]
  cases trimStart l <;> simp

/-- A comment opens no fence. -/
lemma opening?_of_isComment {l : Text} (h : isComment l = true) : Fence.opening? l = none :=
  Fence.after_of_not_starts
    (Fence.not_starts_of_isSkipped (isSkipped_iff.mpr (.inr (isComment_iff.mp h).1))) none

/-! ### The search -/

/-- A comment is found where no fence is open above it. -/
lemma mem_commentsFrom {o : Option Fence} {ls : List (Nat × Text)} {c : Located Text} :
    c ∈ commentsFrom o ls ↔ ∃ before l after, ls = before ++ (c.line, l) :: after
      ∧ openFence o before = none ∧ isComment l = true ∧ c.value = trim l := by
  constructor
  · intro h
    fun_induction commentsFrom o ls with
    | case1 => simp at h
    | case2 f n l ls ih =>
      obtain ⟨before, m, after, rfl, hopen, hm⟩ := ih h
      exact ⟨(n, l) :: before, m, after, rfl, hopen, hm⟩
    | case3 n l ls f hf ih =>
      obtain ⟨before, m, after, rfl, hopen, hm⟩ := ih h
      exact ⟨(n, l) :: before, m, after, rfl, by simpa only [openFence, hf] using hopen, hm⟩
    | case4 n l ls hf hc ih =>
      rcases List.mem_cons.mp h with rfl | h
      · exact ⟨[], l, ls, rfl, rfl, hc, rfl⟩
      · obtain ⟨before, m, after, rfl, hopen, hm⟩ := ih h
        exact ⟨(n, l) :: before, m, after, rfl, by simpa only [openFence, hf] using hopen, hm⟩
    | case5 n l ls hf hc ih =>
      obtain ⟨before, m, after, rfl, hopen, hm⟩ := ih h
      exact ⟨(n, l) :: before, m, after, rfl, by simpa only [openFence, hf] using hopen, hm⟩
  · rintro ⟨before, l, after, rfl, hopen, hcomment, hvalue⟩
    rw [commentsFrom_append, hopen, commentsFrom, opening?_of_isComment hcomment]
    simp only [hcomment, if_true, List.mem_append, List.mem_cons]
    exact .inr (.inl (by rw [← hvalue]))

variable {s : Source}

/-- A numbered line stands behind all those with smaller numbers. -/
lemma numbered_eq_append_iff {n : Nat} {l : Text} {before after : List (Nat × Text)} :
    s.numbered = before ++ (n, l) :: after
      ↔ s.line? n = some l ∧ before = s.numbered.take (n - 1) ∧ after = s.numbered.drop n := by
  constructor
  · intro h
    have hget : s.numbered[before.length]? = some (n, l) := by simp [h]
    rw [getElem?_numbered] at hget
    obtain ⟨m, hm, heq⟩ := Option.map_eq_some_iff.mp hget
    obtain ⟨rfl, rfl⟩ := Prod.mk.inj heq
    exact ⟨hm, by simp [h], by simp [h]⟩
  · rintro ⟨hl, rfl, rfl⟩
    cases n with
    | zero => simp [line?] at hl
    | succ i =>
      have hl' : s.lines[i]? = some l := hl
      have hget : s.numbered[i]? = some (i + 1, l) := by rw [getElem?_numbered, hl']; rfl
      obtain ⟨hi, heq⟩ := List.getElem?_eq_some_iff.mp hget
      rw [Nat.add_sub_cancel, ← heq, List.getElem_cons_drop, List.take_append_drop]

/-- **The comments of a text** are its lines outside doc strings that start with a number sign and
name no language. -/
lemma mem_comments_iff {c : Located Text} :
    c ∈ s.comments ↔ s.HashLine c.line c.value ∧ ¬ NamesLanguage c.value := by
  rw [comments, mem_commentsFrom]
  simp only [numbered_eq_append_iff]
  constructor
  · rintro ⟨before, l, after, ⟨hl, rfl, -⟩, hopen, hcomment, hvalue⟩
    rw [isComment_iff, ← hvalue] at hcomment
    exact ⟨⟨l, hl, hopen, hvalue.symm, hcomment.1⟩, hcomment.2⟩
  · rintro ⟨⟨l, hl, hopen, hvalue, hhash⟩, hlanguage⟩
    rw [← hvalue] at hhash hlanguage
    exact ⟨_, l, _, ⟨hl, rfl, rfl⟩, hopen, isComment_iff.mpr ⟨hhash, hlanguage⟩, hvalue.symm⟩

lemma pairwise_comments (s : Source) : s.comments.Pairwise fun a b => a.line < b.line := by
  rw [← List.pairwise_map (f := Located.line) (R := (· < ·))]
  refine List.Pairwise.sublist (sublist_commentsFrom none s.numbered) ?_
  rw [numbered_eq]
  exact pairwise_countFrom 1 s.lines

/-! ### The line that names the dialect -/

/-- Lines `1` to `n - 1` are blank or start with a number sign, and none of them names a
language. -/
def TopAbove (s : Source) (n : Nat) : Prop :=
  ∀ m l, m < n → s.line? m = some l →
    (trim l = [] ∨ (trim l).head? = some '#') ∧ ¬ NamesLanguage (trim l)

lemma topAbove_of_lines {above below : List Text} (hlines : s.lines = above ++ below)
    (h : ∀ l ∈ above, (trim l = [] ∨ (trim l).head? = some '#') ∧ ¬ NamesLanguage (trim l)) :
    s.TopAbove (above.length + 1) := by
  intro m l hm hl
  cases m with
  | zero => simp [line?] at hl
  | succ i =>
    rw [line?, hlines, List.getElem?_append_left (by omega)] at hl
    exact h l (List.mem_of_getElem? hl)

/-- No doc string is open at the top of a text. -/
lemma commentFence_of_topAbove {n : Nat} (h : s.TopAbove n) : s.commentFence (n - 1) = none := by
  rw [commentFence, openFence_eq, numbered_eq, take_countFrom, map_snd_countFrom]
  refine Fence.run_eq_self fun l hl => Fence.after_of_not_starts
    (Fence.not_starts_of_isSkipped (isSkipped_iff.mpr ?_)) none
  obtain ⟨i, hi, rfl⟩ := List.mem_take_iff_getElem.mp hl
  exact (h (i + 1) _ (by omega) (List.getElem?_eq_getElem _)).1

end Source

/-- A language line with one word of code characters after the colon. -/
def Dialect.HeaderOf (code text : Text) : Prop :=
  ∃ blanks rest, (∀ c ∈ blanks, isBlank c = true)
    ∧ text = '#' :: (blanks ++ ("language:".toList ++ rest))
    ∧ trim rest = code ∧ code ≠ [] ∧ ∀ c ∈ code, isCodeChar c = true

namespace Dialect

lemma HeaderOf.namesLanguage {code text : Text} (h : HeaderOf code text) :
    Source.NamesLanguage text := by
  obtain ⟨blanks, rest, hblanks, htext, -⟩ := h
  exact ⟨blanks, rest, hblanks, htext⟩

lemma headerOf_of_headerCode? {line code : Text} (h : headerCode? line = some code) :
    HeaderOf code (trim line) := by
  rw [headerCode?] at h
  split at h
  · rename_i t ht
    simp only at h
    split_ifs at h with hprefix hcode
    obtain ⟨rest, hrest⟩ := List.isPrefixOf_iff_prefix.mp hprefix
    simp only [Bool.and_eq_true, List.all_eq_true, Bool.not_eq_true',
      List.isEmpty_eq_false_iff] at hcode
    obtain rfl := Option.some.inj h
    refine ⟨t.takeWhile isBlank, rest, fun c hc => List.mem_takeWhile_imp hc, ?_, ?_, hcode.2,
      hcode.1⟩
    · rw [ht, hrest]
      exact congrArg _ List.takeWhile_append_dropWhile.symm
    · rw [← hrest]
      rfl
  · simp at h

lemma contents_eq_lines (t : Text) :
    contents t = ((Source.ofText t).lines.map trim).filter (! ·.isEmpty) := by
  rw [contents_eq, Source.lines_ofText, List.map_map]
  congr 1
  exact List.map_congr_left fun p _ => (Source.trim_lineOfPiece p).symm

/-- A line with content has blank lines and the other lines with content above it. -/
lemma exists_lines_of_contents {t line : Text} {as bs : List Text}
    (h : contents t = as ++ line :: bs) :
    ∃ above l below, (Source.ofText t).lines = above ++ l :: below ∧ trim l = line
      ∧ ∀ m ∈ above, trim m = [] ∨ trim m ∈ as := by
  rw [contents_eq_lines] at h
  obtain ⟨first, rest, hlines, hfirst, hrest⟩ := List.filter_eq_append_iff.mp h
  obtain ⟨blank, after, rfl, hblank, -, -⟩ := List.filter_eq_cons_iff.mp hrest
  rw [← List.append_assoc] at hlines
  obtain ⟨above, rest, hsplit, habove, hmap⟩ := List.map_eq_append_iff.mp hlines
  obtain ⟨l, below, rfl, hl, -⟩ := List.map_eq_cons_iff.mp hmap
  refine ⟨above, l, below, hsplit, hl, fun m hm => ?_⟩
  have hmem : trim m ∈ first ++ blank := habove ▸ List.mem_map_of_mem hm
  by_cases hnil : trim m = []
  · exact .inl hnil
  · rcases List.mem_append.mp hmem with hmem | hmem
    · exact .inr (hfirst ▸ List.mem_filter.mpr ⟨hmem, by simpa using hnil⟩)
    · exact absurd (by simpa using hblank _ hmem) hnil

/-- The dialect of a text is named by the first of its lines that name a language. -/
lemma exists_of_declared? {t : Text} {d : Dialect} (h : declared? t = some d) :
    ∃ n text code, (Source.ofText t).HashLine n text ∧ HeaderOf code text ∧ d = ofCode code
      ∧ (Source.ofText t).TopAbove n := by
  change (((contents t).takeWhile (·.head? == some '#')).find? Source.isLanguageHeader).bind
    (fun line => (headerCode? line).map ofCode) = some d at h
  obtain ⟨line, hfind, h⟩ := Option.bind_eq_some_iff.mp h
  obtain ⟨code, hcode, rfl⟩ := Option.map_eq_some_iff.mp h
  obtain ⟨-, as, bs, htop, hfirst⟩ := List.find?_eq_some_iff_append.mp hfind
  have hash : ∀ a ∈ as ++ line :: bs, a.head? = some '#' := by
    intro a ha
    rw [← htop] at ha
    exact eq_of_beq (List.mem_takeWhile_imp (p := fun l : Text => l.head? == some '#') ha)
  have hcontents : contents t
      = as ++ line :: (bs ++ (contents t).dropWhile (·.head? == some '#')) := by
    rw [← List.cons_append, ← List.append_assoc, ← htop, List.takeWhile_append_dropWhile]
  obtain ⟨above, l, below, hlines, rfl, habove⟩ := exists_lines_of_contents hcontents
  have habove : (Source.ofText t).TopAbove (above.length + 1) := by
    refine Source.topAbove_of_lines hlines fun k hk => ?_
    rcases habove k hk with hnil | hmem
    · rw [hnil]
      exact ⟨.inl rfl, by rintro ⟨_, _, -, h⟩; simp at h⟩
    · refine ⟨.inr (hash _ (List.mem_append_left _ hmem)), fun hnames => ?_⟩
      rw [← trim_trim, ← Source.isLanguageHeader_iff] at hnames
      simpa [hnames] using hfirst _ hmem
  refine ⟨above.length + 1, trim l, code, ⟨l, ?_, ?_, rfl, ?_⟩, ?_, rfl, habove⟩
  · rw [Source.line?, hlines]
    simp
  · exact Source.commentFence_of_topAbove habove
  · exact hash _ (by simp)
  · simpa using headerOf_of_headerCode? hcode

end Dialect

/-! ### The comments of a file -/

namespace Source

/-- The newline at the end of a text makes no other line. -/
lemma lines_ofText_terminated {t : Text} (hne : t ≠ []) :
    (ofText t.terminated).lines = (ofText t).lines := by
  rw [terminated]
  split
  · rfl
  · rename_i hlast
    obtain ⟨ls, l, rfl, hmem, hl⟩ := exists_unlines_append t
    have hnil : l ≠ [] := by
      rintro rfl
      rcases List.eq_nil_or_concat ls with rfl | ⟨init, m, rfl⟩
      · simp at hne
      · simp at hlast
    rw [lines_ofText, lines_ofText, List.append_assoc, pieces_unlines_append hmem,
      pieces_unlines_append hmem, pieces_line hl, pieces_of_not_mem hnil hl]
    simp [pieces, lineOfPiece_newline, lineOfPiece_of_not_mem hl]

lemma comments_terminated (t : Text) : (ofText t.terminated).comments = (ofText t).comments := by
  rcases eq_or_ne t [] with rfl | hne
  · decide
  · rw [comments, comments, numbered, numbered, lines_ofText_terminated hne]

end Source

namespace Locate

lemma comments_eq (s : Source) :
    (comments ⟨s, 0⟩).map (fun c => (c.line, c.text))
      = s.comments.map fun c => (some c.line, c.value) := by
  rw [comments, List.map_map]
  refine List.map_congr_left fun c hc => ?_
  have hpos : 0 < c.line := (Source.line_of_mem_comments hc).1
  simp [Frame.relative, hpos]

/-- A file has the comments of its text. -/
lemma file_comments {fr : Frame} {name : Text} {f : Option Grammar.Feature} {file : FeatureFile}
    (h : Locate.file fr name f = .ok file) : file.comments = comments fr := by
  cases f with
  | none =>
    rw [file_none] at h
    rw [← Except.ok.inj h]
  | some g =>
    rw [file_some] at h
    cases hg : feature fr g with
    | error e => simp [hg, Except.map] at h
    | ok g' =>
      rw [hg] at h
      rw [← Except.ok.inj h]

end Locate

lemma Document.read_comments {name t : Text} {d : Dialect} {file : FeatureFile}
    (h : Document.read name d t = .ok file) :
    file.comments = Locate.comments ⟨Source.ofText t.terminated, 0⟩ := by
  rw [Document.read, readInShell] at h
  split at h
  · exact Locate.file_comments h
  · cases hk : ((Dialect.declared? t.terminated).getD d).keywords with
    | error e => simp [hk, bind, Except.bind] at h
    | ok kw =>
      simp only [hk, bind, Except.bind] at h
      split at h
      · exact Locate.file_comments h
      · simp at h

namespace Source

/-- **No comment is lost but for the lines that name a language.** The comments of a text are its
lines outside doc strings that start with a number sign, each with its number and trimmed, one after
the other and each of them once; what is left out is the lines that name a language, wherever they
stand. If a text declares its dialect, the first of these does so, and it stands at the top. The
comments of a text are those of the file that is read from it. -/
theorem comments_but_for_language_lines (t : Text) :
    (∀ c : Located Text, c ∈ (ofText t).comments
        ↔ (ofText t).HashLine c.line c.value ∧ ¬ NamesLanguage c.value)
      ∧ (ofText t).comments.Pairwise (fun a b => a.line < b.line)
      ∧ (∀ d, Dialect.declared? t = some d → ∃ n text code, (ofText t).HashLine n text
        ∧ Dialect.HeaderOf code text ∧ d = Dialect.ofCode code ∧ (ofText t).TopAbove n
        ∧ ∀ c ∈ (ofText t).comments, c.line ≠ n)
      ∧ (∀ name d file, Document.read name d t = .ok file →
        file.comments.map (fun c => (c.line, c.text))
          = (ofText t).comments.map fun c => (some c.line, c.value))
      ∧ ∀ name tree file, (Parsed.tree tree t).file name = .ok file →
        file.comments.map (fun c => (c.line, c.text))
          = (ofText t).comments.map fun c => (some c.line, c.value) := by
  refine ⟨fun c => mem_comments_iff, pairwise_comments _, fun d hd => ?_,
    fun name d file hfile => ?_, fun name tree file hfile => ?_⟩
  · obtain ⟨n, text, code, hline, hheader, hcode, htop⟩ := Dialect.exists_of_declared? hd
    refine ⟨n, text, code, hline, hheader, hcode, htop, ?_⟩
    rintro c hc rfl
    obtain ⟨hcomment, hnot⟩ := mem_comments_iff.mp hc
    exact hnot (hcomment.text_eq hline ▸ hheader.namesLanguage)
  · rw [Document.read_comments hfile, Locate.comments_eq, comments_terminated]
  · rw [Locate.file_comments hfile, Locate.comments_eq]

/-- Two language lines at the top, and a number sign inside a doc string and one below it. -/
theorem comments_but_for_language_lines_repeated :
    let t := "# a\n# language: en\n#language:fr\nFeature: x\n \"\"\"\n # b\n \"\"\"\n # c \n".toList
    Dialect.declared? t = some .english
      ∧ (ofText t).comments = [⟨1, "# a".toList⟩, ⟨8, "# c".toList⟩]
      ∧ (ofText t).HashLine 8 "# c".toList ∧ ¬ NamesLanguage "# c".toList := by
  intro t
  have hcomments : (ofText t).comments = [⟨1, "# a".toList⟩, ⟨8, "# c".toList⟩] := by decide
  have hmem : (⟨8, "# c".toList⟩ : Located Text) ∈ (ofText t).comments := by simp [hcomments]
  exact ⟨by decide, hcomments, ((comments_but_for_language_lines t).1 _).mp hmem⟩

/-- A line below the feature is left out though it declares no dialect. -/
theorem language_line_lost :
    ¬ ∀ (t name : Text) (d : Dialect) (file : FeatureFile), Document.read name d t = .ok file →
      ∃ header : Option Nat, (header.isSome → (Dialect.declared? t).isSome)
        ∧ ∀ n text, (ofText t).HashLine n text → header ≠ some n →
          (some n, text) ∈ file.comments.map fun c => (c.line, c.text) := by
  intro h
  set t := "Feature: x\n# language: fr\n".toList with ht
  have hread : (Document.read [] .english t).toOption.any (·.comments.isEmpty) = true := by
    decide +kernel
  obtain ⟨file, hfile, hnone⟩ : ∃ file, Document.read [] .english t = .ok file
      ∧ file.comments = [] := by
    cases hr : Document.read [] .english t with
    | error e => simp [hr, Except.toOption] at hread
    | ok file => exact ⟨file, rfl, by simpa [hr, Except.toOption] using hread⟩
  have hline : (ofText t).HashLine 2 "# language: fr".toList :=
    ⟨"# language: fr".toList, by decide, by decide, by decide, by decide⟩
  obtain ⟨header, hheader, hlines⟩ := h t [] .english file hfile
  have hundeclared : Dialect.declared? t = none := by decide
  cases header with
  | none => simpa [hnone] using hlines 2 _ hline (by simp)
  | some n => simp [hundeclared] at hheader

end Source

end FeatureTree
