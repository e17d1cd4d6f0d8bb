import FeatureTree.Dialect.Basic
import FeatureTree.Grammar.Rules
import FeatureTree.Proofs.Grammar.Run
import FeatureTree.Proofs.Markup.Masked

/-!
Texts without a language header.

A language can be named in two ways: the dialect looks for a header among all comments at the top
of a text, the grammar at the first line with content only, but there with blanks before the colon
too. A text that has neither is read in the language that is given.
-/

namespace FeatureTree

open Text

namespace Text

/-- The trimmed lines of a text that have content. -/
def contents (t : Text) : List Text := (t.lines.map trim).filter (! ·.isEmpty)

lemma contents_eq (t : Text) : contents t = (t.pieces.map trim).filter (! ·.isEmpty) := by
  rw [contents, lines, List.map_map]
  congr 1
  exact List.map_congr_left fun p _ => trim_dropLineEnd p

/-- The newline at the end of a text is no content. -/
lemma contents_terminated (t : Text) : contents t.terminated = contents t := by
  rw [terminated]
  split
  · rfl
  · -- the last line becomes a whole one
    obtain ⟨ls, l, ht, hmem, hl⟩ := exists_unlines_append t
    have hpieces : pieces (unlines ls ++ (l ++ ['\n'])) = ls.map (· ++ ['\n']) ++ [l ++ ['\n']] := by
      rw [pieces_unlines_append hmem, pieces_line hl]
      rfl
    rw [contents_eq, contents_eq, ht, List.append_assoc, hpieces, pieces_unlines_append hmem]
    simp only [List.map_append, List.filter_append, List.map_singleton,
      trim_append_blank l isBlank_newline]
    congr 1
    by_cases hnil : l = []
    · simp [hnil, pieces, trim]
    · rw [pieces_of_not_mem hnil hl, List.map_singleton]

lemma contents_cons_of_isBlank {c : Char} (h : isBlank c = true) (t : Text) :
    contents (c :: t) = contents t := by
  have htrim : ∀ p : Text, trim (c :: p) = trim p := fun p => by
    rw [trim, trimStart_cons_blank _ h, ← trim]
  rw [contents_eq, contents_eq, pieces]
  split
  · rw [List.map_cons, htrim]
    rfl
  · split
    · rename_i hp
      rw [hp, List.map_cons, htrim]
      rfl
    · rename_i p ps hp
      rw [hp, List.map_cons, List.map_cons, htrim]

lemma contents_append_of_isBlank {s : Text} (h : ∀ c ∈ s, isBlank c = true) (t : Text) :
    contents (s ++ t) = contents t := by
  induction s with
  | nil => rfl
  | cons c s ih =>
    rw [List.cons_append, contents_cons_of_isBlank (h c (by simp)),
      ih fun d hd => h d (by simp [hd])]

/-- A text that starts with a solid part of a line has a line with this start. -/
lemma exists_contents {l : Text} (hn : '\n' ∉ l) (ht : trim l = l) (hne : l ≠ []) (t : Text) :
    ∃ r ls, contents (l ++ t) = (l ++ r) :: ls := by
  have hpieces : ∀ l : Text, '\n' ∉ l → l ≠ [] → ∃ p ps, pieces (l ++ t) = (l ++ p) :: ps := by
    intro l
    induction l with
    | nil => simp
    | cons c l ih =>
      intro hn _
      simp only [List.mem_cons, not_or] at hn
      rw [List.cons_append, pieces, if_neg (Ne.symm hn.1)]
      by_cases hl : l = []
      · subst hl
        rcases hp : pieces t with _ | ⟨p, ps⟩
        · exact ⟨[], [], by simp [hp]⟩
        · exact ⟨p, ps, by simp [hp]⟩
      · obtain ⟨p, ps, hp⟩ := ih hn.2 hl
        exact ⟨p, ps, by rw [hp]; rfl⟩
  obtain ⟨p, ps, hp⟩ := hpieces l hn hne
  have hstart : trimStart (l ++ p) = l ++ p := by
    rw [trimStart_append, trimStart_eq_self_of_trim ht, if_neg (by simpa using hne)]
  have hend : ∃ r, trimEnd (l ++ p) = l ++ r := by
    have hl : l.reverse.dropWhile isBlank = l.reverse := by
      rw [← List.reverse_inj, List.reverse_reverse]
      exact trimEnd_eq_self_of_trim ht
    rw [trimEnd, List.reverse_append, List.dropWhile_append]
    split
    · exact ⟨[], by rw [hl]; simp⟩
    · exact ⟨(p.reverse.dropWhile isBlank).reverse, by simp⟩
  obtain ⟨r, hr⟩ := hend
  refine ⟨r, (ps.map trim).filter (! ·.isEmpty), ?_⟩
  rw [contents_eq, hp, List.map_cons, trim, hstart, hr, List.filter_cons_of_pos (by simp [hne])]

end Text

namespace Dialect

/-- A comment that names a language, with blanks around the word. -/
def LanguageLine (l : Text) : Prop :=
  ∃ a b r, (∀ c ∈ a, isBlank c = true) ∧ (∀ c ∈ b, isBlank c = true) ∧
    l = '#' :: (a ++ ("language".toList ++ (b ++ ':' :: r)))

/-- Whether one of the comments at the top of a text names a language. -/
def HasHeader (t : Text) : Prop :=
  ∃ l ∈ (contents t).takeWhile (·.head? == some '#'), LanguageLine l

/-- The dialect is left open by a text without a header. -/
lemma declared?_eq_none {t : Text} (h : ¬ HasHeader t) : declared? t = none := by
  have hfind : ((contents t).takeWhile (·.head? == some '#')).find? Source.isLanguageHeader
      = none := by
    rw [List.find?_eq_none]
    intro l hl hhead
    refine h ⟨l, hl, ?_⟩
    have htrim : trim l = l := by
      obtain ⟨m, -, rfl⟩ := List.mem_map.mp
        (List.mem_of_mem_filter ((List.takeWhile_sublist _).mem hl))
      exact trim_trim m
    rw [Source.isLanguageHeader, trimStart_eq_self_of_trim htrim] at hhead
    split at hhead
    · rename_i t
      obtain ⟨r, hr⟩ := List.isPrefixOf_iff_prefix.mp hhead
      refine ⟨t.takeWhile isBlank, [], r, fun c hc => List.mem_takeWhile_imp hc, by simp, ?_⟩
      congr 1
      calc t = t.takeWhile isBlank ++ trimStart t := List.takeWhile_append_dropWhile.symm
        _ = _ := by rw [← hr]; rfl
    · simp at hhead
  change (((contents t).takeWhile (·.head? == some '#')).find? Source.isLanguageHeader).bind _ = _
  rw [hfind]
  rfl

end Dialect

namespace Grammar

open Parse

/-- The text after the line ends and spaces that may stand before a header. -/
def lead (t : Text) : Text := repeated (fun t => space? t <|> newline? t) t

/-- What the grammar takes for the start of a header. -/
def HeaderAt (t : Text) : Prop :=
  ∃ a b r, (∀ c ∈ a, isSpace c = true) ∧ (∀ c ∈ b, isSpace c = true) ∧
    t = '#' :: (a ++ ("language".toList ++ (b ++ ':' :: r)))

lemma exists_newline {t r : Text} (h : newline? t = some r) :
    ∃ e, (e = ['\n'] ∨ e = ['\r', '\n']) ∧ t = e ++ r := by
  unfold newline? at h
  split at h
  · exact ⟨_, .inl rfl, by rw [Option.some.inj h]; rfl⟩
  · exact ⟨_, .inr rfl, by rw [Option.some.inj h]; rfl⟩
  · simp at h

/-- What stands before the lead of a text is blank. -/
lemma exists_lead (t : Text) :
    ∃ a, (∀ c ∈ a, isBlank c = true ∧ Cells.Plain c) ∧ t = a ++ lead t := by
  have key : ∀ t r, (space? t <|> newline? t) = some r →
      ∃ a, (∀ c ∈ a, isBlank c = true ∧ Cells.Plain c) ∧ t = a ++ r ∧ r.length < t.length := by
    intro t r h
    rcases hs : space? t with _ | u
    · obtain ⟨e, he, rfl⟩ := exists_newline (by simpa [hs] using h)
      refine ⟨e, ?_, rfl, ?_⟩
      · rcases he with rfl | rfl <;> simp [Cells.Plain]
      · have hpos : 0 < e.length := by rcases he with rfl | rfl <;> simp
        rw [List.length_append]
        omega
    · obtain rfl : u = r := by simpa [hs] using h
      rcases t with _ | ⟨c, t⟩
      · simp [space?] at hs
      · rw [space?] at hs
        split at hs
        · rename_i hc
          obtain rfl := Option.some.inj hs
          refine ⟨[c], ?_, rfl, by simp⟩
          rcases (by simpa [isSpace] using hc : c = ' ' ∨ c = '\t') with rfl | rfl <;>
            simp [Cells.Plain]
        · simp at hs
  induction hn : t.length using Nat.strongRecOn generalizing t with
  | ind n ih =>
    rcases h : (space? t <|> newline? t) with _ | r
    · exact ⟨[], by simp, by rw [lead, repeated_of_none h]; rfl⟩
    · obtain ⟨a, ha, rfl, hlt⟩ := key t r h
      obtain ⟨b, hb, hr⟩ := ih r.length (by omega) r rfl
      have hstep : lead (a ++ r) = lead r := repeated_of_some h hlt
      refine ⟨a ++ b, ?_, ?_⟩
      · intro c hc
        rcases List.mem_append.mp hc with hc | hc
        · exact ha c hc
        · exact hb c hc
      · rw [hstep, List.append_assoc, ← hr]

lemma isBlank_of_isSpace {c : Char} (h : isSpace c = true) : isBlank c = true ∧ Cells.Plain c := by
  rcases (by simpa [isSpace] using h : c = ' ' ∨ c = '\t') with rfl | rfl <;> simp [Cells.Plain]

/-- A header of the grammar is one of the text. -/
lemma hasHeader_of_headerAt {t u : Text} (hv : List.Forall₂ Cells.Veils t u)
    (h : HeaderAt (lead u)) : Dialect.HasHeader t := by
  obtain ⟨e, he, hu⟩ := exists_lead u
  obtain ⟨a, b, r, ha, hb, hlead⟩ := h
  -- the text is the masked text up to the colon
  set w := e ++ ('#' :: (a ++ ("language".toList ++ (b ++ [':'])))) with hw
  have hplain : ∀ c ∈ w, Cells.Plain c := by
    intro c hc
    simp only [hw, List.mem_append, List.mem_cons, List.not_mem_nil, or_false] at hc
    have hlang : ∀ c ∈ "language".toList, Cells.Plain c := by simp [Cells.Plain]
    rcases hc with hc | rfl | hc | hc | hc | rfl
    · exact (he c hc).2
    · simp [Cells.Plain]
    · exact (isBlank_of_isSpace (ha c hc)).2
    · exact hlang c hc
    · exact (isBlank_of_isSpace (hb c hc)).2
    · simp [Cells.Plain]
  have hu' : u = w ++ r := by rw [hu, hlead, hw]; simp
  rw [hu'] at hv
  obtain ⟨w', r', rfl, hv₁, -⟩ := Cells.exists_veils_append hv
  obtain rfl := Cells.eq_of_veils hv₁ hplain
  -- its line is the first one with content
  set l := '#' :: (a ++ ("language".toList ++ (b ++ [':']))) with hl
  have hnl : '\n' ∉ l := by
    have hlang : '\n' ∉ "language".toList := by decide +kernel
    simp only [hl, List.mem_append, List.mem_cons, List.not_mem_nil, or_false, not_or]
    refine ⟨by simp, fun h => ?_, hlang, fun h => ?_, by simp⟩
    · simpa [isSpace] using ha _ h
    · simpa [isSpace] using hb _ h
  have htrim : trim l = l := by
    refine trim_eq_self (trimStart_cons_of_not_blank _ (by decide)) ?_
    have : l = ('#' :: (a ++ ("language".toList ++ b))) ++ [':'] := by rw [hl]; simp
    rw [this]
    exact trimEnd_append_of_not_blank _ (by decide)
  obtain ⟨q, ls, hq⟩ := exists_contents hnl htrim (by simp [hl]) r'
  refine ⟨l ++ q, ?_, a, b, q, fun c hc => (isBlank_of_isSpace (ha c hc)).1,
    fun c hc => (isBlank_of_isSpace (hb c hc)).1, by rw [hl]; simp⟩
  rw [hw, List.append_assoc, contents_append_of_isBlank (fun c hc => (he c hc).1), hq]
  simp [hl]

/-- Spaces before a header make no difference. -/
lemma not_headerAt_of_not_hasHeader {t u : Text} (hv : List.Forall₂ Cells.Veils t u)
    (h : ¬ Dialect.HasHeader t) : ¬ HeaderAt (lead (skipSpaces u)) := by
  intro hat
  obtain ⟨a, ha, hu⟩ := exists_spaces u
  rw [hu] at hv
  obtain ⟨a', v, rfl, hva, hvu⟩ := Cells.exists_veils_append hv
  obtain rfl := Cells.eq_of_veils hva fun c hc => (isBlank_of_isSpace (ha c hc)).2
  obtain ⟨l, hl, hline⟩ := hasHeader_of_headerAt hvu hat
  refine h ⟨l, ?_, hline⟩
  rwa [contents_append_of_isBlank fun c hc => (isBlank_of_isSpace (ha c hc)).1]

/-- Where no header starts, the language stays as it is. -/
lemma language_eq_none {s : State} (h : ¬ HeaderAt (lead s.rest)) :
    ∃ r, language s = (none, s.on r) := by
  have hlead : skip (repeated fun t => space? t <|> newline? t) s
      = (some (), s.on (lead s.rest)) := rfl
  rw [language, bind_some hlead]
  rcases h₁ : afterWord? ['#'] (lead s.rest) with _ | t₁
  · exact ⟨_, bind_none (expect_none h₁)⟩
  rw [bind_some (expect_some h₁), bind_some (skip_run _ _)]
  rcases h₂ : afterWord? "language".toList (skipSpaces t₁) with _ | t₂
  · exact ⟨_, bind_none (expect_none h₂)⟩
  rw [bind_some (expect_some h₂), bind_some (skip_run _ _)]
  rcases h₃ : afterWord? [':'] (skipSpaces t₂) with _ | t₃
  · exact ⟨_, bind_none (expect_none h₃)⟩
  -- otherwise all of a header was there
  exfalso
  obtain ⟨a, ha, ht₁⟩ := exists_spaces t₁
  obtain ⟨b, hb, ht₂⟩ := exists_spaces t₂
  refine h ⟨a, b, t₃, ha, hb, ?_⟩
  rw [afterWord?_eq_some_iff.mp h₁, ht₁, afterWord?_eq_some_iff.mp h₂, ht₂,
    afterWord?_eq_some_iff.mp h₃]
  rfl

end Grammar

end FeatureTree
