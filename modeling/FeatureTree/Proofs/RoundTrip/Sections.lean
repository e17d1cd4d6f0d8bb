import FeatureTree.Proofs.RoundTrip.Steps

/-!
Rendered sections are read: tags, keyword line and description, and what stands below them.
-/

namespace FeatureTree.RoundTrip

open Text Grammar Parse Render

variable {D before after : List Text} {k : Nat} {s : State}

/-! ### Tags -/

/-- Tags after the first one. -/
def tagTail (ws : List Text) : Text := ws.flatMap fun w => ' ' :: '@' :: w

lemma joinWith_tags (w : Text) (ws : List Text) :
    joinWith [' '] ((w :: ws).map ('@' :: ·)) = '@' :: (w ++ tagTail ws) := by
  induction ws generalizing w with
  | nil => simp [joinWith, tagTail]
  | cons v vs ih =>
    have := ih v
    simp only [List.map_cons, joinWith] at this ⊢
    rw [this]
    simp [tagTail]

lemma atWord_at (t : Text) : AtWord ('@' :: t) where
  start c hc := by
    obtain rfl : '@' = c := by simpa using hc
    simp
  newline := newline?_cons_of_ne (by simp) (by simp)

lemma head?_tagTail (ws : List Text) (v : Text) :
    ∀ c, (tagTail ws ++ '\n' :: v).head? = some c → isBlank c = true := by
  intro c hc
  cases ws with
  | nil =>
    obtain rfl : '\n' = c := by simpa [tagTail] using hc
    simp
  | cons w ws =>
    obtain rfl : ' ' = c := by simpa [tagTail] using hc
    simp

/-- The tags of a line are read one by one, up to a line that starts with no tag. -/
lemma reads_tags (s : State) {ws : List Text} {v : Text} (hw : ∀ w ∈ ws, TagWord w)
    (hv : tag? (skipLayout v) = none) :
    Reads (fun _ => True) (do skip skipLayout; Parse.read tag?) (s.on (tagTail ws ++ '\n' :: v)) ws
      (s.on ('\n' :: v)) := by
  induction ws with
  | nil =>
    refine .nil (r := skipLayout v) trivial ?_
    rw [bind_some (skip_run _ _)]
    simp only [tagTail, List.flatMap_nil, List.nil_append, State.on_rest, skipLayout_newline,
      State.on_on]
    exact read_none hv
  | cons w ws ih =>
    have hskip : skipLayout (tagTail (w :: ws) ++ '\n' :: v)
        = '@' :: (w ++ (tagTail ws ++ '\n' :: v)) := by
      have := skipLayout_spaces 1 (atWord_at (w ++ (tagTail ws ++ '\n' :: v)))
      simpa [tagTail] using this
    have htag := tag?_append (hw w (by simp)) (head?_tagTail ws v)
    refine .cons trivial ?_ ?_ (ih fun w' hw' => hw w' (by simp [hw']))
    · rw [bind_some (skip_run _ _), State.on_rest, hskip]
      exact read_some htag
    · simp [tagTail]
      omega

lemma exists_tagWords {ts : List Tag} (h : ∀ t ∈ ts, t.WellRead) :
    ∃ ws : List Text, ts.map Tag.name = ws.map ('@' :: ·) ∧ (∀ w ∈ ws, TagWord w)
      ∧ ws.map tagName = ts.map Tag.name := by
  induction ts with
  | nil => exact ⟨[], rfl, by simp, rfl⟩
  | cons t ts ih =>
    simp only [List.forall_mem_cons] at h
    obtain ⟨w, hname, hw⟩ := h.1
    obtain ⟨ws, hws, hwords, hnames⟩ := ih h.2
    refine ⟨w :: ws, by simp [hname, hws], by simpa using ⟨hw, hwords⟩, ?_⟩
    simp [Locate.tagName_of_tagWord hw, hname, hnames]

lemma tag?_eq_none {t : Text} (h : t.head? ≠ some '@') : tag? t = none := by
  unfold tag?
  split
  · simp at h
  · rfl

/-- Line ends are passed over up to the blanks before a word. -/
lemma skipLineEnds_margin {t : Text} (k : Nat) (h : AtWord t) :
    skipLineEnds ('\n' :: (Text.margin k ++ t)) = Text.margin k ++ t := by
  have hspaces : skipSpaces (Text.margin k ++ t) = t := by
    rw [skipSpaces, Text.margin, List.dropWhile_append_of_pos (by simp [isSpace])]
    exact h.skipSpaces
  have hcomment : commentText? (Text.margin k ++ t) = none := by
    rw [commentText?, hspaces]
    split
    · exact absurd rfl (h.start _ rfl).2.2
    · rfl
  have hend : lineEnd? (Text.margin k ++ t) = none := by
    rw [lineEnd?, hcomment, Option.getD_none]
    cases k with
    | zero => simpa [Text.margin] using h.newline
    | succ k =>
      rw [Text.margin, Nat.mul_succ, List.replicate_succ]
      exact newline?_cons_of_ne (by simp) (by simp)
  have hstep : skipLineEnds ('\n' :: (Text.margin k ++ t)) = skipLineEnds (Text.margin k ++ t) :=
    repeated_of_some (lineEnd?_newline _) (by simp)
  rw [hstep, skipLineEnds, repeated_of_none hend]

lemma trimEnd_tagWord {w : Text} (h : TagWord w) : trimEnd w = w :=
  trimEnd_eq_self_iff.mpr fun c hc => (h.2 c (List.mem_of_getLast? hc)).1

/-- A line of tags is shown as it is. -/
lemma shown_tags (before : List Text) (k : Nat) {w : Text} {ws : List Text}
    (h : ∀ v ∈ w :: ws, TagWord v) :
    Shown before k ('@' :: (w ++ tagTail ws)) ('@' :: (w ++ tagTail ws)) := by
  have hnl : ∀ v ∈ w :: ws, '\n' ∉ v := fun v hv hn => by
    have := ((h v hv).2 _ hn).1
    simp at this
  refine shown_of_isLead before k rfl ?_ ?_
  · simp only [tagTail, List.mem_cons, List.mem_append, List.mem_flatMap, not_or, not_exists,
      not_and]
    refine ⟨by simp, hnl w (by simp), fun v hv => ⟨by simp, by simp, hnl v (by simp [hv])⟩⟩
  · rcases List.eq_nil_or_concat ws with rfl | ⟨init, v, rfl⟩
    · have := trimEnd_append_eq_self ['@'] (h w (by simp)).1 (trimEnd_tagWord (h w (by simp)))
      simpa [tagTail] using this
    · have hv := h v (by simp)
      have := trimEnd_append_eq_self ('@' :: (w ++ tagTail init ++ [' ', '@'])) hv.1
        (trimEnd_tagWord hv)
      simpa [tagTail] using this

/-- The tags above a keyword are read, up to the blanks before the keyword. -/
lemma tags_run {ts : List Tag} {kl : Text} {rest : List Text} (hts : ∀ t ∈ ts, t.WellRead)
    (hkl : Shown (before ++ indent k (tagLine ts)) k kl kl) (hhead : kl.head? ≠ some '@')
    (hrest : s.rest = ahead before (indent k (tagLine ts) ++ indentLine k kl :: rest)) :
    ∃ names u, tags s = (some names, s.on u) ∧ names.map tagName = ts.map Tag.name
      ∧ skipSpaces u = ahead (before ++ indent k (tagLine ts)) (indentLine k kl :: rest)
      ∧ (k = 0 → u = ahead (before ++ indent k (tagLine ts)) (indentLine k kl :: rest)) := by
  obtain ⟨ws, hws, hwords, hnames⟩ := exists_tagWords hts
  set A := ahead (before ++ indent k (tagLine ts)) (indentLine k kl :: rest) with hA
  have hword : AtWord A := hkl.atWord rest
  have htag : tag? A = none := by
    refine tag?_eq_none ?_
    rw [hA, hkl.ahead_eq]
    obtain ⟨c, t, hct⟩ := List.exists_cons_of_ne_nil hkl.solid.ne_nil
    rw [hct] at hhead ⊢
    exact hhead
  cases ws with
  | nil =>
    -- no tags: the parser stays where it is
    obtain rfl : ts = [] := by simpa using hws
    have hs : s.rest = A := by
      rw [hrest, hA]
      simp [tagLine, indent]
    have hread : Parse.read tag? s = (none, s.on s.rest) := read_none (by rw [hs]; exact htag)
    refine ⟨[], A, ?_, hnames, hword.skipSpaces, fun _ => rfl⟩
    rw [tags, bind_some (optional_none hread)]
    change (skip skipSpaces >>= fun _ => skip skipLineEnds >>= fun _ => pure []) s = _
    rw [bind_skip (by rw [hs]; exact hword.skipSpaces),
      bind_skip (by rw [hs]; exact hword.skipLineEnds), ← hs]
    rfl
  | cons w ws =>
    have hne : ts ≠ [] := by rintro rfl; simp at hws
    have hline : tagLine ts = ['@' :: (w ++ tagTail ws)] := by
      rw [tagLine, if_neg (by simpa using hne), hws, joinWith_tags]
    have hshown := shown_tags before k hwords
    set v := below (before ++ indent k (tagLine ts)) (indentLine k kl :: rest) with hv
    have hvA : v = Text.margin k ++ A := hkl.below_eq_ahead rest
    have hs : s.rest = '@' :: (w ++ (tagTail ws ++ '\n' :: v)) := by
      rw [hrest, hv, hline]
      change ahead before (indentLine k ('@' :: (w ++ tagTail ws)) :: indentLine k kl :: rest) = _
      rw [hshown.ahead_eq]
      simp [indent]
    have hfirst : Parse.read tag? s = (some w, s.on (tagTail ws ++ '\n' :: v)) := by
      refine read_some ?_
      rw [hs]
      exact tag?_append (hwords w (by simp)) (head?_tagTail ws v)
    have hlater := many_of_reads (reads_tags s (List.forall_mem_cons.mp hwords).2 htag)
    have hall : (many (do skip skipLayout; Parse.read tag?) >>= fun ts => pure (w :: ts))
        (s.on (tagTail ws ++ '\n' :: v)) = (some (w :: ws), s.on ('\n' :: v)) := bind_some hlater
    have hends : skipLineEnds (s.on ('\n' :: v)).rest = v := by
      rw [State.on_rest, hvA, skipLineEnds_margin k hword]
    refine ⟨w :: ws, v, ?_, hnames, ?_, ?_⟩
    · rw [tags, bind_some (optional_some hfirst)]
      change ((many _ >>= fun ts => pure (w :: ts)) >>= fun ts =>
        skip skipSpaces >>= fun _ => skip skipLineEnds >>= fun _ => pure ts) _ = _
      rw [bind_some hall, bind_skip rfl, bind_some (skip_run _ _), hends]
      rfl
    · rw [hvA, skipSpaces, Text.margin, List.dropWhile_append_of_pos (by simp [isSpace])]
      exact hword.skipSpaces
    · rintro rfl
      simpa [Text.margin] using hvA

/-! ### Keyword lines -/

/-- What stands after the colon of a keyword line. -/
def nameText (name : Text) : Text := if name = [] then [] else ' ' :: name

variable {ws : List String} {kw name description : Text}

lemma keywordLine_eq (hkw : kw ≠ []) (default : Text) (hn : Title name) :
    keywordLine kw default name = kw ++ ':' :: nameText name := by
  rw [keywordLine, if_neg (by simpa using hkw), nameText]
  split
  · rename_i h
    subst h
    have hblank := trimEnd_append_blanks (kw ++ [':']) (u := [' ']) (by simp)
    have hend := trimEnd_append_of_not_blank kw (c := ':') (by decide)
    rw [hend] at hblank
    simpa using hblank
  · rename_i h
    have := trimEnd_append_eq_self (kw ++ [':', ' ']) h (trimEnd_eq_self_of_trim hn.1)
    simpa using this

/-- A keyword line is shown as it is, and is no line of tags. -/
lemma shown_keywordLine (before : List Text) (k : Nat) (hws : Leading ws)
    (h : Headed ws kw name description) (default : Text) :
    Shown before k (keywordLine kw default name) (keywordLine kw default name)
      ∧ (keywordLine kw default name).head? ≠ some '@'
      ∧ isLead (keywordLine kw default name) = true := by
  obtain ⟨hlead, hnl, hhead, -⟩ := hws kw h.keyword
  obtain ⟨c, t, rfl, -⟩ := exists_of_isLead hlead
  have hlead' : isLead (keywordLine (c :: t) default name) = true := by
    rw [keywordLine_eq (by simp) default h.name]
    exact isLead_append hlead _
  refine ⟨shown_of_isLead before k hlead' ?_ ?_, ?_, hlead'⟩
  · rw [keywordLine_eq (by simp) default h.name, nameText]
    refine List.not_mem_append hnl ?_
    split
    · simp
    · simpa using h.name.2
  · rw [keywordLine]
    exact trimEnd_trimEnd _
  · rw [keywordLine_eq (by simp) default h.name]
    exact hhead

/-- A header without tags starts with its keyword and a colon. -/
lemma exists_ahead_header (before : List Text) (k : Nat) (hws : Leading ws)
    (h : Headed ws kw name description) (default : Text) (after : List Text) :
    AtWord (ahead before (indent k (header [] kw default name description) ++ after))
      ∧ ∃ u, ahead before (indent k (header [] kw default name description) ++ after)
        = kw ++ ':' :: u := by
  obtain ⟨hshown, -, -⟩ := shown_keywordLine before k hws h default
  obtain ⟨c, t, rfl, -⟩ := exists_of_isLead (hws kw h.keyword).1
  refine ⟨hshown.atWord _, nameText name ++ '\n' :: below
    (before ++ [indentLine k (keywordLine (c :: t) default name)])
    (indent k (descriptionLines description) ++ after), ?_⟩
  refine (hshown.ahead_eq _).trans ?_
  simp only [keywordLine_eq (by simp : c :: t ≠ []) default h.name, List.append_assoc,
    List.cons_append]
  rfl

lemma name_run (hn : Title name) (u : Text) :
    Grammar.name (s.on (':' :: (nameText name ++ '\n' :: u))) = (some name, s.on (skipLayout u)) := by
  have hcolon : ∀ t, expect (afterWord? [':']) (s.on (':' :: t)) = (some (), s.on t) :=
    fun t => expect_some (afterWord?_append [':'] t)
  have hlayout : expect layout? (s.on ('\n' :: u)) = (some (), s.on (skipLayout u)) :=
    expect_some (layout?_newline u)
  rw [Grammar.name, bind_some (hcolon _), nameText]
  split
  · rename_i h
    have hread : Parse.read lineText? (s.on ('\n' :: u)) = (none, (s.on ('\n' :: u)).on ('\n' :: u)) :=
      read_none (lineText?_newline u)
    rw [List.nil_append, bind_skip rfl, bind_some (optional_none hread), bind_skip rfl,
      bind_some hlayout, h]
    rfl
  · rename_i h
    have hspaces : skipSpaces (' ' :: (name ++ '\n' :: u)) = name ++ '\n' :: u := by
      rw [skipSpaces, List.dropWhile_cons_of_pos (by simp [isSpace])]
      exact skipSpaces_of_trimStart h (trimStart_eq_self_of_trim hn.1) _
    have hend := trimEnd_eq_self_of_trim hn.1
    have hread : Parse.read lineText? (s.on (name ++ '\n' :: u)) = (some name, s.on ('\n' :: u)) :=
      read_some (lineText?_line h hn.2 (getLast?_ne_return_of_trimEnd hend) u)
    rw [bind_some (skip_run _ _), State.on_rest, List.cons_append, hspaces, State.on_on,
      bind_some (optional_some hread), bind_skip rfl, bind_some hlayout]
    simp [hend]

/-- The keyword and the name of a section are read. -/
lemma title_run {f : Keywords → List String} {rest : List Text} (hws : Leading ws)
    (h : Headed ws kw name description) (default : Text) (hk : s.keywords = .en)
    (hclear : Clear (f .en)) (hmem : kw ∈ (f .en).map String.toList)
    (hrest : s.rest = ahead before (indentLine k (keywordLine kw default name) :: rest)) :
    ∃ t, keyword f s = (some kw, s.on t) ∧ Grammar.name (s.on t) = (some name,
      s.on (ahead (before ++ [indentLine k (keywordLine kw default name)]) rest)) := by
  obtain ⟨hshown, -, -⟩ := shown_keywordLine before k hws h default
  obtain ⟨c, t, rfl, -⟩ := exists_of_isLead (hws kw h.keyword).1
  set u := below (before ++ [indentLine k (keywordLine (c :: t) default name)]) rest with hu
  have htext : s.rest = (c :: t) ++ ':' :: (nameText name ++ '\n' :: u) := by
    rw [hrest, hshown.ahead_eq, ← hu, keywordLine_eq (by simp) default h.name]
    simp
  have hword : AtWord s.rest := by
    rw [hrest]
    exact hshown.atWord rest
  refine ⟨':' :: (nameText name ++ '\n' :: u), keyword_some ?_, name_run h.name u⟩
  rw [hk, htext]
  exact keyword?_of_mem hclear hmem (htext ▸ hword)

/-! ### Descriptions -/

variable {f : Keywords → List String}

lemma descriptionLine_run {l u : Text} (hk : s.keywords = .en) (hl : Solid l)
    (hhead : l.head? ≠ some '@') (hwords : ∀ w ∈ f .en, ¬ w.toList <+: l)
    (hnl : ∀ w ∈ f .en, '\n' ∉ w.toList) (hrest : s.rest = l ++ '\n' :: u) :
    descriptionLine f s = (some l, s.on (skipLayout u)) := by
  have hword : AtWord s.rest := hrest ▸ hl.atWord u
  have hat : (s.rest.head? == some '@') = false := by
    obtain ⟨c, t, rfl⟩ := List.exists_cons_of_ne_nil hl.ne_nil
    rw [hrest]
    simpa using hhead
  have hkey : (keyword? (f .en) s.rest).isSome = false := by
    rw [hword.keyword?_eq_none_iff.mpr]
    · rfl
    · intro w hw hp
      rw [hrest, prefix_append_cons_iff (hnl w hw)] at hp
      exact hwords w hw hp
  have hread : Parse.read lineText? s = (some l, s.on ('\n' :: u)) :=
    read_some (by rw [hrest]; exact hl.lineText? u)
  have hlayout : expect layout? (s.on ('\n' :: u)) = (some (), s.on (skipLayout u)) :=
    expect_some (layout?_newline u)
  have hws : Parse.words f s = (some (f .en), s) := by rw [Parse.words, hk]
  rw [descriptionLine, bind_skip hword.skipSpaces, bind_some (refuse_some hat), bind_some hws,
    bind_some (refuse_some hkey), bind_skip hword.skipSpaces, bind_some hread, bind_some hlayout]
  rfl

/-- A description ends at a tag, at one of its words and at the end of the text. -/
lemma descriptionLine_none (hk : s.keywords = .en) (hword : AtWord s.rest)
    (h : Starts ("@" :: f .en) s.rest) : descriptionLine f s = (none, s.on s.rest) := by
  have hws : Parse.words f s = (some (f .en), s) := by rw [Parse.words, hk]
  rw [descriptionLine, bind_skip hword.skipSpaces]
  rcases hat : s.rest.head? == some '@' with _ | _
  · rw [bind_some (refuse_some hat), bind_some hws]
    rcases hkey : (keyword? (f .en) s.rest).isSome with _ | _
    · -- neither a tag nor a word: the text is at its end
      have hnil : s.rest = [] := by
        rcases h with h | ⟨w, hw, hp⟩
        · exact h
        · exfalso
          rcases List.mem_cons.mp hw with rfl | hw
          · obtain ⟨r, hr⟩ := hp
            rw [← hr] at hat
            simp at hat
          · have hnone : keyword? (f .en) s.rest = none := by simpa using hkey
            exact hword.keyword?_eq_none_iff.mp hnone w hw hp
      rw [bind_some (refuse_some hkey), bind_skip hword.skipSpaces,
        bind_none (read_none (by rw [hnil]; rfl))]
      rfl
    · rw [bind_none (refuse_none hkey)]
      rfl
  · rw [bind_none (refuse_none hat)]
    rfl

/-- A rendered description is read line by line. -/
lemma reads_description {ls : List Text} (hat : At D s before ((ls.flatMap fun l => [indentLine k l]) ++ after))
    (hnl : ∀ l ∈ ls, '\n' ∉ l) (htrim : ∀ l ∈ ls, trimEnd l = l)
    (hf : Fence.Each (fun o l => Readable (f .en) (Fence.after o l) l) (fun l => [l])
      (Fence.run none before) ls)
    (hwords : ∀ w ∈ "@" :: f .en, isWord w = true ∧ '\n' ∉ w.toList)
    (hstop : Starts ("@" :: f .en) (ahead (before ++ ls.flatMap fun l => [indentLine k l]) after)) :
    Reads AtWord (descriptionLine f) s ls
      (s.on (ahead (before ++ ls.flatMap fun l => [indentLine k l]) after)) := by
  have key := reads_all (descriptionLine f) (fun l => [indentLine k l]) after (fun x l => x = l)
    (fun b s' ls' => s' = s.on s'.rest
      ∧ (∀ l ∈ ls', '\n' ∉ l ∧ trimEnd l = l)
      ∧ Fence.Each (fun o l => Readable (f .en) (Fence.after o l) l) (fun l => [l])
        (Fence.run none b) ls'
      ∧ Starts ("@" :: f .en) (ahead (b ++ ls'.flatMap fun l => [indentLine k l]) after))
    ?_ ?_ before s ls
    ⟨rfl, fun l hl => ⟨hnl l hl, htrim l hl⟩, hf, hstop⟩ hat.rest
  · obtain ⟨xs, s', hreads, hsaid, ⟨hs', -⟩, hrest'⟩ := key
    rw [hrest'] at hs'
    rw [List.forall₂_eq_eq_eq] at hsaid
    subst hsaid
    rw [← hs']
    exact hreads
  · rintro b s' ⟨hs', -, -, hstop'⟩ hrest'
    rw [List.flatMap_nil, List.append_nil, ← hrest'] at hstop'
    have hword := hstop'.atWord fun w hw => (hwords w hw).1
    exact ⟨hword, _, descriptionLine_none (by rw [hs']; exact hat.keywords) hword hstop'⟩
  · rintro b s' l ls' ⟨hs', hls', ⟨⟨hne, hstart, hnot, hmask⟩, hlater⟩, hstop'⟩ hrest'
    obtain ⟨hnl', htrim'⟩ := hls' l (by simp)
    have hsolid : Solid l := by
      refine ⟨hne, hnl', getLast?_ne_return_of_trimEnd htrim', fun c hc => ?_⟩
      have := hstart c hc
      simp only [List.mem_cons, List.not_mem_nil, or_false, not_or] at this
      exact ⟨this.1, this.2.1, this.2.2.1⟩
    have hrun : Fence.run none (b ++ [indentLine k l]) = Fence.after (Fence.run none b) l := by
      simp
    have hshown : Shown b k l l :=
      ⟨by rw [hrun, Mask.piece_indentLine, hmask], hsolid⟩
    have hhead : l.head? ≠ some '@' := fun h => by simpa using hstart _ h
    rw [List.singleton_append] at hrest'
    have hline := descriptionLine_run (f := f) (s := s') (by rw [hs']; exact hat.keywords) hsolid
      hhead hnot (fun w hw => (hwords w (by simp [hw])).2) (hrest'.trans (hshown.ahead_eq _))
    refine ⟨hrest' ▸ hshown.atWord _, l, _, hline, rfl, ⟨?_, ?_, ?_, ?_⟩, rfl, ?_⟩
    · rw [hs']; rfl
    · exact fun x hx => hls' x (by simp [hx])
    · rw [hrun]; exact hlater
    · simpa [List.flatMap_cons] using hstop'
    · rw [hrest']
      exact hshown.length_lt [] _

/-- The lines of a description, without the empty line above them. -/
lemma descriptionLines_spec {ls : List Text} (h : Prose ls)
    (hat : At D s before (indent k (descriptionLines (joinLines ls)) ++ after)) :
    (∀ l ∈ (descriptionLines (joinLines ls)).tail, '\n' ∉ l ∧ trimEnd l = l)
      ∧ joinLines (descriptionLines (joinLines ls)).tail = joinLines ls
      ∧ ∃ before', before ++ indent k (descriptionLines (joinLines ls))
          = before' ++ (descriptionLines (joinLines ls)).tail.flatMap (fun l => [indentLine k l])
        ∧ Fence.run none before' = Fence.run none before
        ∧ At D s before'
          ((descriptionLines (joinLines ls)).tail.flatMap (fun l => [indentLine k l]) ++ after) := by
  by_cases hnil : joinLines ls = []
  · rw [hnil] at hat ⊢
    exact ⟨by simp [descriptionLines], rfl, before, by simp [descriptionLines, indent], rfl, hat⟩
  · have hne : ls ≠ [] := by rintro rfl; exact hnil rfl
    have hlines : descriptionLines (joinLines ls) = [] :: ls := by
      rw [descriptionLines, if_neg (by simpa using hnil), cutAt_joinLines hne h.newline]
    have hmap : ls.flatMap (fun l => [indentLine k l]) = indent k ls := by
      rw [indent, List.map_eq_flatMap]
    rw [hlines] at hat ⊢
    rw [List.tail_cons, hmap]
    exact ⟨fun l hl => ⟨h.newline l hl, h.trimmed l hl⟩, rfl, before ++ [[]],
      by rw [List.append_assoc]; rfl, run_pass _ _, hat.pass⟩

/-- **A rendered description is read** as it is. -/
lemma description_run (hprose : ∃ ls, description = joinLines ls ∧ Prose ls)
    (hf : FaithfulDescription (f .en) (Fence.run none before) description)
    (hwords : ∀ w ∈ "@" :: f .en, isWord w = true ∧ '\n' ∉ w.toList)
    (hat : At D s before (indent k (descriptionLines description) ++ after))
    (hstop : Starts ("@" :: f .en)
      (ahead (before ++ indent k (descriptionLines description)) after)) :
    ∃ x, Grammar.description f s
        = (some x, s.on (ahead (before ++ indent k (descriptionLines description)) after))
      ∧ normalise x = description := by
  obtain ⟨ls, rfl, hls⟩ := hprose
  have hword := hstop.atWord fun w hw => (hwords w hw).1
  obtain ⟨hbody, hjoin, before', hplaced, hrun, hat'⟩ := descriptionLines_spec hls hat
  rw [hplaced] at hstop hword ⊢
  have hreads := reads_description hat' (fun l hl => (hbody l hl).1) (fun l hl => (hbody l hl).2)
    (by rwa [hrun]) hwords hstop
  refine ⟨joinLines ls, ?_, hls.normalise_joinLines⟩
  have hkept : (if isBlankText (joinLines ls) then [] else joinLines ls) = joinLines ls := by
    split
    · rename_i hb
      exact (hls.eq_nil_of_isBlankText hb).symm
    · rfl
  rw [Grammar.description, bind_some (spaced_of_reads hreads), bind_skip hword.skipLayout, hjoin]
  simp only [hkept]
  rfl

/-! ### What stands below a header -/

/-- The lines below a header, without the empty line above them. -/
lemma At.body {ls : List Text} (h : At D s before (indent k (body description ls) ++ after)) :
    ∃ before', before ++ indent k (body description ls) = before' ++ indent (k + 1) ls
      ∧ Fence.run none before' = Fence.run none before
      ∧ At D s before' (indent (k + 1) ls ++ after) := by
  rw [Render.body] at h ⊢
  by_cases hls : ls = []
  · subst hls
    exact ⟨before, rfl, rfl, h⟩
  rw [if_neg (by simpa using hls)] at h ⊢
  by_cases hd : description = []
  · rw [if_pos (by simpa using hd), List.nil_append, indent_indent] at h ⊢
    exact ⟨before, rfl, rfl, h⟩
  · have hlines : indent k ([[]] ++ indent 1 ls) = [] :: indent (k + 1) ls := by
      rw [indent_append, indent_indent]
      rfl
    rw [if_neg (by simpa using hd), hlines] at h ⊢
    exact ⟨before ++ [[]], by simp, run_pass _ _, h.pass⟩

/-- The keyword, the name and the description of a section are read. -/
lemma header_run {f g : Keywords → List String} (hws : Leading ws)
    (h : Headed ws kw name description) (default : Text) (hclear : Clear (f .en))
    (hmem : kw ∈ (f .en).map String.toList)
    (hf : FaithfulDescription (g .en) (Fence.run none before) description)
    (hwords : ∀ w ∈ "@" :: g .en, isWord w = true ∧ '\n' ∉ w.toList)
    (hat : At D s before (indent k (header [] kw default name description) ++ after))
    (hstop : Starts ("@" :: g .en)
      (ahead (before ++ indent k (header [] kw default name description)) after)) :
    ∃ t s' x, keyword f s = (some kw, s.on t) ∧ Grammar.name (s.on t) = (some name, s')
      ∧ Grammar.description g s' = (some x,
        s.on (ahead (before ++ indent k (header [] kw default name description)) after))
      ∧ normalise x = description := by
  have hlines : indent k (header [] kw default name description)
      = [indentLine k (keywordLine kw default name)] ++ indent k (descriptionLines description) := rfl
  rw [hlines, List.append_assoc] at hat
  rw [hlines, ← List.append_assoc] at hstop ⊢
  obtain ⟨t, hkey, hname⟩ := title_run hws h default hat.keywords hclear hmem hat.rest
  have hrun : Fence.run none (before ++ [indentLine k (keywordLine kw default name)])
      = Fence.run none before := by
    rw [Fence.run_append, run_of_isLead _ k (shown_keywordLine before k hws h default).2.2]
  obtain ⟨x, hx, hnormal⟩ := description_run h.description (by rwa [hrun]) hwords hat.move hstop
  exact ⟨t, _, x, hkey, hname, hx, hnormal⟩

lemma stepWords_facts : ∀ w ∈ "@" :: stepWords .en, isWord w = true ∧ '\n' ∉ w.toList := by
  refine fun w hw => stops_facts w ?_
  simp only [stops, List.mem_cons, List.mem_append] at hw ⊢
  grind

/-- The fence after a header is the one after its description. -/
lemma run_header (o : Option Fence) (hws : Leading ws) (h : Headed ws kw name description)
    (default : Text) :
    Fence.run o (indent k (header [] kw default name description))
      = Fence.run o (descriptionLines description) := by
  rw [Fence.run_indent]
  change Fence.run (Fence.after o (keywordLine kw default name)) (descriptionLines description) = _
  rw [Fence.after_of_not_starts
    (starts_of_isLead (shown_keywordLine [] k hws h default).2.2)]

/-- The steps below a header are read up to the next section. -/
lemma body_run {sts : List Step} (hD : ∀ l ∈ D, '\n' ∉ l) (hsts : Step.Sequence sts)
    (hf : Fence.Each Step.Faithful Step.lines (Fence.run none before) sts)
    (hat : At D s before (indent k (body description (sts.flatMap Step.lines)) ++ after))
    (hlast : s.last = none) (hstop : Starts sections
      (ahead (before ++ indent k (body description (sts.flatMap Step.lines))) after)) :
    Starts ("@" :: stepWords .en) s.rest ∧ ∃ xs, steps s = (some xs,
        s.on (ahead (before ++ indent k (body description (sts.flatMap Step.lines))) after))
      ∧ List.Forall₂ (SaysStep D) xs sts := by
  obtain ⟨before', hplaced, hrun, hat'⟩ := hat.body
  have hlines := lines_steps (k := k + 1) hsts.each (text_of_each hf)
  rw [hplaced, hlines] at hstop ⊢
  rw [hlines] at hat'
  refine ⟨?_, steps_run hD hsts (by rwa [hrun]) hat' hlast hstop⟩
  rw [hat'.rest]
  exact starts_steps hsts.each (text_of_each hf) hstop

/-- A section with steps is read up to the next one. -/
lemma section_run {f : Keywords → List String} {sts : List Step} (hD : ∀ l ∈ D, '\n' ∉ l)
    (hws : Leading ws) (h : Headed ws kw name description) (default : Text)
    (hclear : Clear (f .en)) (hmem : kw ∈ (f .en).map String.toList) (hsts : Step.Sequence sts)
    (hf : FaithfulSteps (Fence.run none before) description sts)
    (hat : At D s before (indent k (header [] kw default name description
      ++ body description (sts.flatMap Step.lines)) ++ after)) (hlast : s.last = none)
    (hstop : Starts sections (ahead (before ++ indent k (header [] kw default name description
      ++ body description (sts.flatMap Step.lines))) after)) :
    ∃ t s₁ s₂ x xs, keyword f s = (some kw, s.on t) ∧ Grammar.name (s.on t) = (some name, s₁)
      ∧ Grammar.description stepWords s₁ = (some x, s₂)
      ∧ steps s₂ = (some xs, s.on (ahead (before ++ indent k (header [] kw default name description
        ++ body description (sts.flatMap Step.lines))) after))
      ∧ normalise x = description ∧ List.Forall₂ (SaysStep D) xs sts := by
  rw [indent_append] at hat hstop ⊢
  rw [List.append_assoc] at hat
  rw [← List.append_assoc] at hstop ⊢
  have hrun : Fence.run none (before ++ indent k (header [] kw default name description))
      = Fence.run (Fence.run none before) (descriptionLines description) := by
    rw [Fence.run_append, run_header _ hws h]
  obtain ⟨hafter, xs, hxs, hsaid⟩ := body_run hD hsts (by rw [hrun]; exact hf.2) hat.move hlast hstop
  obtain ⟨t, s₁, x, hkey, hname, hx, hnormal⟩ := header_run hws h default hclear hmem hf.1
    stepWords_facts hat hafter
  exact ⟨t, s₁, _, x, xs, hkey, hname, hx, hxs, hnormal, hsaid⟩

end FeatureTree.RoundTrip
