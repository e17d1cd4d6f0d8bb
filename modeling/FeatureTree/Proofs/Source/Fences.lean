import FeatureTree.Proofs.Markup.Masking
import FeatureTree.Proofs.Source.Range

/-!
The fence that is open after a line.

Masking, the search for comments and the search for a doc string each keep track of fences on their
own. The first goes by the pieces of a text and the other two by its numbered lines, which lack the
line ends, but whether a line starts with a fence does not depend on the blanks around it. So the
first two have the same fence open after every line, and both pass over a doc string from the line
that opens it to the line that closes it.
-/

namespace FeatureTree

open Text

namespace Fence

lemma starts_lineOfPiece (f : Fence) (p : Text) : f.starts (Source.lineOfPiece p) = f.starts p := by
  rw [starts_eq_trim, starts_eq_trim, Source.trim_lineOfPiece]

/-- Line ends do not matter to the fence that is open after some lines. -/
lemma run_map_lineOfPiece (o : Option Fence) (ps : List Text) :
    run o (ps.map Source.lineOfPiece) = run o ps := by
  induction ps generalizing o with
  | nil => rfl
  | cons p ps ih =>
    rw [List.map_cons, run_cons, run_cons, after_congr (fun f => starts_lineOfPiece f p), ih]

lemma run_eq_self {o : Option Fence} {ls : List Text} (h : ∀ l ∈ ls, after o l = o) :
    run o ls = o := by
  induction ls with
  | nil => rfl
  | cons l ls ih =>
    rw [run_cons, h l (by simp), ih fun m hm => h m (by simp [hm])]

/-- A line without content opens no fence and closes none. -/
lemma not_starts_of_isSkipped {l : Text} (h : Source.isSkipped l = true) (f : Fence) :
    f.starts l = false := by
  refine not_starts_of_head (fun c hc => ?_) f
  unfold Source.isSkipped at h
  split at h
  · rename_i ht
    simp [ht] at hc
  · rename_i d u ht
    obtain rfl : d = c := by simpa [ht] using hc
    obtain rfl : d = '#' := by simpa using h
    decide

lemma not_isRow_of_starts {f : Fence} {l : Text} (h : f.starts l = true) :
    Mask.isRow l = false := by
  rw [Bool.eq_false_iff]
  intro hrow
  have hself := Mask.after_of_isRow (some f) hrow
  simp [after, h] at hself

/-- A line that opens a fence, lines that stand in it, and the line that closes it. -/
structure Brackets (f : Fence) (opening : Text) (body : List Text) (closing : Text) : Prop where
  opens : opening? opening = some f
  inside : ∀ l ∈ body, f.starts l = false
  closes : f.starts closing = true

variable {f : Fence} {opening closing : Text} {body : List Text}

lemma run_inside (h : ∀ l ∈ body, f.starts l = false) : run (some f) body = some f :=
  run_eq_self fun l hl => by simp [after, h l hl]

/-- The fence is open after the opening line and after each line of the body. -/
lemma Brackets.run_take (h : f.Brackets opening body closing) (i : Nat) :
    run none (opening :: body.take i) = some f := by
  have hopen : after none opening = some f := h.opens
  rw [run_cons, hopen, run_inside fun l hl => h.inside l (List.mem_of_mem_take hl)]

/-- It is closed after the closing line. -/
lemma Brackets.run_eq_none (h : f.Brackets opening body closing) :
    run none (opening :: body ++ [closing]) = none := by
  have hbody := h.run_take body.length
  rw [List.take_length] at hbody
  rw [run_append, hbody, run_cons, run_nil, after, if_pos h.closes]

/-- Where no fence is open above a doc string, its own is open from its first line on. -/
lemma Brackets.run_take_lines (h : f.Brackets opening body closing) {above : List Text}
    (habove : run none above = none) (below : List Text) {n : Nat} (hn : above.length < n)
    (hn' : n < above.length + body.length + 2) :
    run none ((above ++ (opening :: body ++ [closing]) ++ below).take n) = some f := by
  obtain ⟨i, rfl⟩ : ∃ i, n = above.length + (i + 1) := ⟨n - above.length - 1, by omega⟩
  rw [List.append_assoc, List.take_length_add_append, run_append, habove, List.cons_append,
    List.cons_append, List.take_succ_cons, List.append_assoc,
    List.take_append_of_le_length (by omega)]
  exact h.run_take i

/-- And no fence is open after its last line. -/
lemma Brackets.run_take_last (h : f.Brackets opening body closing) {above : List Text}
    (habove : run none above = none) (below : List Text) :
    run none ((above ++ (opening :: body ++ [closing]) ++ below).take
      (above.length + body.length + 2)) = none := by
  rw [List.take_left' (by simp; omega), run_append, habove, h.run_eq_none]

end Fence

namespace Source

/-! ### The search for comments -/

/-- The fence that is open after some lines in the search for comments, by the one before them. -/
def openFence : Option Fence → List (Nat × Text) → Option Fence
  | o, [] => o
  | some f, (_, l) :: ls => openFence (if f.starts l then none else some f) ls
  | none, (_, l) :: ls =>
    match Fence.opening? l with
    | some f => openFence (some f) ls
    | none => openFence none ls

/-- The search goes on with the fence that is open. -/
lemma commentsFrom_append (o : Option Fence) (ls ms : List (Nat × Text)) :
    commentsFrom o (ls ++ ms) = commentsFrom o ls ++ commentsFrom (openFence o ls) ms := by
  fun_induction openFence o ls with
  | case1 o => cases o <;> simp [commentsFrom]
  | case2 f n l ls ih => rw [List.cons_append, commentsFrom, commentsFrom, ih]
  | case3 n l ls f hf ih => simp only [List.cons_append, commentsFrom, hf, ih]
  | case4 n l ls hf ih =>
    simp only [List.cons_append, commentsFrom, hf, ih]
    split <;> rfl

lemma openFence_eq (o : Option Fence) (ls : List (Nat × Text)) :
    openFence o ls = Fence.run o (ls.map Prod.snd) := by
  fun_induction openFence o ls with
  | case1 o => rfl
  | case2 f n l ls ih => rw [ih]; rfl
  | case3 n l ls f hf ih => rw [ih, List.map_cons, Fence.run_cons, Fence.after, hf]
  | case4 n l ls hf ih => rw [ih, List.map_cons, Fence.run_cons, Fence.after, hf]

/-- Nothing is reported from lines that stand in a fence. -/
lemma commentsFrom_inside {f : Fence} {ls : List (Nat × Text)}
    (h : ∀ p ∈ ls, f.starts p.2 = false) : commentsFrom (some f) ls = [] := by
  induction ls with
  | nil => rfl
  | cons p ls ih =>
    obtain ⟨n, l⟩ := p
    rw [commentsFrom, if_neg (by simp [h (n, l) (by simp)]), ih fun q hq => h q (by simp [hq])]

/-- Nothing is reported from a doc string, nor from the lines of its fences. -/
lemma commentsFrom_brackets {f : Fence} {opening closing : Text} {body : List Text}
    (h : f.Brackets opening body closing) (n : Nat) :
    commentsFrom none (countFrom n (opening :: body ++ [closing])) = [] := by
  have hinside : ∀ p ∈ countFrom (n + 1) body, f.starts p.2 = false := by
    intro p hp
    refine h.inside p.2 ?_
    rw [← map_snd_countFrom (n + 1) body]
    exact List.mem_map_of_mem hp
  rw [List.cons_append, countFrom_cons, commentsFrom, h.opens, countFrom_append]
  simp only
  rw [commentsFrom_append, commentsFrom_inside hinside, openFence_eq, map_snd_countFrom,
    Fence.run_inside h.inside]
  simp [commentsFrom]

lemma line_of_mem_commentsFrom {o : Option Fence} {n : Nat} {ls : List Text} {c : Located Text}
    (h : c ∈ commentsFrom o (countFrom n ls)) : n ≤ c.line ∧ c.line < n + ls.length := by
  have hmem := (sublist_commentsFrom o (countFrom n ls)).mem (List.mem_map_of_mem h)
  obtain ⟨⟨k, l⟩, hk, hline⟩ := List.mem_map.mp hmem
  rw [← hline]
  exact mem_countFrom hk

/-- Comments stand above a doc string or below it. -/
lemma line_of_mem_comments_brackets {s : Source} {f : Fence} {opening closing : Text}
    {before body after : List Text}
    (hlines : s.lines = before ++ (opening :: body ++ [closing]) ++ after)
    (hbefore : Fence.run none before = none) (h : f.Brackets opening body closing)
    {c : Located Text} (hc : c ∈ s.comments) :
    c.line ≤ before.length ∨ before.length + body.length + 2 < c.line := by
  rw [comments, numbered_eq, hlines, countFrom_append, countFrom_append, commentsFrom_append,
    commentsFrom_append, openFence_eq, openFence_eq, List.map_append, map_snd_countFrom,
    map_snd_countFrom, Fence.run_append, hbefore, h.run_eq_none, commentsFrom_brackets h,
    List.append_nil, List.mem_append] at hc
  rcases hc with hc | hc
  · have := (line_of_mem_commentsFrom hc).2
    omega
  · have := (line_of_mem_commentsFrom hc).1
    simp only [List.length_append, List.length_cons, List.length_nil] at this
    omega

/-! ### The search for a doc string -/

/-- Lines `first` to `last` are a doc string: the first one opens a fence, the last one is the next
line that starts with it, and the content is what stands between them. -/
def Encloses (s : Source) (f : Fence) (first last : Nat) (d : Fenced) : Prop :=
  ∃ before opening body closing after,
    s.lines = before ++ (opening :: body ++ [closing]) ++ after
      ∧ f.Brackets opening body closing
      ∧ first = before.length + 1 ∧ last = first + body.length + 1
      ∧ d = ⟨typeOf f opening, joinLines (body.map (contentLine f (indentation opening)))⟩

lemma dropWhile_countFrom (p : Text → Bool) (n : Nat) (ls : List Text) :
    (countFrom n ls).dropWhile (fun q => p q.2)
      = countFrom (n + (ls.takeWhile p).length) (ls.dropWhile p) := by
  induction ls generalizing n with
  | nil => rfl
  | cons l ls ih =>
    by_cases hl : p l = true
    · rw [countFrom_cons, List.dropWhile_cons_of_pos (by exact hl), ih,
        List.takeWhile_cons_of_pos hl, List.dropWhile_cons_of_pos hl, List.length_cons]
      congr 1
      omega
    · simp [hl]

/-- The body of a fence ends at the first line that starts with it. -/
lemma exists_of_body? {f : Fence} {ls body : List Text} (h : body? f ls = some body) :
    ∃ closing after, ls = body ++ closing :: after ∧ f.starts closing = true
      ∧ ∀ l ∈ body, f.starts l = false := by
  induction ls generalizing body with
  | nil => simp [body?] at h
  | cons l ls ih =>
    unfold body? at h
    split at h
    · rename_i hl
      obtain rfl := Option.some.inj h
      exact ⟨l, ls, rfl, hl, by simp⟩
    · rename_i hl
      obtain ⟨rest, hrest, rfl⟩ := Option.map_eq_some_iff.mp h
      obtain ⟨closing, after, rfl, hclosing, hbody⟩ := ih hrest
      exact ⟨closing, after, rfl, hclosing, by simpa [hl] using hbody⟩

/-- A doc string is found below its step, with nothing but lines without content between them. -/
lemma docString?_spec {s : Source} {step : Nat} {d : Located Fenced}
    (h : s.docString? step = some d) :
    ∃ f skipped opening body closing after,
      s.lines.drop step = skipped ++ (opening :: body ++ [closing]) ++ after
        ∧ step ≤ s.lines.length ∧ (∀ l ∈ skipped, isSkipped l = true)
        ∧ f.Brackets opening body closing ∧ d.line = step + skipped.length + 1
        ∧ d.value
          = ⟨typeOf f opening, joinLines (body.map (contentLine f (indentation opening)))⟩ := by
  unfold docString? at h
  rw [linesFrom_eq, Nat.add_sub_cancel, dropWhile_countFrom] at h
  set skipped := (s.lines.drop step).takeWhile isSkipped with hskipped
  rcases hrest : (s.lines.drop step).dropWhile isSkipped with _ | ⟨opening, rest⟩
  · simp [hrest] at h
  · rw [hrest, countFrom_cons] at h
    simp only [map_snd_countFrom] at h
    obtain ⟨f, hf, h⟩ := Option.bind_eq_some_iff.mp h
    obtain ⟨body, hbody, hd⟩ := Option.bind_eq_some_iff.mp h
    obtain ⟨closing, after, rfl, hclosing, hnot⟩ := exists_of_body? hbody
    have hdrop : s.lines.drop step = skipped ++ (opening :: body ++ [closing]) ++ after :=
      calc s.lines.drop step = skipped ++ (s.lines.drop step).dropWhile isSkipped :=
          List.takeWhile_append_dropWhile.symm
        _ = skipped ++ (opening :: body ++ [closing]) ++ after := by simp [hrest]
    refine ⟨f, skipped, opening, body, closing, after, hdrop, ?_, ?_, ⟨hf, hnot, hclosing⟩, ?_, ?_⟩
    · by_contra hlt
      rw [List.drop_eq_nil_of_le (by omega)] at hdrop
      simp at hdrop
    · exact fun l hl => List.mem_takeWhile_imp hl
    · rw [← Option.some.inj hd, Nat.add_comm 1 step, Nat.add_right_comm]
    · rw [← Option.some.inj hd]

/-- The fence that is open after line `n` in the search for comments. -/
def commentFence (s : Source) (n : Nat) : Option Fence := openFence none (s.numbered.take n)

end Source

/-! ### Both trackers -/

namespace Text

/-- The fence that is open after line `n` when a text is masked. -/
def maskFence (t : Text) (n : Nat) : Option Fence := Fence.run none (t.pieces.take n)

lemma maskFence_eq (t : Text) (n : Nat) :
    t.maskFence n = Fence.run none ((Source.ofText t).lines.take n) := by
  rw [maskFence, Source.lines_ofText, ← List.map_take, Fence.run_map_lineOfPiece]

/-- The search for comments has the fence open that masking has. -/
lemma commentFence_ofText (t : Text) (n : Nat) :
    (Source.ofText t).commentFence n = t.maskFence n := by
  rw [Source.commentFence, Source.openFence_eq, Source.numbered_eq, Source.take_countFrom,
    Source.map_snd_countFrom, maskFence_eq]

/-- A line is masked by the fence that is open after it. -/
lemma getElem?_pieces_maskFence (t : Text) (i : Nat) :
    t.masked.pieces[i]? = t.pieces[i]?.map (Mask.piece (t.maskFence (i + 1))) := by
  rcases hp : t.pieces[i]? with _ | p
  · rw [Option.map_none, List.getElem?_eq_none_iff, pieces_masked, Mask.length_pieces]
    exact List.getElem?_eq_none_iff.mp hp
  · obtain ⟨hi, hget⟩ := List.getElem?_eq_some_iff.mp hp
    have hsplit : t.pieces = t.pieces.take i ++ p :: t.pieces.drop (i + 1) := by
      rw [← hget, List.getElem_cons_drop, List.take_append_drop]
    have hmask := getElem?_pieces_masked hsplit
    rw [List.length_take_of_le hi.le] at hmask
    rw [hmask, maskFence, List.take_add_one, hp, Fence.run_append]
    rfl

/-- A line in a fence, or of one, is not masked. -/
lemma getElem?_pieces_of_fence {t : Text} {i : Nat} (h : (t.maskFence (i + 1)).isSome
    ∨ ∃ f l, (Source.ofText t).lines[i]? = some l ∧ Fence.starts f l = true) :
    t.masked.pieces[i]? = t.pieces[i]? := by
  rw [getElem?_pieces_maskFence]
  rcases hp : t.pieces[i]? with _ | p
  · rfl
  · refine congrArg some ?_
    rcases h with hopen | ⟨f, l, hl, hstarts⟩
    · have hne := Option.isSome_iff_ne_none.mp hopen
      rw [Mask.piece, if_neg (by simp [hne])]
    · rw [Source.lines_ofText, List.getElem?_map, hp] at hl
      rw [← Option.some.inj hl, Fence.starts_lineOfPiece] at hstarts
      exact Mask.piece_of_not_isRow (Fence.not_isRow_of_starts hstarts) _

section Enclosed

variable {t : Text} {f : Fence} {opening closing : Text} {above body below : List Text}

/-- Masking has the fence of a doc string open until the line that closes it, if none is open
above. -/
lemma maskFence_brackets
    (hlines : (Source.ofText t).lines = above ++ (opening :: body ++ [closing]) ++ below)
    (habove : Fence.run none above = none) (h : f.Brackets opening body closing) :
    (∀ n, above.length < n → n < above.length + body.length + 2 → t.maskFence n = some f)
      ∧ t.maskFence (above.length + body.length + 2) = none := by
  refine ⟨fun n hn hn' => ?_, ?_⟩
  · rw [maskFence_eq, hlines]
    exact h.run_take_lines habove below hn hn'
  · rw [maskFence_eq, hlines]
    exact h.run_take_last habove below

/-- No line of a doc string is masked. -/
lemma getElem?_pieces_brackets
    (hlines : (Source.ofText t).lines = above ++ (opening :: body ++ [closing]) ++ below)
    (habove : Fence.run none above = none) (h : f.Brackets opening body closing) {n : Nat}
    (hn : above.length < n) (hn' : n ≤ above.length + body.length + 2) :
    t.masked.pieces[n - 1]? = t.pieces[n - 1]? := by
  refine getElem?_pieces_of_fence ?_
  rcases Nat.lt_or_ge n (above.length + body.length + 2) with hlt | hge
  · have hopen := (maskFence_brackets hlines habove h).1 n hn hlt
    rw [Nat.sub_add_cancel (by omega), hopen]
    exact .inl rfl
  · -- the fence is closed after the last line, but that line is the fence itself
    obtain rfl : n = above.length + body.length + 2 := by omega
    refine .inr ⟨f, closing, ?_, h.closes⟩
    have hindex : above.length + body.length + 2 - 1 = above.length + (body.length + 1) := by omega
    rw [hlines, hindex, List.append_assoc, List.getElem?_append_right (by omega),
      Nat.add_sub_cancel_left]
    simp

end Enclosed

/-- **The trackers of fences agree.** After every line, masking and the search for comments have the
same fence open, and go on with it. Where none is open below a step and the step has a doc string,
both open its fence on the line that the doc string opens on and close it on the line that it is
closed on. No line from the one to the other is masked or reported as a comment. -/
theorem fence_trackers_agree (t : Text) :
    (∀ n, (Source.ofText t).commentFence n = t.maskFence n)
      ∧ (∀ n, t.masked = (Mask.pieces none (t.pieces.take n)
            ++ Mask.pieces (t.maskFence n) (t.pieces.drop n)).flatten
        ∧ (Source.ofText t).comments = Source.commentsFrom none ((Source.ofText t).numbered.take n)
            ++ Source.commentsFrom ((Source.ofText t).commentFence n)
              ((Source.ofText t).numbered.drop n))
      ∧ ∀ step d, t.maskFence step = none → (Source.ofText t).docString? step = some d →
        ∃ f last, (Source.ofText t).Encloses f d.line last d.value
          ∧ step < d.line ∧ (∀ n, step ≤ n → n < d.line → t.maskFence n = none)
          ∧ (∀ n, d.line ≤ n → n < last → t.maskFence n = some f)
          ∧ t.maskFence last = none
          ∧ (∀ n, d.line ≤ n → n ≤ last → t.masked.pieces[n - 1]? = t.pieces[n - 1]?)
          ∧ ∀ c ∈ (Source.ofText t).comments, c.line < d.line ∨ last < c.line := by
  refine ⟨commentFence_ofText t, fun n => ⟨?_, ?_⟩, fun step d hstep hd => ?_⟩
  · rw [maskFence, ← Mask.pieces_append, List.take_append_drop, masked]
  · rw [Source.commentFence, ← Source.commentsFrom_append, List.take_append_drop, Source.comments]
  · obtain ⟨f, skipped, opening, body, closing, after, hdrop, hle, hskipped, hbrackets, hline,
      hvalue⟩ := Source.docString?_spec hd
    set lines := (Source.ofText t).lines with hset
    set above := lines.take step ++ skipped with habove
    have hlines : lines = above ++ (opening :: body ++ [closing]) ++ after := by
      rw [habove, List.append_assoc, List.append_assoc, ← List.append_assoc skipped, ← hdrop,
        List.take_append_drop]
    have hlen : above.length = step + skipped.length := by
      rw [habove, List.length_append, List.length_take_of_le hle]
    -- the lines without content below the step open no fence
    have hnone : ∀ i, Fence.run none (lines.take step ++ skipped.take i) = none := by
      intro i
      rw [Fence.run_append, ← maskFence_eq, hstep]
      refine Fence.run_eq_self fun l hl => Fence.after_of_not_starts (fun g => ?_) none
      exact Fence.not_starts_of_isSkipped (hskipped l (List.mem_of_mem_take hl)) g
    have hrun : Fence.run none above = none := by
      have := hnone skipped.length
      rwa [List.take_length] at this
    obtain ⟨hinside, hlast⟩ := maskFence_brackets hlines hrun hbrackets
    refine ⟨f, above.length + body.length + 2, ⟨above, opening, body, closing, after, hlines,
      hbrackets, by omega, by omega, hvalue⟩, by omega, fun n hn hn' => ?_,
      fun n hn => hinside n (by omega), hlast,
      fun n hn => getElem?_pieces_brackets hlines hrun hbrackets (by omega), fun c hc => ?_⟩
    · obtain ⟨i, rfl⟩ : ∃ i, n = step + i := ⟨n - step, by omega⟩
      have htake : lines.take (step + i) = lines.take step ++ skipped.take i := by
        rw [List.take_add, hdrop, List.append_assoc, List.take_append_of_le_length (by omega)]
      rw [maskFence_eq, ← hset, htake, hnone]
    · have := Source.line_of_mem_comments_brackets hlines hrun hbrackets hc
      omega

/-- A doc string below an empty line, with what looks like a comment and like a row in it. It is
closed on the line before the last, which is a comment. -/
theorem fence_trackers_agree_enclosed :
    let t : Text := "Given x\n\n \"\"\"\n# a\n|b\\|c|\n\"\"\"\n# d".toList
    let d : Located Fenced := ⟨3, none, "# a\n|b\\|c|".toList⟩
    t.maskFence 1 = none ∧ (Source.ofText t).docString? 1 = some d
      ∧ (Source.ofText t).Encloses .quotes 3 6 d.value
      ∧ (∀ n, 3 ≤ n → n < 6 → t.maskFence n = some .quotes) ∧ t.maskFence 6 = none
      ∧ (∀ n, 3 ≤ n → n ≤ 6 → t.masked.pieces[n - 1]? = t.pieces[n - 1]?)
      ∧ ∀ c ∈ (Source.ofText t).comments, c.line < 3 ∨ 6 < c.line := by
  intro t d
  have hstep : t.maskFence 1 = none := by decide
  have hd : (Source.ofText t).docString? 1 = some d := by decide +kernel
  obtain ⟨f, last, hencloses, -, -, hinside, hlast, hpieces, hcomments⟩ :=
    (fence_trackers_agree t).2.2 1 d hstep hd
  -- the fence is open after lines 3 to 5 and not after line 6, so line 6 closes it
  have hopen : ∀ n, 3 ≤ n → n < 6 → t.maskFence n = some .quotes := by decide
  have hfirst : 3 < last := by
    obtain ⟨before, opening, body, closing, after, -, -, -, hlength, -⟩ := hencloses
    have : d.line = 3 := rfl
    omega
  obtain rfl : last = 6 := by
    rcases Nat.lt_trichotomy last 6 with hlt | heq | hgt
    · rw [hopen last (by omega) hlt] at hlast
      cases hlast
    · exact heq
    · have hclosed : t.maskFence 6 = none := by decide
      rw [hinside 6 (by decide) hgt] at hclosed
      cases hclosed
  obtain rfl : Fence.quotes = f := by
    have hthree := hinside 3 (by decide) (by decide)
    rw [hopen 3 (by decide) (by decide)] at hthree
    exact Option.some.inj hthree
  exact ⟨hstep, hd, hencloses, hopen, hlast, hpieces, hcomments⟩

end Text

end FeatureTree
