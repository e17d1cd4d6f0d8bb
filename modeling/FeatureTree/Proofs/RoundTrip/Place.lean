import FeatureTree.Proofs.Grammar.Run
import FeatureTree.Proofs.Grammar.Words
import FeatureTree.Proofs.Markup.Masked
import FeatureTree.Proofs.Source.Placed

/-!
Places in a text of whole lines.

A place is given by the lines before it and the lines that are still to come. The grammar rests at
the first word of these, and sees them masked by the fence that the lines before leave open.
-/

namespace FeatureTree.RoundTrip

open Text Grammar

/-- The masked text of the lines that come after `before`. -/
def below (before here : List Text) : Text := unlines (Mask.pieces (Fence.run none before) here)

/-- The same text from its first word on. -/
def ahead (before here : List Text) : Text := skipLayout (below before here)

variable {before here after : List Text} {l m : Text} {k : Nat}

@[simp] lemma below_nil (before : List Text) : below before [] = [] := rfl

@[simp] lemma ahead_nil (before : List Text) : ahead before [] = [] := skipLayout_nil

lemma below_cons (before : List Text) (l : Text) (ls : List Text) :
    below before (l :: ls)
      = Mask.piece (Fence.run none (before ++ [l])) l ++ '\n' :: below (before ++ [l]) ls := by
  simp [below]

lemma below_append (before ls ms : List Text) :
    below before (ls ++ ms) = below before ls ++ below (before ++ ls) ms := by
  simp [below, Mask.pieces_append]

@[simp] lemma byteLength_below (before here : List Text) :
    byteLength (below before here) = byteLength (unlines here) :=
  Mask.byteLength_unlines_pieces _ _

/-- An empty line is passed over. -/
lemma ahead_empty (before ls : List Text) : ahead before ([] :: ls) = ahead (before ++ [[]]) ls := by
  have hrow : Mask.isRow [] = false := rfl
  rw [ahead, below_cons, Mask.piece_of_not_isRow hrow]
  exact skipLayout_newline _

/-! ### Solid lines -/

/-- The line `l`, moved right by `k` levels after `before`, is read as the solid line `m`. -/
structure Shown (before : List Text) (k : Nat) (l m : Text) : Prop where
  piece : Mask.piece (Fence.run none (before ++ [indentLine k l])) (indentLine k l) = indentLine k m
  solid : Solid m

lemma shown_of_not_isRow (before : List Text) (k : Nat) (hl : Solid l)
    (hrow : Mask.isRow l = false) : Shown before k l l :=
  ⟨Mask.piece_of_not_isRow (by rwa [Mask.isRow_indentLine]) _, hl⟩

lemma Shown.below_eq (h : Shown before k l m) (ls : List Text) :
    below before (indentLine k l :: ls)
      = indentLine k m ++ '\n' :: below (before ++ [indentLine k l]) ls := by
  rw [below_cons, h.piece]

/-- The text from a solid line on. -/
lemma Shown.ahead_eq (h : Shown before k l m) (ls : List Text) :
    ahead before (indentLine k l :: ls) = m ++ '\n' :: below (before ++ [indentLine k l]) ls := by
  rw [ahead, h.below_eq, h.solid.skipLayout_indentLine]

lemma Shown.below_eq_ahead (h : Shown before k l m) (ls : List Text) :
    below before (indentLine k l :: ls) = Text.margin k ++ ahead before (indentLine k l :: ls) := by
  rw [h.below_eq, h.ahead_eq, indentLine_of_ne_nil k h.solid.ne_nil, List.append_assoc]

lemma Shown.atWord (h : Shown before k l m) (ls : List Text) :
    AtWord (ahead before (indentLine k l :: ls)) := by
  rw [h.ahead_eq]
  exact h.solid.atWord _

/-- Reading on from a solid line gets ahead. -/
lemma Shown.length_lt (h : Shown before k l m) (ls after : List Text) :
    (ahead (before ++ indentLine k l :: ls) after).length
      < (ahead before (indentLine k l :: ls ++ after)).length := by
  have hle := length_skipLayout (below (before ++ indentLine k l :: ls) after)
  have hpos := List.length_pos_iff.mpr h.solid.ne_nil
  have happ : before ++ [indentLine k l] ++ ls = before ++ indentLine k l :: ls := by simp
  rw [List.cons_append, h.ahead_eq, below_append, happ]
  simp only [ahead, List.length_append, List.length_cons] at hle ⊢
  omega

lemma byteLength_indentLine (k : Nat) {l : Text} (h : l ≠ []) :
    byteLength (indentLine k l) = byteLength (Text.margin k) + byteLength l := by
  rw [indentLine_of_ne_nil k h, byteLength_append]

lemma Shown.byteLength_eq (h : Shown before k l m) (hl : l ≠ []) : byteLength m = byteLength l := by
  have hv := Cells.byteLength_veils
    (Mask.veils_piece (Fence.run none (before ++ [indentLine k l])) (indentLine k l))
  rw [h.piece, byteLength_indentLine k hl, byteLength_indentLine k h.solid.ne_nil] at hv
  omega

/-- The place of a solid line is on its line. -/
lemma Shown.lineOf (h : Shown before k l m) (hb : ∀ x ∈ before, '\n' ∉ x) (hl : l ≠ [])
    (ls : List Text) :
    (Source.ofText (unlines (before ++ indentLine k l :: ls))).lineOf
        (byteLength (unlines (before ++ indentLine k l :: ls))
          - byteLength (ahead before (indentLine k l :: ls)))
      = before.length + 1 := by
  have htext : unlines (before ++ indentLine k l :: ls)
      = (unlines before ++ Text.margin k) ++ (l ++ '\n' :: unlines ls) := by
    rw [unlines_append, unlines_cons, indentLine_of_ne_nil k hl]
    simp
  have hsize : byteLength (unlines (before ++ indentLine k l :: ls))
      - byteLength (ahead before (indentLine k l :: ls)) = byteLength (unlines before ++ Text.margin k) := by
    rw [htext, h.ahead_eq]
    simp only [byteLength_append, byteLength, byteLength_below, h.byteLength_eq hl]
    omega
  have hcount : (unlines before ++ Text.margin k).count '\n' = before.length := by
    rw [List.count_append, count_newline_unlines hb, Text.margin, List.count_eq_zero.mpr (by simp)]
    rfl
  rw [hsize, htext, Source.lineOf_byteLength _ (by simp), hcount]

/-- The parser rests in the text of the lines `D` where the lines `here` are still to come. -/
structure At (D : List Text) (s : State) (before here : List Text) : Prop where
  lines : D = before ++ here
  rest : s.rest = ahead before here
  size : s.size = byteLength (unlines D)
  keywords : s.keywords = .en

lemma At.move {D ls : List Text} {s : State} (h : At D s before (ls ++ after)) :
    At D (s.on (ahead (before ++ ls) after)) (before ++ ls) after where
  lines := by rw [h.lines, List.append_assoc]
  rest := rfl
  size := h.size
  keywords := h.keywords

/-- The parser does not rest on an empty line. -/
lemma At.pass {D ls : List Text} {s : State} (h : At D s before ([] :: ls)) :
    At D s (before ++ [[]]) ls where
  lines := by rw [h.lines, List.append_assoc]; rfl
  rest := by rw [h.rest, ahead_empty]
  size := h.size
  keywords := h.keywords

@[simp] lemma run_pass (o : Option Fence) (before : List Text) :
    Fence.run o (before ++ [[]]) = Fence.run o before := by
  rw [Fence.run_append]
  cases Fence.run o before with
  | none => rfl
  | some f => cases f <;> rfl

/-- The numbered lines after `before`, if the first of them are lines without a return. -/
lemma linesFrom_below {ls : List Text} (hb : ∀ x ∈ before, '\n' ∉ x)
    (hls : ∀ l ∈ ls, '\n' ∉ l ∧ dropReturn l = l) (ha : ∀ x ∈ after, '\n' ∉ x) :
    (Source.ofText (unlines (before ++ (ls ++ after)))).linesFrom (before.length + 1)
      = Source.countFrom (before.length + 1) (ls ++ after.map dropReturn) := by
  have hdrop : ls.map dropReturn = ls := map_dropReturn fun l hl => (hls l hl).2
  have hnl : ∀ l ∈ ls ++ after, '\n' ∉ l := by
    intro l hl
    rcases List.mem_append.mp hl with hl | hl
    · exact (hls l hl).1
    · exact ha l hl
  rw [unlines_append, Source.linesFrom_unlines_append hb, ← hdrop, ← List.map_append, hdrop]
  congr 1
  exact Source.lines_ofText_unlines hnl

/-! ### Lines that a word leads -/

lemma isRow_of_isLead (h : isLead l = true) : Mask.isRow l = false := by
  obtain ⟨c, t, rfl, hb, -, hp, -, -⟩ := exists_of_isLead h
  rw [Mask.isRow, trimStart_cons_of_not_blank _ hb]
  simpa using hp

lemma starts_of_isLead (h : isLead l = true) (f : Fence) : f.starts l = false := by
  obtain ⟨c, t, rfl, hb, -, -, hq, hg⟩ := exists_of_isLead h
  refine Fence.not_starts_of_head (fun d hd => ?_) f
  rw [trimStart_cons_of_not_blank _ hb] at hd
  obtain rfl : c = d := by simpa using hd
  exact ⟨hq, hg⟩

lemma solid_of_isLead (h : isLead l = true) (hn : '\n' ∉ l) (ht : trimEnd l = l) : Solid l := by
  obtain ⟨c, t, rfl, hb, hc, -, -, -⟩ := exists_of_isLead h
  exact solid_of_trim (by simp) hn (trim_eq_self (trimStart_cons_of_not_blank _ hb) ht) (by simpa)

/-- A line that a word leads is shown as it is. -/
lemma shown_of_isLead (before : List Text) (k : Nat) (h : isLead l = true) (hn : '\n' ∉ l)
    (ht : trimEnd l = l) : Shown before k l l :=
  shown_of_not_isRow before k (solid_of_isLead h hn ht) (isRow_of_isLead h)

/-- A line that a word leads leaves the fence as it is. -/
lemma run_of_isLead (o : Option Fence) (k : Nat) (h : isLead l = true) :
    Fence.run o [indentLine k l] = o := by
  rw [Fence.run_cons, Fence.after_indentLine, Fence.after_of_not_starts (starts_of_isLead h),
    Fence.run_nil]

/-! ### Items in a row -/

open Parse in
/-- Items whose lines follow each other are read one by one, if each of them can be read where it
stands and nothing more can be read behind the last. -/
lemma reads_all {α β : Type} (p : Parse α) (lines : β → List Text) (after : List Text)
    (Say : α → β → Prop) (Pre : List Text → State → List β → Prop)
    (hstop : ∀ before s, Pre before s [] → s.rest = ahead before after →
      AtWord s.rest ∧ ∃ r, p s = (none, s.on r))
    (hitem : ∀ before s b bs, Pre before s (b :: bs) →
      s.rest = ahead before (lines b ++ (bs.flatMap lines ++ after)) →
      AtWord s.rest ∧ ∃ a s', p s = (some a, s') ∧ Say a b ∧ Pre (before ++ lines b) s' bs ∧
        s'.rest = ahead (before ++ lines b) (bs.flatMap lines ++ after) ∧
        s'.rest.length < s.rest.length)
    (before : List Text) (s : State) (bs : List β) (hpre : Pre before s bs)
    (hrest : s.rest = ahead before (bs.flatMap lines ++ after)) :
    ∃ as s', Reads AtWord p s as s' ∧ List.Forall₂ Say as bs ∧
      Pre (before ++ bs.flatMap lines) s' [] ∧ s'.rest = ahead (before ++ bs.flatMap lines) after := by
  induction bs generalizing before s with
  | nil =>
    obtain ⟨hat, r, hr⟩ := hstop before s hpre (by simpa using hrest)
    exact ⟨[], s, .nil hat hr, .nil, by simpa using hpre, by simpa using hrest⟩
  | cons b bs ih =>
    rw [List.flatMap_cons, List.append_assoc] at hrest
    obtain ⟨hat, a, s', hrun, hsay, hpre', hrest', hlt⟩ := hitem before s b bs hpre hrest
    obtain ⟨as, s'', hreads, hall, hpre'', hrest''⟩ := ih _ _ hpre' hrest'
    rw [List.append_assoc, ← List.flatMap_cons] at hpre'' hrest''
    exact ⟨a :: as, s'', .cons hat hrun hlt hreads, .cons hsay hall, hpre'', hrest''⟩

end FeatureTree.RoundTrip
