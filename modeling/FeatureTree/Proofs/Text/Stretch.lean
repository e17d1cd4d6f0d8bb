import Mathlib.Order.Max
import FeatureTree.Proofs.Text.Lines

/-!
The lines of a text as its maximal stretches without newlines.

Such a stretch begins where the text or a line begins and reaches to a newline or to the end of the
text. The number of newlines before it says which one it is, and every byte of the text lies in
one of them or is the newline behind it.
-/

namespace FeatureTree.Text

/-! ### Whole lines next to a text without newlines -/

lemma Ended.eq_nil_of_append {b u : Text} (h : Ended (b ++ u)) (hu : '\n' ∉ u) : u = [] := by
  by_contra hne
  rcases h with h | h
  · exact hne (List.append_eq_nil_iff.mp h).2
  · rw [List.getLast?_append_of_ne_nil _ hne] at h
    exact hu (List.mem_of_getLast? h)

lemma StartsAtEnd.eq_nil_of_append {u a : Text} (h : StartsAtEnd (u ++ a)) (hu : '\n' ∉ u) :
    u = [] := by
  by_contra hne
  rcases h with h | h
  · exact hne (List.append_eq_nil_iff.mp h).1
  · rw [List.head?_append_of_ne_nil _ hne] at h
    exact hu (List.mem_of_mem_head? h)

/-- Whole lines at the start of whole lines are all of them if they have as many newlines. -/
lemma Ended.eq_of_same_count {b c : Text} (hc : Ended c) (h : b <+: c)
    (hcount : b.count '\n' = c.count '\n') : b = c := by
  obtain ⟨u, rfl⟩ := h
  rw [List.count_append] at hcount
  have hu : '\n' ∉ u := List.count_eq_zero.mp (by omega)
  rw [hc.eq_nil_of_append hu, List.append_nil]

/-- The first line of a text is found in one way only. -/
lemma StartsAtEnd.append_inj {l m a b : Text} (ha : StartsAtEnd a) (hb : StartsAtEnd b)
    (hl : '\n' ∉ l) (hm : '\n' ∉ m) (h : l ++ a = m ++ b) : l = m ∧ a = b := by
  rcases List.append_eq_append_iff.mp h with ⟨u, rfl, rfl⟩ | ⟨u, rfl, rfl⟩
  · simp [ha.eq_nil_of_append fun hu => hm (by simp [hu])]
  · simp [hb.eq_nil_of_append fun hu => hl (by simp [hu])]

/-- A text is empty, a line without a newline, or a line in front of another text. -/
@[elab_as_elim]
lemma line_induction {P : Text → Prop} (nil : P []) (last : ∀ l, l ≠ [] → '\n' ∉ l → P l)
    (line : ∀ l t, '\n' ∉ l → P t → P (l ++ '\n' :: t)) (t : Text) : P t := by
  obtain ⟨ls, l, rfl, hls, hl⟩ := exists_unlines_append t
  induction ls with
  | nil =>
    by_cases hne : l = []
    · rwa [hne]
    · exact last l hne hl
  | cons m ls ih =>
    rw [unlines_cons, List.append_assoc, List.cons_append]
    exact line m _ (hls m (by simp)) (ih fun k hk => hls k (by simp [hk]))

/-! ### Stretches -/

/-- A stretch of a text without newlines, between what stands before it and what stands after
it. -/
@[ext]
structure Stretch (t : Text) where
  before : Text
  line : Text
  after : Text
  parts : before ++ line ++ after = t
  newline : '\n' ∉ line

namespace Stretch

variable {t : Text} {r s : Stretch t} {o : Nat}

/-- A stretch is below those that begin no later and reach no less far. -/
instance : LE (Stretch t) where
  le r s := s.before <+: r.before ∧ s.after <:+ r.after

/-- The byte at the offset `o` belongs to the stretch. -/
def Holds (s : Stretch t) (o : Nat) : Prop :=
  byteLength s.before ≤ o ∧ o < byteLength s.before + byteLength s.line

/-- The stretch is followed by a newline, which is the byte at the offset `o`. -/
def EndsAt (s : Stretch t) (o : Nat) : Prop :=
  o = byteLength s.before + byteLength s.line ∧ s.after.head? = some '\n'

/-- The offset `o` is on the stretch or on the newline that ends it. -/
def At (s : Stretch t) (o : Nat) : Prop := s.Holds o ∨ s.EndsAt o

/-- A line of the text: a stretch that cannot be made longer and has a newline behind it, or is
the rest of the text behind the last newline. Nothing at all is no such rest. -/
structure IsLine (s : Stretch t) : Prop where
  isMax : IsMax s
  ended : s.after.head? = some '\n' ∨ s.after = [] ∧ s.line ≠ []

/-- A character before a maximal stretch is a newline, or the stretch could begin there. -/
lemma ended_before (h : IsMax s) : Ended s.before := by
  rcases List.eq_nil_or_concat s.before with hb | ⟨b, c, hb⟩
  · exact .inl hb
  · rw [List.concat_eq_append] at hb
    by_cases hc : c = '\n'
    · exact .inr (by rw [hb, hc, List.getLast?_concat])
    · let r : Stretch t :=
        ⟨b, c :: s.line, s.after, by simp [← s.parts, hb], by simp [Ne.symm hc, s.newline]⟩
      have hle : r ≤ s := h ⟨⟨[c], hb.symm⟩, List.suffix_refl _⟩
      have hlen : s.before.length ≤ b.length := hle.1.length_le
      rw [hb, List.length_append, List.length_singleton] at hlen
      omega

/-- A character after a maximal stretch is a newline, or the stretch could reach up to it. -/
lemma startsAtEnd_after (h : IsMax s) : StartsAtEnd s.after := by
  rcases ha : s.after with _ | ⟨c, a⟩
  · exact .inl rfl
  · by_cases hc : c = '\n'
    · exact .inr (by rw [hc]; rfl)
    · let r : Stretch t :=
        ⟨s.before, s.line ++ [c], a, by simp [← s.parts, ha], by simp [Ne.symm hc, s.newline]⟩
      have hle : r ≤ s := h ⟨List.prefix_refl _, ⟨[c], ha.symm⟩⟩
      have hlen : s.after.length ≤ a.length := hle.2.length_le
      rw [ha, List.length_cons] at hlen
      omega

/-- A larger stretch has what stands before and after a smaller one in part. -/
lemma exists_of_le (h : s ≤ r) :
    ∃ u v, s.before = r.before ++ u ∧ r.line = u ++ s.line ++ v ∧ s.after = v ++ r.after := by
  obtain ⟨⟨u, hu⟩, ⟨v, hv⟩⟩ := h
  have hparts : r.before ++ (r.line ++ r.after) = r.before ++ (u ++ s.line ++ v ++ r.after) := by
    have := r.parts.trans s.parts.symm
    rw [← hu, ← hv] at this
    simpa using this
  exact ⟨u, v, hu.symm, List.append_cancel_right (List.append_cancel_left hparts), hv.symm⟩

/-- The maximal stretches stand between two ends of lines. -/
lemma isMax_iff : IsMax s ↔ Ended s.before ∧ StartsAtEnd s.after := by
  constructor
  · intro h
    exact ⟨ended_before h, startsAtEnd_after h⟩
  · rintro ⟨hb, ha⟩ r hle
    -- what a larger stretch has more would end or start with a newline
    obtain ⟨u, v, hu, hline, hv⟩ := exists_of_le hle
    have hfree := r.newline
    rw [hline] at hfree
    rw [hu] at hb
    rw [hv] at ha
    obtain rfl := hb.eq_nil_of_append fun hn => hfree (by simp [hn])
    obtain rfl := ha.eq_nil_of_append fun hn => hfree (by simp [hn])
    exact ⟨⟨[], by simpa using hu⟩, ⟨[], by simpa using hv⟩⟩

/-- The newlines before a maximal stretch tell it from all others. -/
lemma eq_of_count_eq (hr : IsMax r) (hs : IsMax s)
    (h : r.before.count '\n' = s.before.count '\n') : r = s := by
  have hrt : r.before ++ (r.line ++ r.after) = t := by rw [← List.append_assoc, r.parts]
  have hst : s.before ++ (s.line ++ s.after) = t := by rw [← List.append_assoc, s.parts]
  have hbefore : r.before = s.before := by
    rcases List.prefix_or_prefix_of_prefix ⟨_, hrt⟩ ⟨_, hst⟩ with hpre | hpre
    · exact (ended_before hs).eq_of_same_count hpre h
    · exact ((ended_before hr).eq_of_same_count hpre h.symm).symm
  have hrest : r.line ++ r.after = s.line ++ s.after :=
    List.append_cancel_left (hbefore ▸ hrt.trans hst.symm)
  obtain ⟨hline, hafter⟩ :=
    (startsAtEnd_after hr).append_inj (startsAtEnd_after hs) r.newline s.newline hrest
  exact Stretch.ext hbefore hline hafter

/-- A maximal stretch with an offset on it is a line. -/
lemma isLine_of_at (hmax : IsMax s) (h : s.At o) : s.IsLine := by
  refine ⟨hmax, ?_⟩
  rcases h with ⟨hle, hlt⟩ | ⟨-, hend⟩
  · rcases startsAtEnd_after hmax with ha | ha
    · refine .inr ⟨ha, fun hl => ?_⟩
      rw [hl, byteLength] at hlt
      omega
    · exact .inl ha
  · exact .inl hend

/-! ### Stretches behind a line -/

/-- The first line of a text. -/
def first (l t : Text) (hl : '\n' ∉ l) : Stretch (l ++ '\n' :: t) := ⟨[], l, '\n' :: t, rfl, hl⟩

/-- A text without newlines as a stretch of itself. -/
def whole (l : Text) (hl : '\n' ∉ l) : Stretch l := ⟨[], l, [], by simp, hl⟩

/-- A stretch of a text, found again behind another line. -/
def behind (l : Text) (s : Stretch t) : Stretch (l ++ '\n' :: t) :=
  ⟨l ++ '\n' :: s.before, s.line, s.after, by simp [← s.parts], s.newline⟩

lemma isMax_first {l : Text} (hl : '\n' ∉ l) (t : Text) : IsMax (first l t hl) :=
  isMax_iff.mpr ⟨.inl rfl, .inr rfl⟩

lemma isMax_whole {l : Text} (hl : '\n' ∉ l) : IsMax (whole l hl) :=
  isMax_iff.mpr ⟨.inl rfl, .inl rfl⟩

lemma ended_line_append {l b : Text} : Ended (l ++ '\n' :: b) ↔ Ended b := by
  rcases hb : b.getLast? with _ | c
  · simp [Ended, List.getLast?_eq_none_iff.mp hb]
  · have hne : b ≠ [] := by
      rintro rfl
      simp at hb
    simp [Ended, List.getLast?_append, List.getLast?_cons, hb, hne]

lemma isMax_behind (l : Text) : IsMax (behind l s) ↔ IsMax s := by
  rw [isMax_iff, isMax_iff, behind, ended_line_append]

lemma isLine_behind (l : Text) : (behind l s).IsLine ↔ s.IsLine := by
  constructor
  · intro h
    exact ⟨(isMax_behind l).mp h.isMax, h.ended⟩
  · intro h
    exact ⟨(isMax_behind l).mpr h.isMax, h.ended⟩

lemma at_behind (l : Text) (h : s.At o) : (behind l s).At (byteLength l + 1 + o) := by
  have hbefore : byteLength (behind l s).before = byteLength l + 1 + byteLength s.before := by
    rw [behind, byteLength_append, byteLength, Nat.add_assoc]
    rfl
  have hline : (behind l s).line = s.line := rfl
  rcases h with ⟨hle, hlt⟩ | ⟨ho, hend⟩
  · exact .inl ⟨by omega, by rw [hbefore, hline]; omega⟩
  · exact .inr ⟨by rw [hbefore, hline]; omega, hend⟩

/-- Every offset inside a text is on a maximal stretch. -/
lemma exists_at (h : o < byteLength t) : ∃ s : Stretch t, IsMax s ∧ s.At o := by
  induction t using line_induction generalizing o with
  | nil => simp [byteLength] at h
  | last l hne hl =>
    exact ⟨whole l hl, isMax_whole hl, .inl ⟨Nat.zero_le o, by simpa [whole, byteLength] using h⟩⟩
  | line l t hl ih =>
    rw [byteLength_append, byteLength] at h
    have hsize : '\n'.utf8Size = 1 := rfl
    rcases Nat.lt_trichotomy o (byteLength l) with ho | rfl | ho
    · exact ⟨first l t hl, isMax_first hl t, .inl ⟨Nat.zero_le o, by simpa [first, byteLength]⟩⟩
    · exact ⟨first l t hl, isMax_first hl t, .inr ⟨by simp [first, byteLength], rfl⟩⟩
    · obtain ⟨k, rfl⟩ := Nat.exists_eq_add_of_le ho
      obtain ⟨s, hs, hat⟩ := ih (o := k) (by omega)
      exact ⟨behind l s, (isMax_behind l).mpr hs, at_behind l hat⟩

/-! ### All lines of a text -/

/-- A line with the newline behind it, if it has one. -/
def piece (s : Stretch t) : Text := s.line ++ s.after.take 1

/-- A line of a line in front of a text is this line or a line of the text. -/
lemma eq_first_or_behind {l : Text} (hl : '\n' ∉ l) {r : Stretch (l ++ '\n' :: t)} (hr : r.IsLine) :
    r = first l t hl ∨ ∃ s : Stretch t, s.IsLine ∧ r = behind l s := by
  obtain ⟨ms, hms, hfree⟩ := (ended_before hr.isMax).exists_unlines
  rcases ms with _ | ⟨m, ms⟩
  · exact .inl (eq_of_count_eq hr.isMax (isMax_first hl t) (by rw [hms]; rfl))
  · have hparts := r.parts
    rw [hms, unlines_cons, List.append_assoc, List.append_assoc, List.cons_append] at hparts
    obtain ⟨rfl, htail⟩ := StartsAtEnd.append_inj (.inr rfl) (.inr rfl) (hfree m (by simp)) hl hparts
    let s : Stretch t := ⟨unlines ms, r.line, r.after, by simpa using htail, r.newline⟩
    have hrs : r = behind m s := Stretch.ext (by rw [hms, unlines_cons]; rfl) rfl rfl
    exact .inr ⟨s, (isLine_behind m).mp (hrs ▸ hr), hrs⟩

/-- **The pieces of a text are its lines**, each once and from the top down. -/
lemma exists_pieces_eq_map (t : Text) :
    ∃ ss : List (Stretch t), (∀ s, s ∈ ss ↔ s.IsLine) ∧
      (ss.Pairwise fun r s => r.before.length < s.before.length) ∧ pieces t = ss.map piece := by
  induction t using line_induction with
  | nil =>
    refine ⟨[], fun s => ⟨by simp, fun hs => ?_⟩, .nil, rfl⟩
    obtain ⟨hbl, ha⟩ := List.append_eq_nil_iff.mp s.parts
    have hend := hs.ended
    simp [ha, (List.append_eq_nil_iff.mp hbl).2] at hend
  | last l hne hl =>
    refine ⟨[whole l hl], fun s => ?_, List.pairwise_singleton _ _, ?_⟩
    · rw [List.mem_singleton]
      constructor
      · rintro rfl
        exact ⟨isMax_whole hl, .inr ⟨rfl, hne⟩⟩
      · intro hs
        have hfree : '\n' ∉ s.before := fun hn => hl (by simp [← s.parts, hn])
        exact eq_of_count_eq hs.isMax (isMax_whole hl) (count_newline_of_not_mem hfree)
    · simp [pieces_of_not_mem hne hl, piece, whole]
  | line l t hl ih =>
    obtain ⟨ss, hmem, hsorted, hpieces⟩ := ih
    refine ⟨first l t hl :: ss.map (behind l), fun r => ?_, ?_, ?_⟩
    · rw [List.mem_cons, List.mem_map]
      constructor
      · rintro (rfl | ⟨s, hs, rfl⟩)
        · exact ⟨isMax_first hl t, .inl rfl⟩
        · exact (isLine_behind l).mpr ((hmem s).mp hs)
      · intro hr
        rcases eq_first_or_behind hl hr with h | ⟨s, hs, rfl⟩
        · exact .inl h
        · exact .inr ⟨s, (hmem s).mpr hs, rfl⟩
    · rw [List.pairwise_cons, List.pairwise_map]
      refine ⟨fun r hr => ?_, hsorted.imp fun h => ?_⟩
      · obtain ⟨s, -, rfl⟩ := List.mem_map.mp hr
        exact List.length_pos_iff.mpr (by simp [behind])
      · simpa [behind] using h
    · rw [pieces_line hl, hpieces, List.map_cons, List.map_map]
      rfl

end Stretch

end FeatureTree.Text
