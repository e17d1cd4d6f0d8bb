import FeatureTree.Proofs.Document.WellRead
import FeatureTree.Proofs.Markup.Masking
import FeatureTree.Proofs.Table.ReadBack

/-!
Two ways to read the cells of a row.

A row can be split with its escapes resolved on the way, or it can be masked, cut at every pipe and
have the masks in each cell resolved. Both find the same cells, and the same values in them except
where a cell writes a newline: no mask hides that escape, so that the second reading keeps it.
-/

namespace FeatureTree

open Text

namespace Cells

/-- The trimmed cells of a row, as they are found by cutting at every pipe. What stands before the
first pipe or after the last one is no cell. -/
def cut (row : Text) : List Text := (cutAt '|' row).tail.dropLast.map trim

/-- A masked cell with all its escapes resolved. -/
def decode : Text → Text
  | '\x01' :: '\x01' :: t => '|' :: decode t
  | '\x02' :: '\x02' :: t => '\\' :: decode t
  | '\\' :: 'n' :: t => '\n' :: decode t
  | c :: t => c :: decode t
  | [] => []

/-- Whether a masked cell writes a newline. -/
def WritesNewline (c : Text) : Prop := ['\\', 'n'] <:+: c

instance (c : Text) : Decidable (WritesNewline c) := inferInstanceAs (Decidable (_ <:+: _))

/-! ### Cutting -/

lemma cut_pipe (y : Text) : cut ('|' :: y) = (cutAt '|' y).dropLast.map trim := by
  rw [cut, cutAt_self, List.tail_cons]

lemma cut_pipe_of_not_mem {y : Text} (h : '|' ∉ y) : cut ('|' :: y) = [] := by
  rw [cut_pipe, cutAt_of_not_mem h]
  rfl

lemma cut_pipe_append {a : Text} (h : '|' ∉ a) (b : Text) :
    cut ('|' :: (a ++ '|' :: b)) = trim a :: cut ('|' :: b) := by
  rw [cut_pipe, cut_pipe, cutAt_append_self h, List.dropLast_cons_of_ne_nil (cutAt_ne_nil _ _),
    List.map_cons]

/-- What comes before the first pipe does not count. -/
lemma cut_append_left {s : Text} (hs : '|' ∉ s) (t : Text) : cut (s ++ t) = cut t := by
  rw [cut, cut, cutAt_append hs, List.tail_modifyHead]

/-- What comes after the last pipe does not count. -/
lemma cut_append_right {u : Text} (hu : '|' ∉ u) (t : Text) : cut (t ++ u) = cut t := by
  obtain ⟨ps, p, h, h'⟩ := exists_cutAt_append hu t
  rw [cut, cut, h, h']
  rcases ps with _ | ⟨q, ps⟩
  · rfl
  · simp

lemma trim_of_mem_cut {row c : Text} (h : c ∈ cut row) : trim c = c := by
  obtain ⟨p, -, rfl⟩ := List.mem_map.mp h
  exact trim_trim p

/-! ### Resolving -/

lemma decode_cons_of_ne {c : Char} (t : Text) (h₁ : c ≠ '\x01') (h₂ : c ≠ '\x02') (h₃ : c ≠ '\\') :
    decode (c :: t) = c :: decode t := by
  rw [decode]
  · exact fun _ h _ => h₁ h
  · exact fun _ h _ => h₂ h
  · exact fun _ h _ => h₃ h

lemma decode_backslash {t : Text} (h : t.head? ≠ some 'n') :
    decode ('\\' :: t) = '\\' :: decode t := by
  rw [decode]
  · simp
  · simp
  · rintro t' - rfl
    simp at h

lemma decode_blanks_append {s : Text} (hs : ∀ c ∈ s, isBlank c = true) (t : Text) :
    decode (s ++ t) = s ++ decode t := by
  induction s with
  | nil => rfl
  | cons c s ih =>
    have hc : isBlank c = true := hs c (by simp)
    rw [List.cons_append, decode_cons_of_ne, ih fun d hd => hs d (by simp [hd]), List.cons_append]
    all_goals rintro rfl; exact absurd hc (by decide)

/-- No escape ends in a blank. -/
lemma decode_append_blanks (t : Text) {u : Text} (hu : ∀ c ∈ u, isBlank c = true) :
    decode (t ++ u) = decode t ++ u := by
  fun_induction decode t with
  | case1 t ih => rw [List.cons_append, List.cons_append, decode, ih, List.cons_append]
  | case2 t ih => rw [List.cons_append, List.cons_append, decode, ih, List.cons_append]
  | case3 t ih => rw [List.cons_append, List.cons_append, decode, ih, List.cons_append]
  | case4 c t h₁ h₂ h₃ ih =>
    have hnone : ∀ {a d : Char}, isBlank d = false → (∀ v, c = a → t = d :: v → False) →
        ∀ v, c = a → t ++ u = d :: v → False := by
      intro a d hd h v hc hv
      rcases t with _ | ⟨e, t⟩
      · exact absurd (hu d (by simp_all)) (by simp [hd])
      · exact h t hc (by rw [(List.cons.inj hv).1])
    rw [List.cons_append, decode, ih, List.cons_append]
    · exact hnone (by decide) h₁
    · exact hnone (by decide) h₂
    · exact hnone (by decide) h₃
  | case5 =>
    have := decode_blanks_append hu []
    simpa [decode] using this

/-- Trimming first makes no difference to the trimmed value. -/
lemma trim_decode_trim (t : Text) : trim (decode (trim t)) = trim (decode t) := by
  obtain ⟨s, u, ht, hs, hu⟩ := exists_blanks_trim t
  conv_rhs => rw [ht, decode_append_blanks _ hu, decode_blanks_append hs, trim_between_blanks _ hs hu]

lemma writesNewline_cons_iff {c : Char} {t : Text} (h : ∀ v, c = '\\' → t = 'n' :: v → False) :
    WritesNewline (c :: t) ↔ WritesNewline t := by
  rw [WritesNewline, List.infix_cons_iff, ← WritesNewline, or_iff_right]
  rintro ⟨v, hv⟩
  obtain ⟨hc, ht⟩ := List.cons.inj hv
  exact h v hc.symm ht.symm

/-- A newline that a cell writes is the one thing that the masks do not show, and its escape is
longer than it. -/
lemma decode_resolve (t : Text) :
    (decode t).length ≤ (resolve t).length
      ∧ (WritesNewline t → (decode t).length < (resolve t).length)
      ∧ (¬ WritesNewline t → decode t = resolve t) := by
  fun_induction decode t with
  | case1 t ih =>
    rw [writesNewline_cons_iff (by simp), writesNewline_cons_iff (by simp), resolve]
    simpa using ih
  | case2 t ih =>
    rw [writesNewline_cons_iff (by simp), writesNewline_cons_iff (by simp), resolve]
    simpa using ih
  | case3 t ih =>
    have hwrites : WritesNewline ('\\' :: 'n' :: t) := ⟨[], t, rfl⟩
    have hresolve : resolve ('\\' :: 'n' :: t) = '\\' :: 'n' :: resolve t := by simp [resolve]
    rw [hresolve]
    simp only [List.length_cons]
    exact ⟨by omega, fun _ => by omega, fun h => absurd hwrites h⟩
  | case4 c t h₁ h₂ h₃ ih =>
    have hresolve : resolve (c :: t) = c :: resolve t := by
      rw [resolve]
      · exact fun v hc ht => h₁ v hc ht
      · exact fun v hc ht => h₂ v hc ht
    rw [writesNewline_cons_iff h₃, hresolve]
    simpa using ih
  | case5 => simp [resolve, WritesNewline]

/-- The values of a trimmed cell in the two readings agree, unless the cell writes a newline. -/
lemma resolve_eq_iff {c : Text} (h : trim c = c) :
    resolve c = trim (decode c) ↔ ¬ WritesNewline c := by
  obtain ⟨-, hlt, heq⟩ := decode_resolve c
  constructor
  · intro hval hw
    have hle := length_trim_le (decode c)
    have := hlt hw
    rw [← hval] at hle
    omega
  · intro hw
    rw [heq hw, Locate.trim_resolve h]

/-! ### Splitting a line is cutting its mask -/

/-- The values of a masked row after its first pipe, `cur` being what the cell in progress has
before it. -/
def valuesFrom (cur row : Text) : List Text :=
  (((cutAt '|' row).map decode).modifyHead (cur ++ ·)).dropLast.map trim

lemma valuesFrom_pipe (cur t : Text) : valuesFrom cur ('|' :: t) = trim cur :: valuesFrom [] t := by
  obtain ⟨p, ps, hp⟩ := List.exists_cons_of_ne_nil (cutAt_ne_nil '|' t)
  simp [valuesFrom, cutAt_self, hp, decode]

lemma valuesFrom_nil (t : Text) :
    valuesFrom [] t = (cutAt '|' t).dropLast.map fun p => trim (decode p) := by
  have hhead : ((cutAt '|' t).map decode).modifyHead ([] ++ ·) = (cutAt '|' t).map decode := by
    cases cutAt '|' t <;> rfl
  rw [valuesFrom, hhead, ← List.map_dropLast, List.map_map]
  rfl

/-- A text that stands for another one, whatever comes after it, goes into the cell in progress. -/
lemma valuesFrom_append {w x : Text} (hw : '|' ∉ w) (hx : ∀ p, decode (w ++ p) = x ++ decode p)
    (cur t : Text) : valuesFrom cur (w ++ t) = valuesFrom (cur ++ x) t := by
  obtain ⟨p, ps, hp⟩ := List.exists_cons_of_ne_nil (cutAt_ne_nil '|' t)
  simp [valuesFrom, cutAt_append hw, hp, hx]

lemma splitFrom_eq_valuesFrom {t : Text} (h₁ : '\x01' ∉ t) (h₂ : '\x02' ∉ t) (cur : Text) :
    splitFrom cur t = valuesFrom cur (mask t) := by
  induction t using escape_induction generalizing cur with
  | nil => simp [valuesFrom, mask, cutAt]
  | lone => simp [valuesFrom, mask, splitFrom, cutAt]
  | pair c t ih =>
    simp only [List.mem_cons, not_or] at h₁ h₂
    have ih := fun cur => ih h₁.2.2 h₂.2.2 cur
    by_cases hp : c = '|'
    · subst hp
      rw [splitFrom, mask, ih]
      exact (valuesFrom_append (w := ['\x01', '\x01']) (by simp) (fun p => by simp [decode]) _ _).symm
    by_cases hb : c = '\\'
    · subst hb
      rw [splitFrom, mask, ih]
      exact (valuesFrom_append (w := ['\x02', '\x02']) (by simp) (fun p => by simp [decode]) _ _).symm
    rw [mask_pair_of_ne _ hp hb]
    by_cases hn : c = 'n'
    · subst hn
      rw [splitFrom, ih]
      exact (valuesFrom_append (w := ['\\', 'n']) (by simp) (fun p => by simp [decode]) _ _).symm
    · rw [splitFrom, ih]
      · refine (valuesFrom_append (w := ['\\', c]) (by simpa using Ne.symm hp) (fun p => ?_) _ _).symm
        rw [List.cons_append, List.cons_append, List.nil_append, decode_backslash (by simpa using hn),
          decode_cons_of_ne _ (Ne.symm h₁.2.1) (Ne.symm h₂.2.1) hb]
        rfl
      all_goals assumption
  | plain c t hc ih =>
    simp only [List.mem_cons, not_or] at h₁ h₂
    have ih := fun cur => ih h₁.2 h₂.2 cur
    rw [mask_cons_of_ne _ hc]
    by_cases hp : c = '|'
    · subst hp
      rw [splitFrom_pipe, ih, valuesFrom_pipe]
    · rw [splitFrom_cons hc hp, ih]
      refine (valuesFrom_append (w := [c]) (by simpa using Ne.symm hp) (fun p => ?_) _ _).symm
      exact decode_cons_of_ne _ (Ne.symm h₁.1) (Ne.symm h₂.1) hc

/-- The cells of a line are those of its mask, with all escapes resolved. -/
lemma split?_eq {l : Text} (h : Mask.isRow l = true) (h₁ : '\x01' ∉ l) (h₂ : '\x02' ∉ l) :
    split? l = some ((cut (Mask.piece none l)).map fun c => trim (decode c)) := by
  obtain ⟨s, u, hl, hs, hu⟩ := exists_blanks_trim l
  obtain ⟨v, hv⟩ := exists_trim_of_isRow h
  have hpipe : ∀ {w : Text}, (∀ c ∈ w, isBlank c = true) → '|' ∉ w :=
    fun hw hm => (ne_of_isBlank (hw _ hm)).1 rfl
  have hmem : ∀ {c : Char}, c ∉ l → c ∉ v := by
    intro c hc hm
    exact hc (mem_of_mem_trim (by rw [hv]; exact List.mem_cons_of_mem _ hm))
  have hmask : Mask.piece none l = s ++ '|' :: mask v ++ u := by
    rw [Mask.piece, if_pos (by simpa using h)]
    conv_lhs => rw [hl, mask_between_blanks _ hs hu, hv, mask_cons_of_ne _ (by simp)]
  have hcut : cut (Mask.piece none l) = (cutAt '|' (mask v)).dropLast.map trim := by
    rw [hmask, cut_append_right (hpipe hu), cut_append_left (hpipe hs), cut_pipe]
  rw [split?, hv]
  simp only [splitFrom_eq_valuesFrom (hmem h₁) (hmem h₂), valuesFrom_nil, hcut, List.map_map,
    Function.comp_def, trim_decode_trim]

/-- In which cells of a row the two readings agree. -/
lemma forall₂_cut_split {l : Text} (h : Mask.isRow l = true) (h₁ : '\x01' ∉ l) (h₂ : '\x02' ∉ l) :
    ∃ values, split? l = some values
      ∧ List.Forall₂ (fun c v => resolve c = v ↔ ¬ WritesNewline c) (cut (Mask.piece none l)) values := by
  refine ⟨_, split?_eq h h₁ h₂, ?_⟩
  rw [List.forall₂_map_right_iff, List.forall₂_same]
  exact fun c hc => resolve_eq_iff (trim_of_mem_cut hc)

end Cells

end FeatureTree
