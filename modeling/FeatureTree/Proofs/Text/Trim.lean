import Mathlib.Data.List.DropRight
import Mathlib.Data.List.TakeWhile
import Mathlib.Tactic.Common
import FeatureTree.Text.Layout

/-!
Trimming and indentation.

Blanks around a text do not change what trimming leaves of it, and a line that was moved right by
some levels has just those blanks more.
-/

namespace FeatureTree.Text

@[simp] lemma isBlank_space : isBlank ' ' = true := by decide
@[simp] lemma isBlank_newline : isBlank '\n' = true := by decide
@[simp] lemma isBlank_return : isBlank '\r' = true := by decide
@[simp] lemma isBlank_tab : isBlank '\t' = true := by decide
@[simp] lemma isBlank_pipe : isBlank '|' = false := by decide
@[simp] lemma isBlank_quote : isBlank '"' = false := by decide
@[simp] lemma isBlank_backslash : isBlank '\\' = false := by decide

@[simp] lemma trimStart_nil : trimStart [] = [] := rfl

lemma trimStart_cons_blank {c : Char} (t : Text) (h : isBlank c = true) :
    trimStart (c :: t) = trimStart t := by
  simp [trimStart, h]

@[simp] lemma trimStart_cons_of_not_blank {c : Char} (t : Text) (h : isBlank c = false) :
    trimStart (c :: t) = c :: t := by
  simp [trimStart, h]

/-- Blanks before a text are no part of what is left of it. -/
lemma trimStart_blanks_append {s : Text} (t : Text) (h : ∀ c ∈ s, isBlank c = true) :
    trimStart (s ++ t) = trimStart t :=
  List.dropWhile_append_of_pos h

lemma trimStart_eq_nil_iff {t : Text} : trimStart t = [] ↔ ∀ c ∈ t, isBlank c = true := by
  simp [trimStart]

lemma trimStart_append (t u : Text) :
    trimStart (t ++ u) = if (trimStart t).isEmpty then trimStart u else trimStart t ++ u :=
  List.dropWhile_append

@[simp] lemma trimEnd_nil : trimEnd [] = [] := rfl

lemma trimEnd_eq_nil_iff {t : Text} : trimEnd t = [] ↔ isBlankText t = true := by
  simp [trimEnd, isBlankText]

/-- Blanks after a text are no part of what is left of it. -/
lemma trimEnd_append_blanks (t : Text) {u : Text} (h : ∀ c ∈ u, isBlank c = true) :
    trimEnd (t ++ u) = trimEnd t := by
  unfold trimEnd
  rw [List.reverse_append, List.dropWhile_append_of_pos (by simpa using h)]

/-- Blanks on both sides of a text do not change the trimmed text. -/
lemma trim_between_blanks {s u : Text} (t : Text) (hs : ∀ c ∈ s, isBlank c = true)
    (hu : ∀ c ∈ u, isBlank c = true) : trim (s ++ t ++ u) = trim t := by
  unfold trim
  rw [List.append_assoc, trimStart_blanks_append _ hs, trimStart_append]
  split
  · rename_i h
    have ht : trimStart t = [] := by simpa using h
    rw [ht, trimStart_eq_nil_iff.mpr hu]
  · exact trimEnd_append_blanks _ hu

lemma trim_append_blank (t : Text) {c : Char} (h : isBlank c = true) : trim (t ++ [c]) = trim t := by
  simpa using trim_between_blanks (s := []) (u := [c]) t (by simp) (by simpa using h)

/-- A text whose first character is no blank has nothing to trim at its start. -/
lemma trimStart_eq_self_iff {t : Text} :
    trimStart t = t ↔ ∀ c, t.head? = some c → isBlank c = false := by
  cases t with
  | nil => simp
  | cons c t => simp [trimStart]

/-- A text whose last character is no blank has nothing to trim at its end. -/
lemma trimEnd_eq_self_iff {t : Text} :
    trimEnd t = t ↔ ∀ c, t.getLast? = some c → isBlank c = false := by
  have h := trimStart_eq_self_iff (t := t.reverse)
  rw [List.head?_reverse] at h
  rw [← h, trimEnd, ← trimStart]
  exact List.reverse_eq_iff

lemma trimEnd_append_of_not_blank (t : Text) {c : Char} (h : isBlank c = false) :
    trimEnd (t ++ [c]) = t ++ [c] :=
  trimEnd_eq_self_iff.mpr (by simpa using h)

/-- A text that ends in content ends so whatever stands before it. -/
lemma trimEnd_append_eq_self (t : Text) {u : Text} (hne : u ≠ []) (h : trimEnd u = u) :
    trimEnd (t ++ u) = t ++ u := by
  obtain ⟨c, hc⟩ := Option.ne_none_iff_exists'.mp (mt List.getLast?_eq_none_iff.mp hne)
  refine trimEnd_eq_self_iff.mpr fun d hd => trimEnd_eq_self_iff.mp h d ?_
  rw [List.getLast?_append, hc] at hd
  rw [hc]
  simpa using hd

lemma length_trimEnd_le (t : Text) : (trimEnd t).length ≤ t.length := by
  simpa [trimEnd] using List.length_dropWhile_le isBlank t.reverse

lemma trimStart_eq_self_of_trim {t : Text} (h : trim t = t) : trimStart t = t := by
  apply (List.dropWhile_suffix isBlank).eq_of_length_le
  have := length_trimEnd_le (trimStart t)
  rw [← trim, h] at this
  exact this

lemma trimEnd_eq_self_of_trim {t : Text} (h : trim t = t) : trimEnd t = t := by
  rwa [trim, trimStart_eq_self_of_trim h] at h

lemma trim_eq_self {t : Text} (hs : trimStart t = t) (he : trimEnd t = t) : trim t = t := by
  rw [trim, hs, he]

/-- What is dropped at the end does not uncover anything to drop at the start. -/
lemma dropWhile_reverse_dropWhile {α : Type} {p : α → Bool} {l : List α} (h : l.dropWhile p = l) :
    (l.reverse.dropWhile p).reverse.dropWhile p = (l.reverse.dropWhile p).reverse := by
  obtain ⟨r, hr⟩ : (l.reverse.dropWhile p).reverse <+: l := by
    have := List.dropWhile_suffix p (l := l.reverse)
    rwa [← List.reverse_prefix, List.reverse_reverse] at this
  rcases hb : (l.reverse.dropWhile p).reverse with _ | ⟨a, m⟩
  · rfl
  · rw [hb] at hr
    rw [← hr, List.cons_append, List.dropWhile_cons] at h
    by_cases ha : p a = true
    · have := congrArg List.length h
      have hle := List.length_dropWhile_le p (m ++ r)
      simp only [ha, if_true, List.length_cons] at this
      omega
    · simp [ha]

lemma trimEnd_trimEnd (t : Text) : trimEnd (trimEnd t) = trimEnd t := by
  rw [trimEnd, trimEnd, List.reverse_reverse, List.dropWhile_idempotent]

/-- A trimmed text has nothing more to trim. -/
@[simp] lemma trim_trim (t : Text) : trim (trim t) = trim t := by
  refine trim_eq_self (dropWhile_reverse_dropWhile ?_) (trimEnd_trimEnd _)
  rw [trimStart, List.dropWhile_idempotent]

lemma mem_of_mem_trimStart {c : Char} {t : Text} (h : c ∈ trimStart t) : c ∈ t :=
  (List.dropWhile_sublist _).mem h

lemma mem_of_mem_trimEnd {c : Char} {t : Text} (h : c ∈ trimEnd t) : c ∈ t := by
  rw [trimEnd, List.mem_reverse] at h
  exact List.mem_reverse.mp ((List.dropWhile_sublist _).mem h)

lemma mem_of_mem_trim {c : Char} {t : Text} (h : c ∈ trim t) : c ∈ t :=
  mem_of_mem_trimStart (mem_of_mem_trimEnd h)

lemma exists_blanks_trimEnd (t : Text) :
    ∃ u, t = trimEnd t ++ u ∧ ∀ c ∈ u, isBlank c = true := by
  refine ⟨(t.reverse.takeWhile isBlank).reverse, ?_,
    fun c hc => List.mem_takeWhile_imp (List.mem_reverse.mp hc)⟩
  rw [trimEnd, ← List.reverse_append, List.takeWhile_append_dropWhile, List.reverse_reverse]

/-- A text is its trimmed text between blanks. -/
lemma exists_blanks_trim (t : Text) :
    ∃ s u, t = s ++ trim t ++ u ∧ (∀ c ∈ s, isBlank c = true) ∧ ∀ c ∈ u, isBlank c = true := by
  obtain ⟨u, hend, hu⟩ := exists_blanks_trimEnd (trimStart t)
  refine ⟨t.takeWhile isBlank, u, ?_, fun c hc => List.mem_takeWhile_imp hc, hu⟩
  rw [List.append_assoc, trim, ← hend]
  exact List.takeWhile_append_dropWhile.symm

lemma length_trim_le (t : Text) : (trim t).length ≤ t.length := by
  obtain ⟨s, u, ht, -, -⟩ := exists_blanks_trim t
  have hlen := congrArg List.length ht
  simp only [List.length_append] at hlen
  omega

/-- Trimming the end of a text leaves its first character, if that is content. -/
lemma head?_trim (t : Text) : (trim t).head? = (trimStart t).head? := by
  rw [trim]
  rcases ht : trimStart t with _ | ⟨c, r⟩
  · rfl
  · have hself : trimStart (trimStart t) = trimStart t := List.dropWhile_idempotent _ _
    have hc : isBlank c = false := trimStart_eq_self_iff.mp hself c (by rw [ht]; rfl)
    rw [trimEnd, List.reverse_cons, List.dropWhile_append]
    split <;> simp [hc]

/-! ### Lines moved right -/

/-- The blanks in front of a line that was moved right by `k` levels. -/
def margin (k : Nat) : Text := List.replicate (2 * k) ' '

lemma levels_eq_margin (k : Nat) : (List.replicate k level).flatten = margin k := by
  induction k with
  | zero => rfl
  | succ k ih =>
    rw [List.replicate_succ, List.flatten_cons, ih]
    simp [margin, level, Nat.mul_succ, List.replicate_succ]

lemma indentLine_of_ne_nil (k : Nat) {l : Text} (h : l ≠ []) :
    indentLine k l = margin k ++ l := by
  cases l with
  | nil => exact absurd rfl h
  | cons c t => rw [indentLine, levels_eq_margin]; simp

@[simp] lemma indentLine_nil (k : Nat) : indentLine k [] = [] := rfl

@[simp] lemma indentLine_zero (l : Text) : indentLine 0 l = l := by
  cases l with
  | nil => rfl
  | cons c t => exact indentLine_of_ne_nil 0 (by simp)

@[simp] lemma indent_zero (ls : List Text) : indent 0 ls = ls := by
  rw [indent, funext indentLine_zero, List.map_id']

lemma indentLine_indentLine (j k : Nat) (l : Text) :
    indentLine j (indentLine k l) = indentLine (j + k) l := by
  by_cases h : l = []
  · simp [h]
  · have hm : margin k ++ l ≠ [] := by simp [h]
    rw [indentLine_of_ne_nil k h, indentLine_of_ne_nil j hm, indentLine_of_ne_nil (j + k) h,
      ← List.append_assoc]
    congr 1
    rw [margin, margin, margin, List.replicate_append_replicate, Nat.mul_add]

lemma indent_indent (j k : Nat) (ls : List Text) : indent j (indent k ls) = indent (j + k) ls := by
  simp [indent, indentLine_indentLine]

lemma indent_cons (k : Nat) (l : Text) (ls : List Text) :
    indent k (l :: ls) = indentLine k l :: indent k ls := rfl

lemma indent_append (k : Nat) (ls ms : List Text) :
    indent k (ls ++ ms) = indent k ls ++ indent k ms :=
  List.map_append

lemma indent_flatMap {β : Type} (k : Nat) (f : β → List Text) (bs : List β) :
    indent k (bs.flatMap f) = bs.flatMap fun b => indent k (f b) :=
  List.map_flatMap

lemma isBlank_of_mem_margin {k : Nat} {c : Char} (h : c ∈ margin k) : isBlank c = true := by
  rw [margin, List.mem_replicate] at h
  rw [h.2]; rfl

@[simp] lemma trimStart_indentLine (k : Nat) (l : Text) :
    trimStart (indentLine k l) = trimStart l := by
  by_cases h : l = []
  · rw [h, indentLine_nil]
  · rw [indentLine_of_ne_nil k h, trimStart_blanks_append _ fun _ hc => isBlank_of_mem_margin hc]

@[simp] lemma trim_indentLine (k : Nat) (l : Text) : trim (indentLine k l) = trim l := by
  rw [trim, trimStart_indentLine, ← trim]

lemma getLast?_indentLine (k : Nat) (l : Text) : (indentLine k l).getLast? = l.getLast? := by
  by_cases h : l = []
  · rw [h, indentLine_nil]
  · rw [indentLine_of_ne_nil k h, List.getLast?_append]
    cases hl : l.getLast? with
    | none => exact absurd (List.getLast?_eq_none_iff.mp hl) h
    | some c => rfl

lemma trimEnd_indentLine (k : Nat) {l : Text} (h : trimEnd l = l) :
    trimEnd (indentLine k l) = indentLine k l := by
  rw [trimEnd_eq_self_iff] at h ⊢
  rwa [getLast?_indentLine]

lemma indentLine_eq_nil_iff {k : Nat} {l : Text} : indentLine k l = [] ↔ l = [] := by
  by_cases h : l = []
  · simp [h]
  · simp [indentLine_of_ne_nil k h, h]

lemma newline_not_mem_indentLine (k : Nat) {l : Text} (h : '\n' ∉ l) : '\n' ∉ indentLine k l := by
  by_cases hl : l = []
  · simp [hl]
  · rw [indentLine_of_ne_nil k hl, List.mem_append, not_or]
    exact ⟨by simp [margin], h⟩

/-- A line that starts with content has as many blanks in front as it was moved right. -/
lemma indentation_indentLine (k : Nat) {c : Char} {l : Text} (h : isBlank c = false) :
    indentation (indentLine k (c :: l)) = 2 * k := by
  rw [indentLine_of_ne_nil k (by simp), indentation,
    List.takeWhile_append_of_pos fun _ hc => isBlank_of_mem_margin hc]
  simp [h, margin]

lemma stripIndent_replicate (w : Nat) (l : Text) :
    stripIndent w (List.replicate w ' ' ++ l) = l := by
  induction w with
  | zero => cases l <;> rfl
  | succ w ih => simpa [stripIndent, List.replicate_succ] using ih

@[simp] lemma stripIndent_nil (w : Nat) : stripIndent w [] = [] := by
  cases w <;> rfl

/-- Taking the margin away again gives the line back, whatever blanks it starts with itself. -/
lemma stripIndent_indentLine (k : Nat) (l : Text) : stripIndent (2 * k) (indentLine k l) = l := by
  by_cases h : l = []
  · rw [h, indentLine_nil, stripIndent_nil]
  · rw [indentLine_of_ne_nil k h, margin, stripIndent_replicate]

end FeatureTree.Text
