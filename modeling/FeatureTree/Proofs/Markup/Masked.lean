import Mathlib.Data.List.Forall2
import FeatureTree.Markup.Mask
import FeatureTree.Proofs.Markup.Escape

/-!
Masking a text line by line.

The masks of a text go by the fence that is open, and a text of whole lines is masked by masking
its lines one after the other. A mask changes only pipes and backslashes, and only into the two
characters that stand for them, so that all else is found in a masked text where it was.
-/

namespace FeatureTree

open Text

namespace Fence

/-- The fence that is open after some lines. -/
def run (o : Option Fence) (ls : List Text) : Option Fence := ls.foldl after o

@[simp] lemma run_nil (o : Option Fence) : run o [] = o := rfl

@[simp] lemma run_cons (o : Option Fence) (l : Text) (ls : List Text) :
    run o (l :: ls) = run (after o l) ls := rfl

@[simp] lemma run_append (o : Option Fence) (ls ms : List Text) :
    run o (ls ++ ms) = run (run o ls) ms := by
  simp [run]

lemma not_blank_of_mem_mark {f : Fence} {c : Char} (h : c ∈ f.mark) : isBlank c = false := by
  cases f <;> simp [mark] at h <;> subst h <;> decide

/-- Blanks around a line do not decide whether it starts with a fence. -/
lemma starts_eq_trim (f : Fence) (l : Text) : f.starts l = f.mark.isPrefixOf (trim l) := by
  obtain ⟨s, u, hl, hs, hu⟩ := exists_blanks_trim l
  have hself : trimStart (trim l) = trim l := trimStart_eq_self_of_trim (trim_trim l)
  have hstart : trimStart l = if (trim l).isEmpty then [] else trim l ++ u := by
    conv_lhs => rw [hl, List.append_assoc, trimStart_blanks_append _ hs, trimStart_append, hself,
      trimStart_eq_nil_iff.mpr hu]
  rw [starts, hstart]
  split
  · rename_i h
    rw [List.isEmpty_iff.mp h]
  · rcases u with _ | ⟨c, u⟩
    · rw [List.append_nil]
    · have hc : c ∉ f.mark := fun hm => by simp [not_blank_of_mem_mark hm] at hu
      rw [Bool.eq_iff_iff, List.isPrefixOf_iff_prefix, List.isPrefixOf_iff_prefix,
        prefix_append_cons_iff hc]

lemma starts_append_newline (f : Fence) (l : Text) : f.starts (l ++ ['\n']) = f.starts l := by
  rw [starts_eq_trim, starts_eq_trim, trim_append_blank l (by simp)]

lemma after_congr {l m : Text} (h : ∀ f : Fence, f.starts l = f.starts m) (o : Option Fence) :
    after o l = after o m := by
  cases o <;> simp [after, opening?, h]

lemma after_append_newline (o : Option Fence) (l : Text) : after o (l ++ ['\n']) = after o l :=
  after_congr (fun f => starts_append_newline f l) o

@[simp] lemma after_indentLine (o : Option Fence) (k : Nat) (l : Text) :
    after o (indentLine k l) = after o l :=
  after_congr (fun f => starts_indentLine f k l) o

@[simp] lemma run_indent (o : Option Fence) (k : Nat) (ls : List Text) :
    run o (indent k ls) = run o ls := by
  induction ls generalizing o with
  | nil => rfl
  | cons l ls ih =>
    have : indent k (l :: ls) = indentLine k l :: indent k ls := rfl
    rw [this, run_cons, run_cons, after_indentLine, ih]

/-- A line that starts with neither fence leaves the fence as it is. -/
lemma after_of_not_starts {l : Text} (h : ∀ f : Fence, f.starts l = false) (o : Option Fence) :
    after o l = o := by
  cases o <;> simp [after, opening?, h]

lemma not_starts_of_head {l : Text} (h : ∀ c ∈ (trimStart l).head?, c ≠ '"' ∧ c ≠ '\x60')
    (f : Fence) : f.starts l = false := by
  rw [starts]
  rcases ht : trimStart l with _ | ⟨c, t⟩
  · cases f <;> rfl
  · obtain ⟨h₁, h₂⟩ := h c (by simp [ht])
    cases f <;> simp [mark, List.isPrefixOf, Ne.symm h₁, Ne.symm h₂]

end Fence

/-! ### Characters of a mask -/

namespace Cells

/-- Induction over a row, escape by escape. -/
lemma escape_induction {P : Text → Prop} (nil : P []) (lone : P ['\\'])
    (pair : ∀ c t, P t → P ('\\' :: c :: t)) (plain : ∀ c t, c ≠ '\\' → P t → P (c :: t))
    (t : Text) : P t := by
  induction hn : t.length using Nat.strongRecOn generalizing t with
  | ind n ih =>
    rcases t with _ | ⟨c, t⟩
    · exact nil
    · by_cases hc : c = '\\'
      · subst hc
        rcases t with _ | ⟨d, t⟩
        · exact lone
        · exact pair d t (ih t.length (by simp at hn; omega) t rfl)
      · exact plain c t hc (ih t.length (by simp at hn; omega) t rfl)

lemma mask_cons_of_ne {c : Char} (t : Text) (h : c ≠ '\\') : mask (c :: t) = c :: mask t := by
  rw [mask]
  all_goals simp_all

lemma mask_pair_of_ne {c : Char} (t : Text) (h₁ : c ≠ '|') (h₂ : c ≠ '\\') :
    mask ('\\' :: c :: t) = '\\' :: c :: mask t := by
  rw [mask]
  · exact fun h => h₁ h
  · exact fun h => h₂ h

/-- How a character may look in a masked text. -/
def Veils (a b : Char) : Prop := b = a ∨ (a = '\\' ∨ a = '|') ∧ (b = '\x01' ∨ b = '\x02')

lemma veils_mask (t : Text) : List.Forall₂ Veils t (mask t) := by
  induction t using escape_induction with
  | nil => rw [mask]; exact .nil
  | lone => simp [mask, Veils]
  | pair c t ih =>
    by_cases h₁ : c = '|'
    · subst h₁
      simp [mask, Veils, ih]
    · by_cases h₂ : c = '\\'
      · subst h₂
        simp [mask, Veils, ih]
      · rw [mask_pair_of_ne t h₁ h₂]
        exact .cons (.inl rfl) (.cons (.inl rfl) ih)
  | plain c t hc ih =>
    rw [mask_cons_of_ne t hc]
    exact .cons (.inl rfl) ih

lemma Veils.utf8Size {a b : Char} (h : Veils a b) : b.utf8Size = a.utf8Size := by
  rcases h with rfl | ⟨rfl | rfl, rfl | rfl⟩
  · rfl
  all_goals decide

lemma byteLength_veils {s t : Text} (h : List.Forall₂ Veils s t) : byteLength t = byteLength s := by
  induction h with
  | nil => rfl
  | cons hab _ ih => rw [byteLength, byteLength, hab.utf8Size, ih]

/-- A character that takes no part in masks. -/
def Plain (c : Char) : Prop := c ≠ '\\' ∧ c ≠ '|' ∧ c ≠ '\x01' ∧ c ≠ '\x02'

lemma Veils.eq_iff {a b c : Char} (h : Veils a b) (hc : Plain c) : b = c ↔ a = c := by
  obtain ⟨h₁, h₂, h₃, h₄⟩ := hc
  rcases h with rfl | ⟨rfl | rfl, rfl | rfl⟩ <;>
    simp [Ne.symm h₁, Ne.symm h₂, Ne.symm h₃, Ne.symm h₄]

lemma mem_veils_iff {s t : Text} (h : List.Forall₂ Veils s t) {c : Char} (hc : Plain c) :
    c ∈ t ↔ c ∈ s := by
  induction h with
  | nil => simp
  | cons hab _ ih =>
    rw [List.mem_cons, List.mem_cons, ih, eq_comm, hab.eq_iff hc, eq_comm]

lemma exists_veils_append {s t₁ t₂ : Text} (h : List.Forall₂ Veils s (t₁ ++ t₂)) :
    ∃ s₁ s₂, s = s₁ ++ s₂ ∧ List.Forall₂ Veils s₁ t₁ ∧ List.Forall₂ Veils s₂ t₂ :=
  ⟨s.take t₁.length, s.drop t₁.length, (List.take_append_drop _ _).symm,
    List.forall₂_take_append s t₁ t₂ h, List.forall₂_drop_append s t₁ t₂ h⟩

/-- Where a masked text has no masks it is the text. -/
lemma eq_of_veils {s t : Text} (h : List.Forall₂ Veils s t) (ht : ∀ c ∈ t, Plain c) : s = t := by
  induction h with
  | nil => rfl
  | cons hab _ ih =>
    rw [ih fun c hc => ht c (by simp [hc]), (hab.eq_iff (ht _ (by simp))).mp rfl]

lemma newline_mem_mask_iff {t : Text} : '\n' ∈ mask t ↔ '\n' ∈ t :=
  mem_veils_iff (veils_mask t) (by simp [Plain])

/-- What has neither pipes nor backslashes is not masked at the end of a row either. -/
lemma mask_append {u : Text} (hu : ∀ c ∈ u, c ≠ '|' ∧ c ≠ '\\') (t : Text) :
    mask (t ++ u) = mask t ++ u := by
  have hplain : mask u = u := by
    induction u with
    | nil => rfl
    | cons c u ih =>
      rw [mask_cons_of_ne u (hu c (by simp)).2, ih fun d hd => hu d (by simp [hd])]
  induction t using escape_induction with
  | nil => simpa [mask] using hplain
  | lone =>
    -- a backslash at the end takes the next character with it, which is no pipe
    rcases u with _ | ⟨c, u⟩
    · rfl
    · obtain ⟨h₁, h₂⟩ := hu c (by simp)
      rw [mask_cons_of_ne u h₂, List.cons.injEq] at hplain
      rw [List.cons_append, List.nil_append, mask_pair_of_ne u h₁ h₂, hplain.2]
      rfl
  | pair c t ih =>
    by_cases h₁ : c = '|'
    · subst h₁
      simp [mask, ih]
    · by_cases h₂ : c = '\\'
      · subst h₂
        simp [mask, ih]
      · rw [List.cons_append, List.cons_append, mask_pair_of_ne _ h₁ h₂, mask_pair_of_ne _ h₁ h₂, ih]
        rfl
  | plain c t hc ih =>
    rw [List.cons_append, mask_cons_of_ne _ hc, mask_cons_of_ne _ hc, ih, List.cons_append]

lemma mask_append_newline (t : Text) : mask (t ++ ['\n']) = mask t ++ ['\n'] :=
  mask_append (by simp) t

end Cells

/-! ### Lines of a masked text -/

namespace Mask

/-- Blanks before a line do not make a row of it. -/
lemma isRow_indentLine (k : Nat) (l : Text) : isRow (indentLine k l) = isRow l := by
  rw [isRow, isRow, trimStart_indentLine]

lemma isRow_append_newline (l : Text) : isRow (l ++ ['\n']) = isRow l := by
  rw [isRow, isRow, trimStart_append]
  rcases ht : trimStart l with _ | ⟨c, t⟩
  · rfl
  · rfl

lemma piece_append_newline (o : Option Fence) (l : Text) :
    piece o (l ++ ['\n']) = piece o l ++ ['\n'] := by
  rw [piece, piece, isRow_append_newline, Cells.mask_append_newline]
  split <;> rfl

lemma veils_piece (o : Option Fence) (l : Text) : List.Forall₂ Cells.Veils l (piece o l) := by
  rw [piece]
  split
  · exact Cells.veils_mask l
  · exact List.forall₂_same.mpr fun _ _ => .inl rfl

@[simp] lemma pieces_nil (o : Option Fence) : pieces o [] = [] := rfl

@[simp] lemma pieces_cons (o : Option Fence) (l : Text) (ls : List Text) :
    pieces o (l :: ls) = piece (Fence.after o l) l :: pieces (Fence.after o l) ls := rfl

lemma pieces_append (o : Option Fence) (ls ms : List Text) :
    pieces o (ls ++ ms) = pieces o ls ++ pieces (Fence.run o ls) ms := by
  induction ls generalizing o with
  | nil => rfl
  | cons l ls ih => simp [ih]

lemma pieces_newline (o : Option Fence) (ls : List Text) :
    pieces o (ls.map (· ++ ['\n'])) = (pieces o ls).map (· ++ ['\n']) := by
  induction ls generalizing o with
  | nil => rfl
  | cons l ls ih => simp [Fence.after_append_newline, piece_append_newline, ih]

lemma flatten_pieces_newline (o : Option Fence) (ls : List Text) :
    (pieces o (ls.map (· ++ ['\n']))).flatten = unlines (pieces o ls) := by
  rw [pieces_newline, unlines, List.flatMap_def]

lemma exists_of_mem_pieces {o : Option Fence} {ls : List Text} {m : Text} (h : m ∈ pieces o ls) :
    ∃ l ∈ ls, ∃ o', m = piece o' l := by
  induction ls generalizing o with
  | nil => simp at h
  | cons l ls ih =>
    rcases List.mem_cons.mp h with rfl | h
    · exact ⟨l, by simp, _, rfl⟩
    · obtain ⟨l', hl', ho⟩ := ih h
      exact ⟨l', by simp [hl'], ho⟩

lemma newline_mem_piece_iff (o : Option Fence) (l : Text) : '\n' ∈ piece o l ↔ '\n' ∈ l :=
  Cells.mem_veils_iff (veils_piece o l) (by simp [Cells.Plain])

lemma byteLength_unlines_pieces (o : Option Fence) (ls : List Text) :
    byteLength (unlines (pieces o ls)) = byteLength (unlines ls) := by
  induction ls generalizing o with
  | nil => rfl
  | cons l ls ih =>
    simp only [pieces_cons, unlines_cons, byteLength_append, byteLength, ih,
      Cells.byteLength_veils (veils_piece _ l)]

/-- A line that is no row stays as it is. -/
lemma piece_of_not_isRow {l : Text} (h : isRow l = false) (o : Option Fence) : piece o l = l := by
  simp [piece, h]

end Mask

/-- A masked text has masks where the text has escapes, and nothing else is changed. -/
lemma Text.veils_masked (t : Text) : List.Forall₂ Cells.Veils t t.masked := by
  have key : ∀ (ps : List Text) (o : Option Fence),
      List.Forall₂ Cells.Veils ps.flatten (Mask.pieces o ps).flatten := by
    intro ps
    induction ps with
    | nil => intro o; exact .nil
    | cons p ps ih =>
      intro o
      exact List.rel_append (Mask.veils_piece _ p) (ih _)
  simpa [masked] using key t.pieces none

/-- A text of whole lines is masked line by line. -/
lemma Text.masked_unlines {ls : List Text} (h : ∀ l ∈ ls, '\n' ∉ l) :
    (unlines ls).masked = unlines (Mask.pieces none ls) := by
  have hp : pieces (unlines ls) = ls.map (· ++ ['\n']) := by
    simpa [pieces] using pieces_unlines_append h []
  rw [masked, hp, Mask.flatten_pieces_newline]

end FeatureTree
