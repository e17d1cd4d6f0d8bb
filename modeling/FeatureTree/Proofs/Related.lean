import Mathlib.Data.List.Forall2

/-!
Lists whose elements are related one by one.
-/

namespace FeatureTree

variable {α β γ : Type}

/-- Each element on the right has one on the left that it is related to. -/
lemma exists_mem_of_forall₂ {R : α → β → Prop} {as : List α} {bs : List β}
    (h : List.Forall₂ R as bs) {b : β} (hb : b ∈ bs) : ∃ a ∈ as, R a b := by
  induction h with
  | nil => cases hb
  | cons hab _ ih =>
    rcases List.mem_cons.mp hb with rfl | hb
    · exact ⟨_, by simp, hab⟩
    · obtain ⟨a, ha, h⟩ := ih hb
      exact ⟨a, by simp [ha], h⟩

lemma exists_of_rel_right {R : α → β → Prop} {a : Option α} {o : Option β} (h : Option.Rel R a o)
    {b : β} (hb : b ∈ o) : ∃ a, R a b := by
  cases h with
  | none => simp at hb
  | some hr =>
    rw [← Option.mem_some_iff.mp hb]
    exact ⟨_, hr⟩

lemma forall₂_map {R : α → β → Prop} {f : α → β} (h : ∀ a, R a (f a)) (as : List α) :
    List.Forall₂ R as (as.map f) := by
  rw [List.forall₂_map_right_iff]
  exact List.forall₂_same.mpr fun a _ => h a

/-- The elements on the right may be made from those on the left and a second list. -/
lemma forall₂_map_zip {R : β → γ → Prop} {f : α × β → γ} {as : List α} {bs : List β}
    (hlen : as.length = bs.length) (h : ∀ p ∈ as.zip bs, R p.2 (f p)) :
    List.Forall₂ R bs ((as.zip bs).map f) := by
  induction as generalizing bs with
  | nil =>
    obtain rfl := List.length_eq_zero_iff.mp hlen.symm
    exact .nil
  | cons a as ih =>
    cases bs with
    | nil => simp at hlen
    | cons b bs =>
      rw [List.zip_cons_cons] at h ⊢
      exact .cons (h (a, b) (by simp)) (ih (by simpa using hlen) fun p hp => h p (by simp [hp]))

lemma forall₂_flatMap {R : β → γ → Prop} {f : α → List β} {g : α → List γ} {xs : List α}
    (h : ∀ x ∈ xs, List.Forall₂ R (f x) (g x)) :
    List.Forall₂ R (xs.flatMap f) (xs.flatMap g) := by
  induction xs with
  | nil => exact .nil
  | cons x xs ih =>
    rw [List.flatMap_cons, List.flatMap_cons]
    exact List.rel_append (h x (by simp)) (ih fun y hy => h y (by simp [hy]))

lemma map_eq_of_forall₂ {R : α → β → Prop} {g : α → γ} {h : β → γ} {as : List α} {bs : List β}
    (hR : List.Forall₂ R as bs) (heq : ∀ a b, R a b → g a = h b) : as.map g = bs.map h := by
  induction hR with
  | nil => rfl
  | cons hab _ ih => rw [List.map_cons, List.map_cons, heq _ _ hab, ih]

lemma rel_getLast? {R : α → β → Prop} {as : List α} {bs : List β} (h : List.Forall₂ R as bs) :
    Option.Rel R as.getLast? bs.getLast? := by
  rw [← List.head?_reverse, ← List.head?_reverse]
  have hrev := List.rel_reverse h
  revert hrev
  generalize as.reverse = as', bs.reverse = bs'
  rintro (_ | hr)
  · exact .none
  · exact .some hr

end FeatureTree
