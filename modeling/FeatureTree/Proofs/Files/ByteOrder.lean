import Mathlib.Data.Char
import Mathlib.Data.List.Basic
import Mathlib.Tactic.Common
import FeatureTree.Text.Blank

/-!
The order of texts is that of their bytes.

Texts are compared by their characters and file names by their bytes. The first byte in which the
codes of two characters differ is greater in the code of the greater character, so both orders are
the same.
-/

namespace FeatureTree.Text

/-- The bytes of a text in UTF-8. -/
def bytes (t : Text) : List UInt8 := t.flatMap String.utf8EncodeChar

lemma bytes_cons (c : Char) (t : Text) : bytes (c :: t) = String.utf8EncodeChar c ++ bytes t := rfl

lemma char_toNat_lt (c : Char) : c.val.toNat < 0x110000 := by
  have hvalid := c.valid
  simp only [UInt32.isValidChar, Nat.isValidChar] at hvalid
  omega

/-- The code of a smaller character is smaller, whatever follows the two. -/
lemma encode_append_lt {c d : Char} (h : c < d) (u v : List UInt8) :
    String.utf8EncodeChar c ++ u < String.utf8EncodeChar d ++ v := by
  have hlt : c.val.toNat < d.val.toNat := h
  have hd := char_toNat_lt d
  -- the bytes are the digits to base 64, so these are put in terms of each other
  have hdiv₂ : ∀ n, n / 4096 = n / 64 / 64 := fun n => by omega
  have hdiv₃ : ∀ n, n / 262144 = n / 64 / 64 / 64 := fun n => by omega
  unfold String.utf8EncodeChar
  simp only [hdiv₂, hdiv₃]
  split_ifs <;>
    simp only [List.cons_append, List.nil_append, List.cons_lt_cons_iff, UInt8.lt_iff_toNat_lt,
      ← UInt8.toNat_inj, UInt8.toNat_ofNat'] <;>
    omega

lemma append_lt_append_left_iff (u s t : List UInt8) : u ++ s < u ++ t ↔ s < t := by
  induction u with
  | nil => rfl
  | cons x u ih =>
    rw [List.cons_append, List.cons_append, List.cons_lt_cons_iff, ih]
    simp

/-- **Bytes and characters order texts alike.** -/
lemma bytes_lt_bytes_iff {s t : Text} : bytes s < bytes t ↔ s < t := by
  induction s generalizing t with
  | nil =>
    cases t with
    | nil => simp
    | cons d t =>
      obtain ⟨x, u, hx⟩ : ∃ x u, bytes (d :: t) = x :: u :=
        List.exists_cons_of_ne_nil (by simp [bytes_cons])
      rw [hx]
      exact iff_of_true (List.nil_lt_cons x u) (List.nil_lt_cons d t)
  | cons c s ih =>
    cases t with
    | nil => simp [bytes]
    | cons d t =>
      rw [bytes_cons, bytes_cons, List.cons_lt_cons_iff]
      rcases lt_trichotomy c d with h | rfl | h
      · exact iff_of_true (encode_append_lt h _ _) (.inl h)
      · rw [append_lt_append_left_iff, ih]
        simp
      · refine iff_of_false (fun hlt => ?_) ?_
        · exact List.lt_asymm hlt (encode_append_lt h _ _)
        · rintro (hlt | ⟨rfl, -⟩)
          · exact lt_asymm h hlt
          · exact lt_irrefl _ h

end FeatureTree.Text
