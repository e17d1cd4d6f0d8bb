import FeatureTree.Markup.Fence
import FeatureTree.Proofs.Text.Lines

/-!
The escaping of double quotes in the content of a doc string.

A replacement goes from the left and passes over what it has replaced. Three quotes overlap
themselves, so a run of quotes is cut into threes from its left end. No quote that is kept stands
right before a fence that is replaced, which is why an escape in the result is one that was written
there, or one that the content had itself. Content that was read from an escaped text can have an
escape of its own only where a fence starts with the last quote of it, and escaping that fence
takes it apart.
-/

namespace FeatureTree

namespace Text

variable {old new : Text}

lemma replaceFrom_eq_drop (old new : Text) (k : Nat) (t : Text) :
    replaceFrom old new k t = replace old new (t.drop k) := by
  induction t generalizing k with
  | nil => cases k <;> simp [replace, replaceFrom]
  | cons c t ih =>
    cases k with
    | zero => rfl
    | succ k => rw [replaceFrom, ih]; rfl

@[simp] lemma replace_nil (old new : Text) : replace old new [] = [] := by
  simp [replace, replaceFrom]

lemma replace_append (hne : old ≠ []) (new t : Text) :
    replace old new (old ++ t) = new ++ replace old new t := by
  obtain ⟨c, w, rfl⟩ := List.exists_cons_of_ne_nil hne
  rw [replace, List.cons_append, replaceFrom, if_pos (by simp), replaceFrom_eq_drop]
  simp

lemma replace_cons {c : Char} {t : Text} (h : ¬ old <+: c :: t) (new : Text) :
    replace old new (c :: t) = c :: replace old new t := by
  rw [replace, replaceFrom, if_neg (by simpa using h)]
  rfl

/-- Induction along a replacement: over the occurrences it replaces and the characters it keeps. -/
lemma replace_induction {P : Text → Prop} (hne : old ≠ []) (nil : P [])
    (occurrence : ∀ t, P t → P (old ++ t))
    (kept : ∀ c t, ¬ old <+: c :: t → P t → P (c :: t)) (t : Text) : P t := by
  induction hn : t.length using Nat.strongRecOn generalizing t with
  | ind n ih =>
    cases t with
    | nil => exact nil
    | cons c t =>
      by_cases h : old <+: c :: t
      · obtain ⟨r, hr⟩ := h
        rw [← hr]
        have hlen := congrArg List.length hr
        have := List.length_pos_iff.mpr hne
        simp only [List.length_append] at hlen
        exact occurrence r (ih r.length (by omega) r rfl)
      · exact kept c t h (ih t.length (by simp at hn; omega) t rfl)

end Text

namespace Fence

open Text

/-- Content as a doc string writes it. -/
def escape (l : Text) : Text := Text.replace quotes.mark quotes.escaped l

/-- What a doc string says by its content. -/
def unescape (l : Text) : Text := Text.replace quotes.escaped quotes.mark l

lemma mark_ne_nil (f : Fence) : f.mark ≠ [] := by cases f <;> simp [mark]

@[simp] lemma escape_nil : escape [] = [] := replace_nil _ _

lemma escape_mark (t : Text) : escape (quotes.mark ++ t) = quotes.escaped ++ escape t :=
  replace_append (mark_ne_nil _) _ _

lemma escape_cons {c : Char} {t : Text} (h : ¬ quotes.mark <+: c :: t) :
    escape (c :: t) = c :: escape t :=
  replace_cons h _

lemma escape_cons_of_ne {c : Char} (hc : c ≠ '"') (t : Text) : escape (c :: t) = c :: escape t :=
  escape_cons (by simp [mark, Ne.symm hc])

lemma getLast?_escape (l : Text) : (escape l).getLast? = l.getLast? := by
  refine replace_induction (P := fun l => (escape l).getLast? = l.getLast?) (mark_ne_nil quotes)
    rfl ?_ ?_ l
  · intro t ih
    rw [escape_mark, List.getLast?_append, List.getLast?_append, ih]
    rfl
  · intro c t h ih
    rw [escape_cons h, List.getLast?_cons, List.getLast?_cons, ih]

lemma newline_mem_escape_iff {l : Text} : '\n' ∈ escape l ↔ '\n' ∈ l := by
  refine replace_induction (P := fun l => '\n' ∈ escape l ↔ '\n' ∈ l) (mark_ne_nil quotes)
    (by simp) ?_ ?_ l
  · intro t ih
    rw [escape_mark, List.mem_append, List.mem_append, ih]
    simp [mark, escaped]
  · intro c t h ih
    simp [escape_cons h, ih]

/-- A quote at the start of escaped content is one that was kept. -/
lemma exists_of_quote_prefix {x t : Text} (h : '"' :: x <+: escape t) :
    ∃ r, t = '"' :: r ∧ ¬ quotes.mark <+: t ∧ x <+: escape r := by
  cases t with
  | nil => simp at h
  | cons c t =>
    by_cases hm : quotes.mark <+: c :: t
    · obtain ⟨r, hr⟩ := hm
      rw [← hr, escape_mark] at h
      simp [escaped, mark] at h
    · rw [escape_cons hm, List.cons_prefix_cons] at h
      obtain ⟨rfl, hx⟩ := h
      exact ⟨t, rfl, hm, hx⟩

/-- A backslash at the start of escaped content was kept, if no fence was replaced there. -/
lemma exists_of_backslash_prefix {x t : Text} (hm : ¬ quotes.mark <+: t)
    (h : '\\' :: x <+: escape t) : ∃ r, t = '\\' :: r ∧ x <+: escape r := by
  cases t with
  | nil => simp at h
  | cons c t =>
    rw [escape_cons hm, List.cons_prefix_cons] at h
    obtain ⟨rfl, hx⟩ := h
    exact ⟨t, rfl, hx⟩

/-- Escaped content does not start with a fence. -/
lemma not_mark_prefix_escape (t : Text) : ¬ quotes.mark <+: escape t := by
  intro h
  obtain ⟨r1, rfl, hm, h1⟩ := exists_of_quote_prefix h
  obtain ⟨r2, rfl, -, h2⟩ := exists_of_quote_prefix h1
  obtain ⟨r3, rfl, -, -⟩ := exists_of_quote_prefix h2
  exact hm ⟨r3, rfl⟩

lemma not_mark_prefix_of_quote_cons {r : Text} (h : ¬ quotes.mark <+: '"' :: r) :
    ¬ quotes.mark <+: r := by
  rintro ⟨u, rfl⟩
  exact h ⟨'"' :: u, rfl⟩

/-- An escape that starts with a kept character is one that the content has itself, and no fence
starts with its last quote. -/
lemma exists_of_escaped_prefix {c : Char} {t : Text} (hm : ¬ quotes.mark <+: c :: t)
    (h : quotes.escaped <+: c :: escape t) :
    ∃ r, c :: t = quotes.escaped ++ r ∧ ¬ quotes.mark <+: '"' :: r := by
  obtain ⟨rfl, h1⟩ := List.cons_prefix_cons.mp h
  obtain ⟨r1, rfl, hm1, h2⟩ := exists_of_quote_prefix h1
  -- a fence right after a kept quote would have been replaced one quote earlier
  obtain ⟨r2, rfl, h3⟩ := exists_of_backslash_prefix (not_mark_prefix_of_quote_cons hm1) h2
  obtain ⟨r3, rfl, hm3, h4⟩ := exists_of_quote_prefix h3
  obtain ⟨r4, rfl, h5⟩ := exists_of_backslash_prefix (not_mark_prefix_of_quote_cons hm3) h4
  obtain ⟨r5, rfl, hm5, -⟩ := exists_of_quote_prefix h5
  exact ⟨r5, rfl, hm5⟩

lemma escaped_prefix_of_escape {c : Char} {t : Text} (hm : ¬ quotes.mark <+: c :: t)
    (h : quotes.escaped <+: c :: escape t) : quotes.escaped <+: c :: t := by
  obtain ⟨r, hr, -⟩ := exists_of_escaped_prefix hm h
  exact ⟨r, hr.symm⟩

/-- **Escaping is undone** on content that has no escape of its own. -/
lemma unescape_escape {l : Text} (h : ¬ quotes.escaped <:+: l) : unescape (escape l) = l := by
  revert h
  refine replace_induction (P := fun l => ¬ quotes.escaped <:+: l → unescape (escape l) = l)
    (mark_ne_nil quotes) ?_ ?_ ?_ l
  · intro _
    exact replace_nil _ _
  · intro t ih h
    have ht : ¬ quotes.escaped <:+: t := fun ht => h (ht.trans (List.suffix_append _ _).isInfix)
    rw [escape_mark, unescape, replace_append (by simp [escaped, mark]), ← unescape, ih ht]
  · intro c t hm ih h
    have ht : ¬ quotes.escaped <:+: t := fun ht => h (ht.trans (List.suffix_cons _ _).isInfix)
    have hc : ¬ quotes.escaped <+: c :: escape t :=
      fun hp => h (escaped_prefix_of_escape hm hp).isInfix
    rw [escape_cons hm, unescape, replace_cons hc, ← unescape, ih ht]

/-! ### Content that was unescaped -/

lemma unescape_escaped (t : Text) : unescape (quotes.escaped ++ t) = quotes.mark ++ unescape t :=
  replace_append (by simp [escaped, mark]) _ _

lemma unescape_cons {c : Char} {t : Text} (h : ¬ quotes.escaped <+: c :: t) :
    unescape (c :: t) = c :: unescape t :=
  replace_cons h _

lemma unescape_quote (t : Text) : unescape ('"' :: t) = '"' :: unescape t :=
  unescape_cons (by simp [escaped, mark])

/-- The first character of unescaped content was kept, or is that of a fence. -/
lemma exists_of_unescape_eq_cons {t y : Text} {c : Char} (h : unescape t = c :: y) :
    (∃ r, t = c :: r ∧ ¬ quotes.escaped <+: t ∧ unescape r = y)
      ∨ ∃ r, t = quotes.escaped ++ r ∧ c :: y = quotes.mark ++ unescape r := by
  cases t with
  | nil => simp [unescape] at h
  | cons d t =>
    by_cases hp : quotes.escaped <+: d :: t
    · obtain ⟨r, hr⟩ := hp
      rw [← hr, unescape_escaped] at h
      exact .inr ⟨r, hr.symm, h.symm⟩
    · rw [unescape_cons hp, List.cons.injEq] at h
      obtain ⟨rfl, hy⟩ := h
      exact .inl ⟨t, rfl, hp, hy⟩

/-- The first character of unescaped content was kept, if no fence starts there. -/
lemma exists_of_unescape_kept {t y : Text} {c : Char} (h : unescape t = c :: y)
    (hm : ¬ quotes.mark <+: c :: y) :
    ∃ r, t = c :: r ∧ ¬ quotes.escaped <+: t ∧ unescape r = y := by
  refine (exists_of_unescape_eq_cons h).resolve_right ?_
  rintro ⟨r, -, hr⟩
  exact hm ⟨_, hr.symm⟩

/-- What follows a quote in unescaped content is unescaped content. -/
lemma exists_unescape_of_quote {t y : Text} (h : unescape t = '"' :: y) : ∃ r, unescape r = y := by
  rcases exists_of_unescape_eq_cons h with ⟨r, -, -, hr⟩ | ⟨r, -, hr⟩
  · exact ⟨r, hr⟩
  · refine ⟨'"' :: '"' :: r, ?_⟩
    rw [unescape_quote, unescape_quote]
    exact (List.cons.inj hr).2.symm

/-- An escape in unescaped content ends in the first quote of a fence. -/
lemma not_escaped_prefix_of_unescape {c : Char} {t : Text} (h : ¬ quotes.escaped <+: c :: t)
    (hm : ¬ quotes.mark <+: c :: unescape t) : ¬ quotes.escaped <+: c :: escape (unescape t) := by
  intro hp
  obtain ⟨r, hr, hlast⟩ := exists_of_escaped_prefix hm hp
  obtain ⟨rfl, h1⟩ := List.cons.inj hr
  -- a quote before a backslash starts no fence, so all but the last quote were kept
  obtain ⟨t1, rfl, -, h2⟩ := exists_of_unescape_kept h1 (by simp [mark])
  obtain ⟨t2, rfl, -, h3⟩ := exists_of_unescape_kept h2 (by simp [mark])
  obtain ⟨t3, rfl, -, h4⟩ := exists_of_unescape_kept h3 (by simp [mark])
  obtain ⟨t4, rfl, -, h5⟩ := exists_of_unescape_kept h4 (by simp [mark])
  obtain ⟨t5, rfl, -, -⟩ := exists_of_unescape_kept h5 hlast
  exact h ⟨t5, rfl⟩

/-- **Unescaped content is escaped without loss**, also where it has an escape of its own. -/
lemma unescape_escape_unescape (l : Text) : unescape (escape (unescape l)) = unescape l := by
  -- along the unescaped content: what follows a fence or a kept character is unescaped content
  induction hn : (unescape l).length using Nat.strongRecOn generalizing l with
  | ind n ih =>
    rcases hy : unescape l with _ | ⟨c, y⟩
    · exact replace_nil _ _
    · rw [hy, List.length_cons] at hn
      by_cases hm : quotes.mark <+: c :: y
      · obtain ⟨u, hu⟩ := hm
        have hlen := congrArg List.length hu
        have hpos := List.length_pos_iff.mpr (mark_ne_nil quotes)
        simp only [List.length_append, List.length_cons] at hlen
        obtain ⟨r1, h1⟩ := exists_unescape_of_quote (hy.trans hu.symm)
        obtain ⟨r2, h2⟩ := exists_unescape_of_quote h1
        obtain ⟨r3, rfl⟩ := exists_unescape_of_quote h2
        rw [← hu, escape_mark, unescape_escaped, ih _ (by omega) r3 rfl]
      · obtain ⟨r, rfl, hp, rfl⟩ := exists_of_unescape_kept hy hm
        rw [escape_cons hm, unescape_cons (not_escaped_prefix_of_unescape hp hm),
          ih _ (by omega) r rfl]

lemma mem_of_mem_unescape {c : Char} {l : Text} (hc : c ≠ '"') (h : c ∈ unescape l) : c ∈ l := by
  revert h
  have hne : quotes.escaped ≠ [] := by simp [escaped, mark]
  refine replace_induction (P := fun l => c ∈ unescape l → c ∈ l) hne (by simp [unescape]) ?_ ?_ l
  · intro t ih h
    rw [unescape_escaped, List.mem_append] at h
    refine List.mem_append_right _ (ih (h.resolve_left ?_))
    simpa [mark] using hc
  · intro d t hp ih h
    rw [unescape_cons hp, List.mem_cons] at h
    exact List.mem_cons.mpr (h.imp_right ih)

/-- Blanks are kept, so the content of a line starts where it started. -/
lemma trimStart_escape (l : Text) : trimStart (escape l) = escape (trimStart l) := by
  induction l with
  | nil => rfl
  | cons c t ih =>
    by_cases hb : isBlank c = true
    · have hc : c ≠ '"' := by rintro rfl; simp at hb
      rw [escape_cons_of_ne hc, trimStart_cons_blank _ hb, trimStart_cons_blank _ hb, ih]
    · rw [trimStart_cons_of_not_blank _ (by simpa using hb)]
      by_cases hm : quotes.mark <+: c :: t
      · obtain ⟨r, hr⟩ := hm
        rw [← hr, escape_mark]
        exact trimStart_cons_of_not_blank _ (by simp)
      · rw [escape_cons hm, trimStart_cons_of_not_blank _ (by simpa using hb)]

lemma starts_indentLine (f : Fence) (k : Nat) (l : Text) :
    f.starts (indentLine k l) = f.starts l := by
  rw [starts, trimStart_indentLine, ← starts]

/-- No line of escaped content closes the fence. -/
lemma not_starts_escape (l : Text) : quotes.starts (escape l) = false := by
  rw [starts, trimStart_escape, Bool.eq_false_iff]
  intro h
  exact not_mark_prefix_escape _ (List.isPrefixOf_iff_prefix.mp h)

end Fence

end FeatureTree
