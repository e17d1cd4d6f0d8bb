import FeatureTree.Proofs.RoundTrip.Feature

/-!
Texts that start with a word.

Such a text has content and names no language, so it is read in the language that is given, and the
parser rests at its first line.
-/

namespace FeatureTree

open Text

/-- A text has content if its first content is no comment. -/
lemma Document.isFeatureless_eq_false {t r : Text} {c : Char} {cs : List Text}
    (h : contents t = (c :: r) :: cs) (hc : c ≠ '#') : isFeatureless t = false := by
  have hmem : c :: r ∈ contents t := h ▸ List.mem_cons_self
  obtain ⟨l, hl, htrim⟩ := List.mem_map.mp (List.mem_of_mem_filter hmem)
  have hhead : (trimStart l).head? = some c := by rw [← head?_trim, htrim, List.head?_cons]
  obtain ⟨u, hu⟩ := List.head?_eq_some_iff.mp hhead
  rw [isFeatureless, List.all_eq_false]
  exact ⟨l, hl, by simp [Source.isSkipped, hu, hc]⟩

/-- A text whose first content is no comment has no header. -/
lemma Dialect.not_hasHeader {t r : Text} {c : Char} {cs : List Text}
    (h : contents t = (c :: r) :: cs) (hc : c ≠ '#') : ¬ HasHeader t := by
  rintro ⟨l, hl, -⟩
  rw [h, List.takeWhile_cons_of_neg (by simp [hc])] at hl
  simp at hl

/-- The first content of a text that starts with it. -/
lemma Text.exists_contents_cons {c : Char} (hb : isBlank c = false) (t : Text) :
    ∃ r cs, contents (c :: t) = (c :: r) :: cs := by
  have htrim : trim [c] = [c] :=
    trim_eq_self (trimStart_cons_of_not_blank [] hb) (trimEnd_eq_self_iff.mpr (by simpa using hb))
  have hnl : '\n' ∉ [c] := by
    rw [List.mem_singleton]
    rintro rfl
    simp at hb
  exact exists_contents hnl htrim (by simp) t

namespace RoundTrip

open Grammar

/-- Lines of which the first starts with a word and not with a comment. -/
def Begins (D : List Text) : Prop :=
  ∃ c r ls, D = (c :: r) :: ls ∧ isBlank c = false ∧ c ≠ '#' ∧ Shown [] 0 (c :: r) (c :: r)

variable {D : List Text}

lemma Begins.exists_contents (h : Begins D) :
    ∃ c r cs, contents (unlines D) = (c :: r) :: cs ∧ c ≠ '#' := by
  obtain ⟨c, r, ls, rfl, hb, hc, -⟩ := h
  obtain ⟨r', cs, hcs⟩ := exists_contents_cons hb (r ++ '\n' :: unlines ls)
  exact ⟨c, r', cs, by rw [unlines_cons]; simpa using hcs, hc⟩

/-- The parser rests at the start of the masked text. -/
lemma Begins.at (h : Begins D) (hD : ∀ l ∈ D, '\n' ∉ l) :
    let masked := (unlines D).masked
    AtWord masked ∧ At D ⟨masked, byteLength masked, masked, .en, none, false⟩ [] D := by
  intro masked
  obtain ⟨c, r, ls, hlines, -, -, hshown⟩ := h
  have hbelow : masked = below [] D := masked_unlines hD
  have hahead : masked = ahead [] D := by
    rw [hbelow, hlines, ← indentLine_zero (c :: r)]
    exact hshown.below_eq_ahead ls
  refine ⟨?_, rfl, hahead, ?_, rfl⟩
  · rw [hahead, hlines, ← indentLine_zero (c :: r)]
    exact hshown.atWord ls
  · change byteLength masked = _
    rw [hbelow, byteLength_below]

/-- **A text whose lines the grammar reads is read**, and the part that it stands for is taken from
a feature that says the same. -/
lemma Begins.read (h : Begins D) (hD : ∀ l ∈ D, '\n' ∉ l) {k : Fragment} {t : Text} {f : Feature}
    (ht : (k.wrap t).1.terminated = unlines D)
    (hrun : ∀ s, At D s [] D → (∃ r, language s = (none, s.on r)) → s.last = none →
      ∃ x, feature s = (some x, s.on []) ∧ SaysFeature D x f) :
    ∃ f', f'.relined nowhere = f.relined nowhere
      ∧ ∀ n, Fragment.extract? f' k = some n → Fragment.read k .english t = .ok n := by
  -- the text has content and names no language
  obtain ⟨c, r, cs, hcontents, hc⟩ := h.exists_contents
  have hheader := Dialect.not_hasHeader hcontents hc
  -- the grammar reads all of it
  obtain ⟨hword, hat⟩ := h.at hD
  have hlang := not_headerAt_of_not_hasHeader (unlines D).veils_masked hheader
  rw [hword.skipSpaces] at hlang
  obtain ⟨x, hx, hsaid⟩ := hrun _ hat (language_eq_none hlang) rfl
  obtain ⟨f', hf', hrelined⟩ := hsaid ⟨Source.ofText (unlines D), (k.wrap t).2⟩ rfl
  refine ⟨f', hrelined, fun n hn => Fragment.read_eq_ok_iff.mpr ?_⟩
  rw [ht, Dialect.declared?_eq_none hheader, Option.getD_none]
  refine ⟨Document.isFeatureless_eq_false hcontents hc, .en, x, f', Dialect.keywords_english, ?_, hf',
    hn⟩
  rw [parse?, hx]
  rfl

end RoundTrip

end FeatureTree
