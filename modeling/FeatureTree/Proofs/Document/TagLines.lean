import Mathlib.Data.List.Intervals
import Mathlib.Data.Nat.Find
import FeatureTree.Proofs.Document.WellRead
import FeatureTree.Proofs.Source.Range

/-!
The lines of tags.

The tags of a keyword are the words with an at sign on the lines above it, up to the nearest line
that is neither blank nor a comment nor a line of tags. Each name of a tree takes one of these tags
away, the first that is left of that name; so no tag serves two names, and a name goes without a
line only when all tags of that name are taken.
-/

namespace FeatureTree

open Text

/-! ### The words of a line -/

namespace Text

/-- The parts of a line between its blanks, the empty ones left out. -/
def tokens (l : Text) : List Text := (l.splitOnP isBlank).filter (! ·.isEmpty)

/-- The part of a text up to its first blank is empty only if there is nothing before the blank. -/
lemma exists_splitOnP (t : Text) :
    ∃ w ws, t.splitOnP isBlank = w :: ws ∧ (w = [] ↔ (t.head?.map isBlank).getD true = true) := by
  rcases t with _ | ⟨c, t⟩
  · exact ⟨[], [], List.splitOnP_nil, by simp⟩
  · rw [List.splitOnP_cons_eq_if_modifyHead]
    by_cases hc : isBlank c = true
    · exact ⟨[], _, if_pos hc, by simp [hc]⟩
    · obtain ⟨w, ws, hw⟩ := List.exists_cons_of_ne_nil (List.splitOnP_ne_nil isBlank t)
      refine ⟨c :: w, ws, ?_, by simp [hc]⟩
      rw [if_neg hc, hw, List.modifyHead_cons]

/-- The words of a line are its parts between blanks. -/
lemma words_eq_tokens (l : Text) : words l = tokens l := by
  induction l with
  | nil => simp [words, tokens, List.splitOnP_nil]
  | cons c t ih =>
    obtain ⟨w, ws, hw, hempty⟩ := exists_splitOnP t
    rw [tokens, hw] at ih
    rw [words, tokens, List.splitOnP_cons_eq_if_modifyHead]
    by_cases hc : isBlank c = true
    · rw [if_pos hc, if_pos hc, ih, hw]
      rfl
    · rw [if_neg hc, if_neg hc, hw, List.modifyHead_cons, ih]
      by_cases hw' : w = []
      · rw [if_pos (hempty.mp hw'), hw']
        rfl
      · rw [if_neg (mt hempty.mpr hw'), List.filter_cons_of_pos (by simpa using hw')]
        rfl

end Text

namespace Source

/-! ### The lines above a keyword -/

/-- The words of a line that start with an at sign and stand before the first that starts with a
number sign. -/
def tagTokens (l : Text) : List Text :=
  ((tokens l).takeWhile (·.head? != some '#')).filter (·.head? == some '@')

lemma tagsOf_eq (l : Text) : tagsOf l = tagTokens l := by
  rw [tagsOf, tagTokens, words_eq_tokens]

/-- A line that is not blank and starts with neither an at sign nor a number sign. -/
def bars (l : Text) : Bool := (trimStart l).head?.any fun c => c != '@' && c != '#'

lemma bars_eq_not_isMarker (l : Text) : bars l = !isMarker l := by
  rw [bars, isMarker]
  rcases trimStart l with _ | ⟨c, t⟩
  · rfl
  · simp [Bool.and_comm, bne]

/-- The last line above line `k` that bars the way up, or 0. -/
def barAbove (s : Source) (k : Nat) : Nat :=
  Nat.findGreatest (fun n => (s.line? n).any bars = true) (k - 1)

lemma barAbove_succ {s : Source} {m : Nat} {l : Text} (h : s.line? (m + 1) = some l) :
    s.barAbove (m + 2) = if bars l = true then m + 1 else s.barAbove (m + 1) := by
  change Nat.findGreatest _ (m + 1) = _
  rw [Nat.findGreatest_succ, h]
  rfl

/-- Going up from a keyword, tags are found on the lines below the one that bars the way. -/
lemma tagsUpFrom_eq {s : Source} {m : Nat} (h : m ≤ s.lineCount) :
    s.tagsUpFrom m = (List.Ico (s.barAbove (m + 1) + 1) (m + 1)).flatMap fun n =>
      (s.line? n).toList.flatMap fun l => (tagTokens l).map (⟨n, ·⟩) := by
  induction m with
  | zero => rfl
  | succ m ih =>
    obtain ⟨l, hl⟩ : ∃ l, s.line? (m + 1) = some l := ⟨_, List.getElem?_eq_getElem h⟩
    rw [tagsUpFrom, barAbove_succ hl, hl, bars_eq_not_isMarker]
    rcases hm : isMarker l with _ | _
    · -- this line bars the way, and none is passed
      simp [hm, List.Ico.self_empty]
    · have hle : s.barAbove (m + 1) + 1 ≤ m + 1 := Nat.succ_le_succ (Nat.findGreatest_le m)
      simp only [hm, Bool.not_true, Bool.false_eq_true, if_false, if_true]
      rw [ih (Nat.le_of_succ_le h), List.Ico.succ_top hle, List.flatMap_append,
        List.flatMap_singleton, hl, Option.toList_some, List.flatMap_singleton, tagsOf_eq]

lemma tagsAbove_eq {s : Source} {k : Nat} (h : k - 1 ≤ s.lineCount) :
    s.tagsAbove k = (List.Ico (s.barAbove k + 1) k).flatMap fun n =>
      (s.line? n).toList.flatMap fun l => (tagTokens l).map (⟨n, ·⟩) := by
  rcases k with _ | m
  · rfl
  · exact tagsUpFrom_eq h

/-! ### Names and tags -/

/-- A choice of tags for names, by their positions: a name has a tag of that name, no tag is chosen
twice, and a name is left without one only if all tags of that name went to names before it. -/
structure Matching (names : List Text) (ts : List (Located Text)) (taken : List (Option Nat)) :
    Prop where
  length : taken.length = names.length
  named : ∀ i p : Nat, taken[i]? = some (some p) →
    ∃ t : Located Text, ts[p]? = some t ∧ names[i]? = some t.value
  once : ∀ i i' p : Nat, taken[i]? = some (some p) → taken[i']? = some (some p) → i = i'
  spent : ∀ i : Nat, taken[i]? = some none → ∀ (p : Nat) (t : Located Text), ts[p]? = some t →
    names[i]? = some t.value → ∃ i' < i, taken[i']? = some (some p)

/-- The lines of the tags at some positions. -/
def linesAt (ts : List (Located Text)) (taken : List (Option Nat)) : List (Option Nat) :=
  taken.map (·.bind fun p => ts[p]?.map Located.line)

/-- Taking a tag of a name takes one tag of that name away. -/
lemma take?_eq_some {name : Text} {ts r : List (Located Text)} {n : Nat}
    (h : take? name ts = some (n, r)) :
    ∃ q t, ts[q]? = some t ∧ t.value = name ∧ t.line = n ∧ r = ts.eraseIdx q := by
  induction ts generalizing r with
  | nil => simp [take?] at h
  | cons t ts ih =>
    rw [take?] at h
    split at h
    · rename_i hname
      obtain ⟨rfl, rfl⟩ := Prod.mk.inj (Option.some.inj h)
      exact ⟨0, t, rfl, hname, rfl, rfl⟩
    · obtain ⟨⟨m, r'⟩, hr, heq⟩ := Option.map_eq_some_iff.mp h
      obtain ⟨rfl, rfl⟩ := Prod.mk.inj heq
      obtain ⟨q, u, hu, hvalue, hline, rfl⟩ := ih hr
      exact ⟨q + 1, u, by simpa using hu, hvalue, hline, rfl⟩

lemma take?_eq_none {name : Text} {ts : List (Located Text)} (h : take? name ts = none) :
    ∀ t ∈ ts, t.value ≠ name := by
  induction ts with
  | nil => simp
  | cons t ts ih =>
    rw [take?] at h
    split at h
    · simp at h
    · rename_i hname
      rw [Option.map_eq_none_iff] at h
      simpa [hname] using ih h

/-- Where a position of a list lies in the list before an element was taken from position `q`. -/
def shift (q p : Nat) : Nat := if p < q then p else p + 1

lemma shift_ne (q p : Nat) : shift q p ≠ q := by
  unfold shift
  split <;> omega

lemma shift_injective {q p p' : Nat} (h : shift q p = shift q p') : p = p' := by
  unfold shift at h
  split at h <;> split at h <;> omega

lemma exists_shift {q p : Nat} (h : p ≠ q) : ∃ p', shift q p' = p := by
  rcases Nat.lt_or_gt_of_ne h with hlt | hgt
  · exact ⟨p, if_pos hlt⟩
  · refine ⟨p - 1, ?_⟩
    unfold shift
    rw [if_neg (by omega)]
    omega

lemma getElem?_eraseIdx_shift (ts : List (Located Text)) (q p : Nat) :
    (ts.eraseIdx q)[p]? = ts[shift q p]? := by
  rw [List.getElem?_eraseIdx, shift]
  split <;> rfl

variable {names : List Text} {name : Text} {ts : List (Located Text)} {taken : List (Option Nat)}

/-- What was chosen from the tags that are left, and the tag that was taken before. -/
lemma Matching.cons_some {q : Nat} {t : Located Text} (ht : ts[q]? = some t) (hname : t.value = name)
    (h : Matching names (ts.eraseIdx q) taken) :
    Matching (name :: names) ts (some q :: taken.map (·.map (shift q))) where
  length := by simp [h.length]
  named i p hp := by
    rcases i with _ | i
    · obtain rfl : q = p := by simpa using hp
      exact ⟨t, ht, by simp [hname]⟩
    · obtain ⟨p', hp', rfl⟩ : ∃ p', taken[i]? = some (some p') ∧ shift q p' = p := by
        simpa using hp
      obtain ⟨u, hu, hvalue⟩ := h.named i p' hp'
      rw [getElem?_eraseIdx_shift] at hu
      exact ⟨u, hu, hvalue⟩
  once i i' p hp hp' := by
    rcases i with _ | i <;> rcases i' with _ | i'
    · rfl
    · obtain rfl : q = p := by simpa using hp
      obtain ⟨p₁, -, hp₁⟩ : ∃ p₁, taken[i']? = some (some p₁) ∧ shift q p₁ = q := by simpa using hp'
      exact absurd hp₁ (shift_ne q p₁)
    · obtain rfl : q = p := by simpa using hp'
      obtain ⟨p₁, -, hp₁⟩ : ∃ p₁, taken[i]? = some (some p₁) ∧ shift q p₁ = q := by simpa using hp
      exact absurd hp₁ (shift_ne q p₁)
    · obtain ⟨p₁, hp₁, rfl⟩ : ∃ p₁, taken[i]? = some (some p₁) ∧ shift q p₁ = p := by
        simpa using hp
      obtain ⟨p₂, hp₂, heq⟩ : ∃ p₂, taken[i']? = some (some p₂) ∧ shift q p₂ = shift q p₁ := by
        simpa using hp'
      obtain rfl := shift_injective heq
      rw [h.once i i' p₂ hp₁ hp₂]
  spent i hi p u hu hvalue := by
    rcases i with _ | i
    · simp at hi
    · have hi' : taken[i]? = some none := by simpa using hi
      by_cases hpq : p = q
      · exact ⟨0, by omega, by simp [hpq]⟩
      · obtain ⟨p', rfl⟩ := exists_shift hpq
        rw [← getElem?_eraseIdx_shift] at hu
        obtain ⟨i', hlt, htaken⟩ := h.spent i hi' p' u hu (by simpa using hvalue)
        exact ⟨i' + 1, by omega, by simp [htaken]⟩

/-- A name that no tag has takes none. -/
lemma Matching.cons_none (hname : ∀ t ∈ ts, t.value ≠ name) (h : Matching names ts taken) :
    Matching (name :: names) ts (none :: taken) where
  length := by simp [h.length]
  named i p hp := by
    rcases i with _ | i
    · simp at hp
    · simpa using h.named i p (by simpa using hp)
  once i i' p hp hp' := by
    rcases i with _ | i <;> rcases i' with _ | i'
    · rfl
    · simp at hp
    · simp at hp'
    · rw [h.once i i' p (by simpa using hp) (by simpa using hp')]
  spent i hi p u hu hvalue := by
    rcases i with _ | i
    · have hne := hname u (List.mem_of_getElem? hu)
      simp [hne.symm] at hvalue
    · obtain ⟨i', hlt, htaken⟩ := h.spent i (by simpa using hi) p u hu (by simpa using hvalue)
      exact ⟨i' + 1, by omega, by simpa using htaken⟩

/-- **The lines of names are those of a matching.** -/
lemma exists_matching (names : List Text) (ts : List (Located Text)) :
    ∃ taken, Matching names ts taken ∧ assign names ts = linesAt ts taken := by
  induction names generalizing ts with
  | nil => exact ⟨[], ⟨rfl, by simp, by simp, by simp⟩, rfl⟩
  | cons name names ih =>
    rcases htake : take? name ts with _ | ⟨n, r⟩
    · obtain ⟨taken, hmatch, hlines⟩ := ih ts
      refine ⟨none :: taken, hmatch.cons_none (take?_eq_none htake), ?_⟩
      rw [assign, htake, linesAt, List.map_cons]
      simp only [hlines]
      rfl
    · obtain ⟨q, t, ht, hvalue, rfl, rfl⟩ := take?_eq_some htake
      obtain ⟨taken, hmatch, hlines⟩ := ih (ts.eraseIdx q)
      refine ⟨_, hmatch.cons_some ht hvalue, ?_⟩
      have hshift : linesAt (ts.eraseIdx q) taken = linesAt ts (taken.map (·.map (shift q))) := by
        rw [linesAt, linesAt, List.map_map]
        refine List.map_congr_left fun o _ => ?_
        cases o with
        | none => rfl
        | some p => simp [getElem?_eraseIdx_shift]
      rw [assign, htake, linesAt, List.map_cons]
      simp only [hlines, hshift, Option.bind_some, ht, Option.map_some]
      rfl

/-- Names that are those of the tags, in their order, get the lines of the tags. -/
lemma assign_values (ts : List (Located Text)) :
    assign (ts.map Located.value) ts = ts.map (some ∘ Located.line) := by
  induction ts with
  | nil => rfl
  | cons t ts ih =>
    have htake : take? t.value (t :: ts) = some (t.line, ts) := by rw [take?, if_pos rfl]
    rw [List.map_cons, assign, htake, List.map_cons]
    simp only [ih]
    rfl

end Source

namespace Locate

lemma map_raw_tags (fr : Frame) (names : List Text) (k : Nat) :
    (tags fr names k).map Tag.raw = names.map (some ∘ Json.text) := by
  have hlen := length_assign (names.map tagName) (fr.source.tagsAbove k)
  rw [List.length_map] at hlen
  rw [tags, List.map_map]
  change (names.zip _).map ((some ∘ Json.text) ∘ Prod.fst) = _
  rw [← List.map_map, List.map_fst_zip hlen.ge]

/-- In a text without a shell every line counts as it is. -/
lemma map_line_tags (s : Source) (names : List Text) (k : Nat) :
    (tags ⟨s, 0⟩ names k).map Tag.line = Source.assign (names.map tagName) (s.tagsAbove k) := by
  have hlen := length_assign (names.map tagName) (s.tagsAbove k)
  rw [List.length_map] at hlen
  rw [tags, List.map_map]
  change (names.zip _).map ((fun o => Option.bind o (Frame.relative ⟨s, 0⟩)) ∘ Prod.snd) = _
  rw [← List.map_map, List.map_snd_zip hlen.le]
  conv_rhs => rw [← List.map_id (Source.assign _ _)]
  refine List.map_congr_left fun o ho => ?_
  cases o with
  | none => rfl
  | some n =>
    obtain ⟨t, ht, rfl⟩ := Source.exists_of_mem_assign ho
    have hpos : 0 < t.line := (Source.line_of_mem_tagsAbove ht).1
    simp [Frame.relative, hpos]

/-- **Tags are located exactly, and none is used twice.** The tags above a keyword are, from the
top down, the words with an at sign before a comment, on the lines below the last one that is
neither blank nor a comment nor starts with a tag. Every name of a tree becomes one tag, in order;
each takes a located tag of its name that no other takes, and has no line only if names before it
took all of them. Names that are those of the located tags get their lines one by one. -/
theorem tags_located_once (s : Source) (k : Nat) (hk : k - 1 ≤ s.lineCount) :
    s.tagsAbove k = ((List.Ico (s.barAbove k + 1) k).flatMap fun n =>
        (s.line? n).toList.flatMap fun l => (Source.tagTokens l).map (⟨n, ·⟩))
      ∧ ∀ names : List Text,
        (tags ⟨s, 0⟩ names k).map Tag.name = names.map tagName
        ∧ (tags ⟨s, 0⟩ names k).map Tag.raw = names.map (some ∘ Json.text)
        ∧ (∃ taken, Source.Matching (names.map tagName) (s.tagsAbove k) taken
          ∧ (tags ⟨s, 0⟩ names k).map Tag.line = Source.linesAt (s.tagsAbove k) taken)
        ∧ (names.map tagName = (s.tagsAbove k).map Located.value →
          (tags ⟨s, 0⟩ names k).map Tag.line = (s.tagsAbove k).map (some ∘ Located.line)) := by
  refine ⟨Source.tagsAbove_eq hk, fun names => ⟨map_name_tags _ _ _, map_raw_tags _ _ _, ?_, ?_⟩⟩
  · obtain ⟨taken, hmatch, hlines⟩ :=
      Source.exists_matching (names.map tagName) (s.tagsAbove k)
    exact ⟨taken, hmatch, (map_line_tags s names k).trans hlines⟩
  · intro hnames
    rw [map_line_tags, hnames, Source.assign_values]

/-- Two lines of tags with a tag that is repeated, a comment that holds another and a blank line. -/
theorem tags_located_once_repeated :
    let s := Source.ofText "Given x\n@a @b # @no\n# @c\n\n@b\nScenario: y\n".toList
    6 - 1 ≤ s.lineCount
      ∧ s.tagsAbove 6 = [⟨2, "@a".toList⟩, ⟨2, "@b".toList⟩, ⟨5, "@b".toList⟩]
      ∧ (tags ⟨s, 0⟩ ["a".toList, "b".toList, "b".toList] 6).map Tag.line
        = [some 2, some 2, some 5] := by
  intro s
  have hk : 6 - 1 ≤ s.lineCount := by decide
  have htags : s.tagsAbove 6 = [⟨2, "@a".toList⟩, ⟨2, "@b".toList⟩, ⟨5, "@b".toList⟩] := by decide
  refine ⟨hk, htags, ?_⟩
  have hnames : ["a".toList, "b".toList, "b".toList].map tagName
      = (s.tagsAbove 6).map Located.value := by
    rw [htags]
    decide
  rw [((tags_located_once s 6 hk).2 _).2.2.2 hnames, htags]
  rfl

end Locate

end FeatureTree
