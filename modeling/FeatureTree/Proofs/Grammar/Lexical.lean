import Mathlib.Data.List.TakeDrop
import FeatureTree.Grammar.Lexical
import FeatureTree.Proofs.Text.Lines

/-!
How the lexical rules read lines.

A text is at a word if it is at its end or if the layout rules pass over nothing there. A solid
line is one that the grammar reads as a whole: it starts with a word, and only its newline ends it.
-/

namespace FeatureTree.Grammar

open Text

/-! ### Repetition -/

lemma repeated_of_none {f : Text → Option Text} {t : Text} (h : f t = none) : repeated f t = t := by
  rw [repeated, h]

lemma repeated_of_some {f : Text → Option Text} {t r : Text} (h : f t = some r)
    (hlt : r.length < t.length) : repeated f t = repeated f r := by
  rw [repeated, h]
  exact if_pos hlt

lemma length_repeated_le {f : Text → Option Text}
    (hf : ∀ t r, f t = some r → r.length ≤ t.length) (t : Text) :
    (repeated f t).length ≤ t.length := by
  induction hn : t.length using Nat.strongRecOn generalizing t with
  | ind n ih =>
    rw [repeated]
    rcases hft : f t with _ | r
    · exact hn.le
    · have hle := hf t r hft
      by_cases hlt : r.length < t.length
      · have := ih r.length (by omega) r rfl
        simp only [hlt, if_true]
        omega
      · simp only [hlt, if_false]
        omega

/-! ### Spaces and ends of lines -/

lemma exists_spaces (t : Text) : ∃ a, (∀ c ∈ a, isSpace c = true) ∧ t = a ++ skipSpaces t :=
  ⟨t.takeWhile isSpace, fun _ hc => List.mem_takeWhile_imp hc,
    List.takeWhile_append_dropWhile.symm⟩

@[simp] lemma newline?_newline (t : Text) : newline? ('\n' :: t) = some t := rfl

lemma newline?_cons_of_ne {c : Char} {t : Text} (hn : c ≠ '\n') (hr : c = '\r' → t.head? ≠ some '\n') :
    newline? (c :: t) = none := by
  unfold newline?
  split
  · rename_i h
    exact absurd (List.cons.inj h).1 hn
  · rename_i h
    obtain ⟨rfl, rfl⟩ := List.cons.inj h
    exact absurd rfl (hr rfl)
  · rfl

/-- A line of content is not at its end before its last character. -/
lemma newline?_line {l : Text} (hne : l ≠ []) (hn : '\n' ∉ l) (hr : l.getLast? ≠ some '\r')
    (t : Text) : newline? (l ++ t) = none := by
  rcases l with _ | ⟨c, l⟩
  · exact absurd rfl hne
  · rw [List.cons_append]
    refine newline?_cons_of_ne (fun h => hn (by simp [h])) fun h => ?_
    rcases l with _ | ⟨d, l⟩
    · exact absurd (by simp [h]) hr
    · intro hd
      exact hn (by simp_all)

lemma length_newline? {t r : Text} (h : newline? t = some r) : r.length < t.length := by
  unfold newline? at h
  split at h
  · rw [← Option.some.inj h, List.length_cons]
    omega
  · rw [← Option.some.inj h, List.length_cons, List.length_cons]
    omega
  · simp at h

/-- The rest of a line is all of it up to the newline. -/
lemma restOfLine_line {l : Text} (hn : '\n' ∉ l) (hr : l.getLast? ≠ some '\r') (t : Text) :
    restOfLine (l ++ '\n' :: t) = (l, '\n' :: t) := by
  induction l with
  | nil => simp [restOfLine]
  | cons c l ih =>
    have hnl := newline?_line (by simp) hn hr ('\n' :: t)
    have hl : restOfLine (l ++ '\n' :: t) = (l, '\n' :: t) := by
      refine ih (fun h => hn (by simp [h])) ?_
      rcases l with _ | ⟨d, l⟩
      · simp
      · simpa using hr
    rw [List.cons_append] at hnl ⊢
    rw [restOfLine, hnl, hl]
    rfl

/-- Only a carriage return may stand between the rest of a line and the newline. -/
lemma exists_restOfLine_line {l r : Text} (hn : '\n' ∉ l) (hr : StartsAtEnd r) :
    ∃ e, (e = [] ∨ e = ['\r']) ∧ l = (restOfLine (l ++ r)).1 ++ e := by
  induction l with
  | nil =>
    refine ⟨[], .inl rfl, ?_⟩
    rcases hr with rfl | hr
    · rfl
    · obtain ⟨u, rfl⟩ := List.head?_eq_some_iff.mp hr
      simp [restOfLine]
  | cons c l ih =>
    simp only [List.mem_cons, not_or] at hn
    obtain ⟨e, he, hl⟩ := ih hn.2
    rw [List.cons_append, restOfLine]
    split
    · -- the line goes on with a newline, so that only `c` is left of it
      rename_i hnl
      have hreturn : c = '\r' ∧ (l ++ r).head? = some '\n' := by
        by_contra hc
        rw [newline?_cons_of_ne (Ne.symm hn.1) fun h hd => hc ⟨h, hd⟩] at hnl
        simp at hnl
      obtain ⟨rfl, hhead⟩ := hreturn
      rcases l with _ | ⟨d, l⟩
      · exact ⟨['\r'], .inr rfl, rfl⟩
      · obtain rfl : d = '\n' := by simpa using hhead
        simp at hn
    · exact ⟨e, he, by rw [List.cons_append, ← hl]⟩

/-- A line ends before a newline or where the text ends. -/
lemma restOfLine_end (t : Text) :
    (restOfLine t).2 = [] ∨ (newline? (restOfLine t).2).isSome = true := by
  induction t with
  | nil => exact .inl rfl
  | cons c t ih =>
    rw [restOfLine]
    split
    · rename_i h
      exact .inr h
    · exact ih

/-- The rest of a line is found from any place on the line. -/
lemma restOfLine_of_append {a y r : Text} (h : restOfLine (a ++ y ++ r) = (a ++ y, r)) :
    restOfLine (y ++ r) = (y, r) := by
  induction a with
  | nil => exact h
  | cons c a ih =>
    apply ih
    rw [List.cons_append, List.cons_append, restOfLine] at h
    split at h
    · simp at h
    · obtain ⟨h₁, h₂⟩ := Prod.mk.inj h
      exact Prod.ext (List.cons.inj h₁).2 h₂

lemma newline_not_mem_restOfLine (t : Text) : '\n' ∉ (restOfLine t).1 := by
  induction t with
  | nil => simp [restOfLine]
  | cons c t ih =>
    rw [restOfLine]
    split
    · simp
    · rename_i h
      have hc : c ≠ '\n' := by
        rintro rfl
        simp at h
      simp [Ne.symm hc, ih]

lemma lineText?_line {l : Text} (hne : l ≠ []) (hn : '\n' ∉ l) (hr : l.getLast? ≠ some '\r')
    (t : Text) : lineText? (l ++ '\n' :: t) = some (l, '\n' :: t) := by
  rw [lineText?, restOfLine_line hn hr]
  rcases l with _ | ⟨c, l⟩
  · exact absurd rfl hne
  · rfl

@[simp] lemma lineText?_newline (t : Text) : lineText? ('\n' :: t) = none := by
  simp [lineText?, restOfLine]

@[simp] lemma lineText?_nil : lineText? [] = none := rfl

lemma newline_not_mem_of_lineText? {t l r : Text} (h : lineText? t = some (l, r)) : '\n' ∉ l := by
  have := newline_not_mem_restOfLine t
  unfold lineText? at h
  split at h
  · simp at h
  · rw [Option.some.inj h] at this
    exact this

/-! ### Layout -/

/-- Whether layout rules pass over nothing: neither spaces nor a comment nor a line end. -/
structure AtWord (t : Text) : Prop where
  start : ∀ c, t.head? = some c → c ≠ ' ' ∧ c ≠ '\t' ∧ c ≠ '#'
  newline : newline? t = none

lemma atWord_nil : AtWord [] := ⟨by simp, rfl⟩

variable {t : Text}

lemma AtWord.skipSpaces (h : AtWord t) : skipSpaces t = t := by
  rcases t with _ | ⟨c, t⟩
  · rfl
  · have := h.start c rfl
    simp [Grammar.skipSpaces, isSpace, this]

lemma AtWord.commentText? (h : AtWord t) : commentText? t = none := by
  rw [Grammar.commentText?, h.skipSpaces]
  split
  · rename_i hs
    exact absurd rfl (h.start _ rfl).2.2
  · rfl

lemma AtWord.lineEnd? (h : AtWord t) : lineEnd? t = none := by
  rw [Grammar.lineEnd?, h.commentText?]
  exact h.newline

lemma AtWord.space? (h : AtWord t) : space? t = none := by
  rcases t with _ | ⟨c, t⟩
  · rfl
  · have := h.start c rfl
    simp [Grammar.space?, isSpace, this]

lemma AtWord.skipLayout (h : AtWord t) : skipLayout t = t :=
  repeated_of_none (by simp [h.lineEnd?, h.space?])

lemma AtWord.skipLineEnds (h : AtWord t) : skipLineEnds t = t := repeated_of_none h.lineEnd?

lemma AtWord.skipComments (h : AtWord t) : skipComments t = t :=
  repeated_of_none (by simp [comment?, h.commentText?])

lemma length_restOfLine (t : Text) : (restOfLine t).2.length ≤ t.length := by
  have := congrArg List.length (restOfLine_append t)
  simp only [List.length_append] at this
  omega

lemma length_commentText? {t r : Text} (h : commentText? t = some r) : r.length ≤ t.length := by
  have hle : (skipSpaces t).length ≤ t.length := List.length_dropWhile_le _ _
  unfold commentText? at h
  split at h
  · rename_i u hu
    have hlen := congrArg List.length hu
    have := length_restOfLine u
    rw [← Option.some.inj h]
    simp only [List.length_cons] at hlen
    omega
  · simp at h

lemma length_lineEnd? {t r : Text} (h : lineEnd? t = some r) : r.length < t.length := by
  have hlt := length_newline? h
  rcases hc : commentText? t with _ | u
  · rwa [hc] at hlt
  · have hle := length_commentText? hc
    rw [hc, Option.getD_some] at hlt
    omega

lemma length_space? {t r : Text} (h : space? t = some r) : r.length < t.length := by
  rcases t with _ | ⟨c, t⟩
  · simp [space?] at h
  · rw [space?] at h
    split at h
    · rw [← Option.some.inj h]
      simp
    · simp at h

lemma length_skipLayout (t : Text) : (skipLayout t).length ≤ t.length := by
  refine length_repeated_le (fun t r h => ?_) t
  rcases hl : lineEnd? t with _ | u
  · exact (length_space? (by simpa [hl] using h)).le
  · obtain rfl : u = r := by simpa [hl] using h
    exact (length_lineEnd? hl).le

@[simp] lemma lineEnd?_newline (t : Text) : lineEnd? ('\n' :: t) = some t := rfl

@[simp] lemma skipLayout_newline (t : Text) : skipLayout ('\n' :: t) = skipLayout t :=
  repeated_of_some (by simp) (by simp)

@[simp] lemma skipLayout_nil : skipLayout [] = [] := atWord_nil.skipLayout

lemma layout?_newline (t : Text) : layout? ('\n' :: t) = some (skipLayout t) := by
  have := length_skipLayout t
  have hlt : (skipLayout t).length < t.length + 1 := by omega
  simp [layout?, hlt]

/-- Spaces before a word are passed over. -/
lemma skipLayout_spaces (n : Nat) (h : AtWord t) :
    skipLayout (List.replicate n ' ' ++ t) = t := by
  induction n with
  | zero => exact h.skipLayout
  | succ n ih =>
    have hs : skipSpaces (' ' :: (List.replicate n ' ' ++ t)) = t := by
      rw [← List.cons_append, ← List.replicate_succ, skipSpaces,
        List.dropWhile_append_of_pos (by simp [isSpace])]
      exact h.skipSpaces
    have hc : commentText? (' ' :: (List.replicate n ' ' ++ t)) = none := by
      rw [commentText?, hs]
      split
      · exact absurd rfl (h.start _ rfl).2.2
      · rfl
    rw [List.replicate_succ, List.cons_append]
    refine (repeated_of_some ?_ (by simp)).trans ih
    simp [lineEnd?, hc, newline?, space?, isSpace]

/-! ### Solid lines -/

/-- A line that starts with a word and that only its newline ends. -/
structure Solid (l : Text) : Prop where
  ne_nil : l ≠ []
  newline : '\n' ∉ l
  last : l.getLast? ≠ some '\r'
  start : ∀ c, l.head? = some c → c ≠ ' ' ∧ c ≠ '\t' ∧ c ≠ '#'

variable {l : Text}

lemma Solid.atWord (h : Solid l) (t : Text) : AtWord (l ++ '\n' :: t) where
  start c hc := by
    rcases l with _ | ⟨d, l⟩
    · exact absurd rfl h.ne_nil
    · exact h.start c (by simpa using hc)
  newline := newline?_line h.ne_nil h.newline h.last _

lemma Solid.lineText? (h : Solid l) (t : Text) :
    lineText? (l ++ '\n' :: t) = some (l, '\n' :: t) :=
  lineText?_line h.ne_nil h.newline h.last t

/-- Layout before a solid line: the blanks in front of it. -/
lemma Solid.skipLayout_indentLine (h : Solid l) (k : Nat) (t : Text) :
    skipLayout (indentLine k l ++ '\n' :: t) = l ++ '\n' :: t := by
  rw [indentLine_of_ne_nil k h.ne_nil, List.append_assoc]
  exact skipLayout_spaces _ (h.atWord t)

/-- A trimmed line that does not start a comment is solid. -/
lemma solid_of_trim {l : Text} (hne : l ≠ []) (hn : '\n' ∉ l) (ht : trim l = l)
    (hc : l.head? ≠ some '#') : Solid l where
  ne_nil := hne
  newline := hn
  last := getLast?_ne_return_of_trimEnd (trimEnd_eq_self_of_trim ht)
  start c h := by
    have := trimStart_eq_self_iff.mp (trimStart_eq_self_of_trim ht) c h
    refine ⟨?_, ?_, fun e => hc (e ▸ h)⟩ <;> rintro rfl <;> simp at this

/-! ### Keywords and tags -/

lemma afterWord?_append (w t : Text) : afterWord? w (w ++ t) = some t :=
  afterWord?_eq_some_iff.mpr rfl

lemma afterWord?_eq_none_iff {w t : Text} : afterWord? w t = none ↔ ¬ w <+: t := by
  constructor
  · rintro h ⟨r, rfl⟩
    simp [afterWord?_append] at h
  · intro h
    rcases hw : afterWord? w t with _ | r
    · rfl
    · exact absurd ⟨r, (afterWord?_eq_some_iff.mp hw).symm⟩ h

lemma AtWord.keyword?_eq_none_iff (h : AtWord t) {ws : List String} :
    keyword? ws t = none ↔ ∀ w ∈ ws, ¬ w.toList <+: t := by
  rw [keyword?, h.skipComments]
  simp [afterWord?_eq_none_iff]

/-- A keyword is read if no keyword before it on the list is there instead. -/
lemma AtWord.keyword?_eq_some {w r : Text} (h : AtWord (w ++ r)) {ws : List String}
    {before after : List Text} (hws : ws.map String.toList = before ++ w :: after)
    (hb : ∀ v ∈ before, ¬ v <+: w ++ r) : keyword? ws (w ++ r) = some (w, r) := by
  have hmap : keyword? ws (w ++ r)
      = (ws.map String.toList).findSome? fun v => (afterWord? v (w ++ r)).map (v, ·) := by
    rw [keyword?, h.skipComments, List.findSome?_map]
    rfl
  have hnone : before.findSome? (fun v => (afterWord? v (w ++ r)).map (v, ·)) = none := by
    simp only [List.findSome?_eq_none_iff, Option.map_eq_none_iff, afterWord?_eq_none_iff]
    exact hb
  rw [hmap, hws, List.findSome?_append, hnone, List.findSome?_cons, afterWord?_append]
  rfl

/-- A name that a tag can have. -/
def TagWord (w : Text) : Prop := w ≠ [] ∧ ∀ c ∈ w, isBlank c = false ∧ c ≠ '@'

/-- A tag ends before a blank. -/
lemma tag?_append {w r : Text} (hw : TagWord w)
    (hr : ∀ c, r.head? = some c → isBlank c = true) : tag? ('@' :: (w ++ r)) = some (w, r) := by
  have hp : ∀ c ∈ w, (!(isBlank c || c == '@')) = true := by
    intro c hc
    obtain ⟨h₁, h₂⟩ := hw.2 c hc
    simp [h₁, h₂]
  have hrest : r.dropWhile (fun c => !(isBlank c || c == '@')) = r ∧
      r.takeWhile (fun c => !(isBlank c || c == '@')) = [] := by
    rcases r with _ | ⟨c, r⟩
    · simp
    · have := hr c rfl
      simp [this]
  have hspan : (w ++ r).span (fun c => !(isBlank c || c == '@')) = (w, r) := by
    rw [List.span_eq_takeWhile_dropWhile, List.takeWhile_append_of_pos hp,
      List.dropWhile_append_of_pos hp, hrest.1, hrest.2, List.append_nil]
  rw [tag?, hspan]
  split
  · rename_i h
    exact absurd (congrArg Prod.fst h) hw.1
  · rfl

lemma tagWord_of_tag? {t w r : Text} (h : tag? t = some (w, r)) : TagWord w := by
  unfold tag? at h
  split at h
  · rename_i u
    rw [List.span_eq_takeWhile_dropWhile] at h
    split at h
    · simp at h
    · rename_i hne
      obtain ⟨rfl, -⟩ := Prod.mk.inj (Option.some.inj h)
      refine ⟨fun hw => hne _ (by rw [hw]), fun c hc => ?_⟩
      simpa using List.mem_takeWhile_imp hc
  · simp at h

end FeatureTree.Grammar
