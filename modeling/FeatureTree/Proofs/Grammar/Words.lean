import FeatureTree.Proofs.Grammar.Lexical

/-!
Words that start a text.

A rule that looks for a keyword finds none if the text starts with a word that is apart from all its
keywords, and finds the one that is there if none of its keywords starts another.
-/

namespace FeatureTree.Grammar

open Text

variable {ws vs : List String} {l t : Text}

/-! ### Texts at a word -/

/-- Whether layout rules stop before a word. -/
def isWord (w : String) : Bool :=
  w.toList.head?.any fun c => !([' ', '\t', '#', '\n', '\r'].contains c)

lemma isWord_ne_nil {w : String} (h : isWord w = true) : w.toList ≠ [] := by
  intro hn
  simp [isWord, hn] at h

/-- The text is at its end or starts with one of some words. -/
def Starts (ws : List String) (t : Text) : Prop := t = [] ∨ ∃ w ∈ ws, w.toList <+: t

lemma Starts.mono (h : Starts ws t) (hsub : ∀ w ∈ ws, ∃ v ∈ vs, v.toList <+: w.toList) :
    Starts vs t := by
  rcases h with rfl | ⟨w, hw, hwt⟩
  · exact .inl rfl
  · obtain ⟨v, hv, hvw⟩ := hsub w hw
    exact .inr ⟨v, hv, hvw.trans hwt⟩

lemma Starts.of_subset (h : Starts ws t) (hsub : ws ⊆ vs) : Starts vs t :=
  h.mono fun w hw => ⟨w, hsub hw, List.prefix_rfl⟩

lemma Starts.atWord (h : Starts ws t) (hws : ∀ w ∈ ws, isWord w = true) : AtWord t := by
  rcases h with rfl | ⟨w, hw, r, rfl⟩
  · exact atWord_nil
  · have := hws w hw
    rcases hc : w.toList with _ | ⟨c, u⟩
    · simp [isWord, hc] at this
    · simp only [isWord, hc, List.head?_cons, Option.any_some, List.contains_cons,
        List.contains_nil, Bool.or_false, Bool.not_or, Bool.and_eq_true, Bool.not_eq_true',
        beq_eq_false_iff_ne] at this
      obtain ⟨h₁, h₂, h₃, h₄, h₅⟩ := this
      constructor
      · rintro d hd
        obtain rfl : c = d := by simpa using hd
        exact ⟨h₁, h₂, h₃⟩
      · exact newline?_cons_of_ne h₄ fun h => absurd h h₅

/-! ### Words that are not there -/

/-- No word of a list is the start of a text, or starts with it. -/
def Free (ws : List String) (t : Text) : Prop := ∀ w ∈ ws, ¬ w.toList <+: t ∧ ¬ t <+: w.toList

instance (ws : List String) (t : Text) : Decidable (Free ws t) := by unfold Free; infer_instance

lemma Free.absent {u : Text} (h : Free ws u) (hu : u <+: t) : ∀ w ∈ ws, ¬ w.toList <+: t :=
  fun w hw hp => (List.prefix_or_prefix_of_prefix hp hu).elim (h w hw).1 (h w hw).2

/-- No word of one list is the start of a word of the other. -/
def Apart (ws vs : List String) : Prop := ∀ v ∈ vs, Free ws v.toList

instance (ws vs : List String) : Decidable (Apart ws vs) := by unfold Apart; infer_instance

lemma Starts.absent (h : Starts vs t) (ha : Apart ws vs) (hne : ∀ w ∈ ws, w.toList ≠ []) :
    ∀ w ∈ ws, ¬ w.toList <+: t := by
  rcases h with rfl | ⟨v, hv, hvt⟩
  · exact fun w hw hp => hne w hw (List.prefix_nil.mp hp)
  · exact (ha v hv).absent hvt

lemma Starts.keyword?_eq_none (h : Starts vs t) (hat : AtWord t) (ha : Apart ws vs)
    (hws : ∀ w ∈ ws, isWord w = true) : keyword? ws t = none :=
  hat.keyword?_eq_none_iff.mpr (h.absent ha fun w hw => isWord_ne_nil (hws w hw))

/-! ### Words that are there -/

/-- No word of a list is the start of another one. -/
def Clear (ws : List String) : Prop :=
  ∀ v ∈ ws.map String.toList, ∀ w ∈ ws.map String.toList, v <+: w → v = w

instance (ws : List String) : Decidable (Clear ws) := by unfold Clear; infer_instance

/-- The keyword that is there is read. -/
lemma keyword?_of_mem {w r : Text} (hc : Clear ws) (hw : w ∈ ws.map String.toList)
    (hat : AtWord (w ++ r)) : keyword? ws (w ++ r) = some (w, r) := by
  obtain ⟨before, after, hws, hnot⟩ := List.eq_append_cons_of_mem hw
  refine hat.keyword?_eq_some hws fun v hv hp => ?_
  have hvmem : v ∈ ws.map String.toList := by rw [hws]; simp [hv]
  rcases List.prefix_or_prefix_of_prefix hp (List.prefix_append w r) with h | h
  · exact hnot (hc v hvmem w hw h ▸ hv)
  · exact hnot (hc w hw v hvmem h ▸ hv)

/-! ### Words that lead a line -/

/-- Whether a line starts with neither a blank nor a comment, is no row and opens no fence. -/
def isLead (l : Text) : Bool :=
  l.head?.any fun c => !isBlank c && !(['#', '|', '"', '\x60'].contains c)

lemma isLead_append (h : isLead l = true) (r : Text) : isLead (l ++ r) = true := by
  cases l with
  | nil => simp [isLead] at h
  | cons c l => exact h

lemma exists_of_isLead (h : isLead l = true) :
    ∃ c t, l = c :: t ∧ isBlank c = false ∧ c ≠ '#' ∧ c ≠ '|' ∧ c ≠ '"' ∧ c ≠ '\x60' := by
  cases l with
  | nil => simp [isLead] at h
  | cons c t =>
    simp only [isLead, List.head?_cons, Option.any_some, List.contains_cons, List.contains_nil,
      Bool.or_false, Bool.not_or, Bool.and_eq_true, Bool.not_eq_true', beq_eq_false_iff_ne] at h
    exact ⟨c, t, rfl, h.1, h.2.1, h.2.2.1, h.2.2.2.1, h.2.2.2.2⟩

/-- Words that can lead a keyword line. -/
def Leading (ws : List String) : Prop :=
  ∀ w ∈ ws.map String.toList, isLead w = true ∧ '\n' ∉ w ∧ w.head? ≠ some '@' ∧ trim w = w

instance (ws : List String) : Decidable (Leading ws) := by unfold Leading; infer_instance

/-- No keyword is read at the end of a text. -/
lemma keyword?_nil (h : Leading ws) : keyword? ws [] = none := by
  refine atWord_nil.keyword?_eq_none_iff.mpr fun w hw hp => ?_
  have := (h _ (List.mem_map_of_mem hw)).1
  simp [isLead, List.prefix_nil.mp hp] at this

lemma Leading.append (h : Leading ws) (h' : Leading vs) : Leading (ws ++ vs) := by
  intro w hw
  rw [List.map_append, List.mem_append] at hw
  exact hw.elim (h w) (h' w)

end FeatureTree.Grammar
