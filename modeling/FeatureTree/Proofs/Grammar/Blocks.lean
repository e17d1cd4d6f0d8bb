import FeatureTree.Markup.Fence
import FeatureTree.Proofs.Grammar.Lexical
import FeatureTree.Proofs.Markup.Masked

/-!
How the lexical rules read rows and doc strings.

A row has a cell for every pipe after its first one, as long as it ends in a pipe. A doc string
ends at the first mark that no comment hides.
-/

namespace FeatureTree.Grammar

open Text

/-! ### Rows -/

lemma cellText_append {a : Text} (hp : '|' ∉ a) (hn : '\n' ∉ a) (u : Text) :
    cellText (a ++ '|' :: u) = (a, '|' :: u) := by
  induction a with
  | nil => simp [cellText]
  | cons c a ih =>
    simp only [List.mem_cons, not_or] at hp hn
    have hnl : newline? (c :: (a ++ '|' :: u)) = none := by
      have := newline?_line (l := (c :: a) ++ ['|']) (by simp) (by simp [hn])
        (by rw [List.getLast?_concat]; simp) u
      simpa using this
    rw [List.cons_append, cellText, hnl, ih hp.2 hn.2]
    simp [Ne.symm hp.1]

/-- A cell without a pipe after it goes on to the end of the line. -/
lemma cellText_of_not_mem {t y r : Text} (h : restOfLine t = (y, r)) (hp : '|' ∉ y) :
    cellText t = (y, r) := by
  induction t generalizing y with
  | nil => exact h
  | cons c t ih =>
    rw [restOfLine] at h
    rw [cellText]
    split at h
    · rename_i hn
      rw [if_pos (by simp [hn]), h]
    · rename_i hn
      obtain ⟨rfl, rfl⟩ := Prod.mk.inj h
      simp only [List.mem_cons, not_or] at hp
      rw [if_neg (by simp [hn, Ne.symm hp.1]), ih rfl hp.2]

lemma skipSpaces_append {a : Text} (t : Text) {c : Char} (hc : isSpace c = false) :
    skipSpaces (a ++ c :: t) = skipSpaces a ++ c :: t := by
  rw [skipSpaces, skipSpaces, List.dropWhile_append]
  split
  · rename_i h
    simp [List.isEmpty_iff.mp h, hc]
  · rfl

lemma skipSpaces_of_trimStart {a : Text} (hne : a ≠ []) (h : trimStart a = a) (t : Text) :
    skipSpaces (a ++ t) = a ++ t := by
  obtain ⟨c, a, rfl⟩ := List.exists_cons_of_ne_nil hne
  have hc := trimStart_eq_self_iff.mp h c rfl
  have hs : isSpace c = false := by
    simp only [isSpace, Bool.or_eq_false_iff, beq_eq_false_iff_ne]
    constructor <;> rintro rfl <;> simp at hc
  simp [skipSpaces, hs]

lemma mem_of_mem_skipSpaces {c : Char} {t : Text} (h : c ∈ skipSpaces t) : c ∈ t :=
  (List.dropWhile_sublist _).mem h

lemma trim_skipSpaces (t : Text) : trim (skipSpaces t) = trim t := by
  obtain ⟨s, hs, ht⟩ := exists_spaces t
  have hblank : ∀ c ∈ s, isBlank c = true := by
    intro c hc
    rcases (by simpa [isSpace] using hs c hc : c = ' ' ∨ c = '\t') with rfl | rfl <;> simp
  conv_rhs => rw [ht, ← List.append_nil (s ++ skipSpaces t), trim_between_blanks _ hblank (by simp)]

/-- A pipe that is not the last one opens a cell. -/
lemma cell?_append {a : Text} (hp : '|' ∉ a) (hn : '\n' ∉ a) (u : Text) :
    cell? ('|' :: (a ++ '|' :: u)) = some (skipSpaces a, '|' :: u) := by
  have hp' : '|' ∉ skipSpaces a := fun h => hp (mem_of_mem_skipSpaces h)
  have hn' : '\n' ∉ skipSpaces a := fun h => hn (mem_of_mem_skipSpaces h)
  have hnl : newline? (skipSpaces a ++ '|' :: u) = none := by
    have := newline?_line (l := skipSpaces a ++ ['|']) (by simp) (by simp [hn']) (by simp) u
    simpa using this
  rw [cell?, skipSpaces_append u (by decide), hnl, cellText_append hp' hn']
  simp

/-- A cell up to its pipe, and then the cells from that pipe on. -/
lemma cells_append {a : Text} (hp : '|' ∉ a) (hn : '\n' ∉ a) (u : Text) :
    cells ('|' :: (a ++ '|' :: u)) = (trim a :: (cells ('|' :: u)).1, (cells ('|' :: u)).2) := by
  have hlt : ('|' :: u).length < ('|' :: (a ++ '|' :: u)).length := by
    simp only [List.length_cons, List.length_append]
    omega
  have hsp : skipSpaces ('|' :: u) = '|' :: u := by simp [skipSpaces, isSpace]
  rw [cells, cell?_append hp hn]
  simp only [hlt, if_true, hsp, trim_skipSpaces]
  rcases hu : cell? ('|' :: u) with _ | p
  · rw [cells, hu]
  · rfl

lemma cell?_eq_none {t : Text} (h : t.head? ≠ some '|') : cell? t = none := by
  unfold cell?
  split
  · simp at h
  · rfl

lemma cell?_newline (t : Text) : cell? ('|' :: '\n' :: t) = none := by
  simp [cell?, skipSpaces, isSpace]

/-- The part of a row after its first pipe: nothing, or a text that ends in a pipe. -/
def RowTail (y : Text) : Prop := '\n' ∉ y ∧ (y = [] ∨ y.getLast? = some '|')

lemma RowTail.cases {y : Text} (h : RowTail y) :
    y = [] ∨ ∃ a b, y = a ++ '|' :: b ∧ '|' ∉ a ∧ '\n' ∉ a ∧ RowTail b := by
  rcases h with ⟨hn, rfl | hl⟩
  · exact .inl rfl
  · obtain ⟨a, b, rfl, ha⟩ := List.eq_append_cons_of_mem (List.mem_of_getLast? hl)
    refine .inr ⟨a, b, rfl, ha, fun h => hn (by simp [h]), fun h => hn (by simp [h]), ?_⟩
    rcases b with _ | ⟨c, b⟩
    · exact .inl rfl
    · exact .inr (by simpa using hl)

/-- A row has as many cells as there are pipes after its first one. -/
lemma cells_row {y : Text} (hy : RowTail y) (t : Text) :
    ∃ cs, cells ('|' :: (y ++ '\n' :: t)) = (cs, '|' :: '\n' :: t) ∧ cs.length = y.count '|' := by
  induction hn : y.length using Nat.strongRecOn generalizing y with
  | ind n ih =>
    rcases hy.cases with rfl | ⟨a, b, rfl, hp, hnl, hb⟩
    · refine ⟨[], ?_, rfl⟩
      rw [cells, List.nil_append, cell?_newline]
    · obtain ⟨cs, hcs, hlen⟩ := ih b.length (by simp at hn; omega) hb rfl
      have happ : '|' :: ((a ++ '|' :: b) ++ '\n' :: t) = '|' :: (a ++ '|' :: (b ++ '\n' :: t)) := by
        simp
      refine ⟨trim a :: cs, ?_, ?_⟩
      · rw [happ, cells_append hp hnl, hcs]
      · simp [List.count_append, List.count_eq_zero.mpr hp, hlen]

/-- A row up to its line end and the layout after it. -/
lemma row?_line {y : Text} (hy : RowTail y) (t : Text) :
    ∃ cs, row? ('|' :: (y ++ '\n' :: t)) = some (cs, skipLayout t) ∧ cs.length = y.count '|' := by
  obtain ⟨cs, hcs, hlen⟩ := cells_row hy t
  refine ⟨cs, ?_, hlen⟩
  have h₁ : skipSpaces ('|' :: '\n' :: t) = '|' :: '\n' :: t := by simp [skipSpaces, isSpace]
  have h₂ : skipSpaces ('\n' :: t) = '\n' :: t := by simp [skipSpaces, isSpace]
  rw [row?, hcs]
  simp only [h₁, h₂, layout?_newline, Option.map_some]

/-- A row starts with a pipe. -/
lemma head?_of_row? {t r : Text} {cs : List Text} (h : row? t = some (cs, r)) :
    (skipSpaces t).head? = some '|' := by
  by_cases hp : t.head? = some '|'
  · obtain ⟨u, rfl⟩ := List.head?_eq_some_iff.mp hp
    simp [skipSpaces, isSpace]
  · have hcs : cells t = ([], t) := by rw [cells, cell?_eq_none hp]
    rw [row?, hcs] at h
    simp only at h
    split at h
    · rename_i u hu
      rw [hu]
      rfl
    · simp at h

/-- Only a pipe starts a row. -/
lemma row?_eq_none {t : Text} (h : AtWord t) (hp : t.head? ≠ some '|') : row? t = none := by
  rw [Option.eq_none_iff_forall_ne_some]
  intro p hrow
  have hhead := head?_of_row? hrow
  rw [h.skipSpaces] at hhead
  exact hp hhead

/-- The cells of a row are trimmed. -/
lemma trim_of_mem_cells {t c : Text} (h : c ∈ (cells t).1) : trim c = c := by
  induction hn : t.length using Nat.strongRecOn generalizing t with
  | ind n ih =>
    rw [cells] at h
    split at h
    · split at h
      · simp only at h
        split at h
        · split at h
          · rename_i hlt
            rcases List.mem_cons.mp h with rfl | h
            · exact trim_trim _
            · exact ih _ (by omega) h rfl
          · rw [List.mem_singleton.mp h]; exact trim_trim _
        · rw [List.mem_singleton.mp h]; exact trim_trim _
      · rw [List.mem_singleton.mp h]; exact trim_trim _
    · simp at h

lemma trim_of_mem_row? {t r : Text} {cs : List Text} (h : row? t = some (cs, r)) :
    ∀ c ∈ cs, trim c = c := by
  intro c hc
  rw [row?] at h
  simp only at h
  split at h
  · obtain ⟨u, -, hu⟩ := Option.map_eq_some_iff.mp h
    rw [← (Prod.mk.inj hu).1] at hc
    exact trim_of_mem_cells hc
  · simp at h

/-! ### Doc strings -/

/-- No mark on a line stands before a number sign. -/
def Open (mark l : Text) : Prop := ∀ a b, l = a ++ mark ++ b → '#' ∈ a

lemma newline?_restOfLine {m : Text} (hn : '\n' ∉ m) (t : Text) :
    newline? (restOfLine (m ++ '\n' :: t)).2 = some t := by
  induction m with
  | nil => simp [restOfLine]
  | cons c m ih =>
    simp only [List.mem_cons, not_or] at hn
    rw [List.cons_append, restOfLine]
    split
    · -- a carriage return that the newline follows
      rename_i h
      rcases m with _ | ⟨d, m⟩
      · by_cases hc : c = '\r'
        · rw [hc]; rfl
        · simp [newline?_cons_of_ne (Ne.symm hn.1) (fun h => absurd h hc)] at h
      · have hd : d ≠ '\n' := fun h => hn.2 (by simp [h])
        rw [newline?_cons_of_ne (Ne.symm hn.1) (fun _ => by simpa using hd)] at h
        simp at h
    · exact ih hn.2

/-- A comment ends where its line ends. -/
lemma lineEnd?_of_commentText? {l u : Text} (hn : '\n' ∉ l) {t : Text}
    (h : commentText? (l ++ '\n' :: t) = some u) : lineEnd? (l ++ '\n' :: t) = some t := by
  rw [lineEnd?, h, Option.getD_some]
  rw [commentText?, skipSpaces_append t (by decide)] at h
  split at h
  · rename_i r hr
    rcases hs : skipSpaces l with _ | ⟨c, m⟩
    · simp [hs] at hr
    · rw [hs, List.cons_append] at hr
      obtain ⟨rfl, rfl⟩ := List.cons.inj hr
      rw [← Option.some.inj h]
      exact newline?_restOfLine (fun hm => hn (mem_of_mem_skipSpaces (by simp [hs, hm]))) t
  · simp at h

variable {mark : Text}

/-- The search for the closing mark passes over an open line. -/
lemma repeated_fenced?_line {l : Text} (hmark : '\n' ∉ mark) (hne : mark ≠ []) (hn : '\n' ∉ l)
    (ho : Open mark l) (t : Text) :
    repeated (fenced? mark) (l ++ '\n' :: t) = repeated (fenced? mark) t := by
  induction l with
  | nil =>
    have hp : ¬ mark <+: '\n' :: t := by
      intro h
      have := (prefix_append_cons_iff (l := []) hmark t).mp h
      exact hne (List.prefix_nil.mp this)
    refine repeated_of_some ?_ (by simp)
    simp [fenced?, hp]
  | cons c l ih =>
    have hp : ¬ mark <+: (c :: l) ++ '\n' :: t := by
      intro h
      obtain ⟨b, hb⟩ := (prefix_append_cons_iff hmark t).mp h
      simpa using ho [] b hb.symm
    have hf : fenced? mark ((c :: l) ++ '\n' :: t)
        = (lineEnd? ((c :: l) ++ '\n' :: t) <|> some (l ++ '\n' :: t)) := by
      rw [fenced?, if_neg (by simpa using hp)]
      rfl
    rcases he : lineEnd? ((c :: l) ++ '\n' :: t) with _ | u
    · -- neither a comment nor a line end: one character is passed over
      rw [he] at hf
      have hlt : (l ++ '\n' :: t).length < ((c :: l) ++ '\n' :: t).length := by simp
      rw [repeated_of_some hf hlt]
      refine ih (fun h => hn (by simp [h])) fun a b hab => ?_
      have hmem := ho (c :: a) b (by rw [hab]; simp)
      rcases List.mem_cons.mp hmem with hc | ha
      · subst hc
        have hcomment : commentText? (('#' :: l) ++ '\n' :: t) = some (restOfLine (l ++ '\n' :: t)).2 := by
          simp [commentText?, skipSpaces, isSpace]
        rw [lineEnd?_of_commentText? hn hcomment] at he
        simp at he
      · exact ha
    · -- the end of the line, whether after a comment or not
      obtain rfl : u = t := by
        rcases hc : commentText? ((c :: l) ++ '\n' :: t) with _ | v
        · rw [lineEnd?, hc, Option.getD_none] at he
          rcases l with _ | ⟨d, l⟩
          · by_cases hr : c = '\r'
            · subst hr
              simpa [newline?] using he.symm
            · rw [List.cons_append, newline?_cons_of_ne (fun h => hn (by simp [h]))
                (fun h => absurd h hr)] at he
              simp at he
          · have hd : d ≠ '\n' := fun h => hn (by simp [h])
            rw [List.cons_append, newline?_cons_of_ne (fun h => hn (by simp [h]))
              (fun _ => by simpa using hd)] at he
            simp at he
        · rw [lineEnd?_of_commentText? hn hc] at he
          exact (Option.some.inj he).symm
      rw [he] at hf
      exact repeated_of_some hf (by simp; omega)

lemma repeated_fenced?_unlines {ls : List Text} (hmark : '\n' ∉ mark) (hne : mark ≠ [])
    (hn : ∀ l ∈ ls, '\n' ∉ l) (ho : ∀ l ∈ ls, Open mark l) (t : Text) :
    repeated (fenced? mark) (unlines ls ++ t) = repeated (fenced? mark) t := by
  induction ls with
  | nil => rfl
  | cons l ls ih =>
    rw [unlines_cons, List.append_assoc, List.cons_append,
      repeated_fenced?_line hmark hne (hn l (by simp)) (ho l (by simp))]
    exact ih (fun m hm => hn m (by simp [hm])) fun m hm => ho m (by simp [hm])

/-- The search stops at a mark after spaces. -/
lemma repeated_fenced?_mark (f : Fence) (n : Nat) (t : Text) :
    repeated (fenced? f.mark) (List.replicate n ' ' ++ (f.mark ++ t)) = f.mark ++ t := by
  induction n with
  | zero => exact repeated_of_none (by simp [fenced?])
  | succ n ih =>
    have hs : skipSpaces (' ' :: (List.replicate n ' ' ++ (f.mark ++ t))) = f.mark ++ t := by
      rw [← List.cons_append, ← List.replicate_succ, skipSpaces,
        List.dropWhile_append_of_pos (by simp [isSpace])]
      cases f <;> simp [Fence.mark, isSpace]
    have hc : commentText? (' ' :: (List.replicate n ' ' ++ (f.mark ++ t))) = none := by
      rw [commentText?, hs]
      cases f <;> rfl
    rw [List.replicate_succ, List.cons_append]
    refine (repeated_of_some ?_ (by simp)).trans ih
    have hp : f.mark.isPrefixOf (' ' :: (List.replicate n ' ' ++ (f.mark ++ t))) = false := by
      cases f <;> rfl
    simp [fenced?, hp, lineEnd?, hc, newline?]

/-- A doc string is read up to its closing line, if no line of it closes it before. -/
lemma fence?_lines (f : Fence) {ls : List Text} (hn : ∀ l ∈ ls, '\n' ∉ l)
    (ho : ∀ l ∈ ls, Open f.mark l) (n : Nat) (t : Text) :
    ∃ body, fence? f.mark (f.mark ++ (unlines ls ++ (List.replicate n ' ' ++ (f.mark ++ '\n' :: t))))
      = some (body, skipLayout t) := by
  have hmark : '\n' ∉ f.mark := by cases f <;> simp [Fence.mark]
  have hstop : repeated (fenced? f.mark)
      (unlines ls ++ (List.replicate n ' ' ++ (f.mark ++ '\n' :: t))) = f.mark ++ '\n' :: t := by
    rw [repeated_fenced?_unlines hmark (by cases f <;> simp [Fence.mark]) hn ho,
      repeated_fenced?_mark]
  refine ⟨readPart (unlines ls ++ (List.replicate n ' ' ++ (f.mark ++ '\n' :: t)))
    (f.mark ++ '\n' :: t), ?_⟩
  rw [fence?, afterWord?_append]
  simp only [Option.bind_eq_bind, Option.bind_some, hstop, afterWord?_append, layout?_newline]
  rfl

lemma fence?_eq_none {f : Fence} {t : Text} (h : ¬ f.mark <+: t) : fence? f.mark t = none := by
  rw [fence?, afterWord?_eq_none_iff.mpr h]
  rfl

/-- A mask neither adds nor hides a mark or a number sign. -/
lemma Open.veils {f : Fence} {l m : Text} (h : Open f.mark l) (hv : List.Forall₂ Cells.Veils l m) :
    Open f.mark m := by
  intro a b hm
  subst hm
  obtain ⟨u, b', rfl, hu, -⟩ := Cells.exists_veils_append hv
  obtain ⟨a', w, rfl, ha, hw⟩ := Cells.exists_veils_append hu
  have hmark : w = f.mark := Cells.eq_of_veils hw (by cases f <;> simp [Fence.mark, Cells.Plain])
  subst hmark
  exact (Cells.mem_veils_iff ha (by simp [Cells.Plain])).mpr (h a' b' rfl)

end FeatureTree.Grammar
