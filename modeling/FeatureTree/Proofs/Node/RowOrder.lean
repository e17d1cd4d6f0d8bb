import Mathlib.Data.List.Count
import Mathlib.Data.List.Nodup
import FeatureTree.Proofs.Node.RowHistory

/-!
Rows by parameter, and the order of their pairs.

The pairs of a map may be met in any order. A parameter takes its value from the first pair whose
trimmed key it is, and keys that were different may be the same after trimming. So the order matters
where two such pairs have different values, and nowhere else.
-/

namespace FeatureTree

namespace RowInput

open Text (trim)

/-- All pairs whose keys come to one of these parameters have the same value. -/
def Agreeing (parameters : List Text) (pairs : List (Text × Text)) : Prop :=
  ∀ p ∈ parameters, ∀ a ∈ pairs, ∀ b ∈ pairs, trim a.1 = p → trim b.1 = p → trim a.2 = trim b.2

instance (parameters : List Text) (pairs : List (Text × Text)) :
    Decidable (Agreeing parameters pairs) :=
  inferInstanceAs (Decidable (∀ p ∈ parameters, ∀ a ∈ pairs, ∀ b ∈ pairs,
    trim a.1 = p → trim b.1 = p → trim a.2 = trim b.2))

/-- Keys that stay different never disagree. -/
lemma agreeing_of_nodup {pairs : List (Text × Text)} (h : (pairs.map fun a => trim a.1).Nodup)
    (parameters : List Text) : Agreeing parameters pairs := by
  intro p _ a ha b hb hap hbp
  rw [List.inj_on_of_nodup_map h ha hb (hap.trans hbp.symm)]

/-! ### The cell of a parameter -/

/-- The value of the first pair whose key comes to a parameter. -/
def cell (pairs : List (Text × Text)) (p : Text) : Text :=
  ((pairs.find? fun a => trim a.1 = p).map fun a => trim a.2).getD []

lemma lookup_map_trim (pairs : List (Text × Text)) (p : Text) :
    (pairs.map fun (k, v) => (trim k, trim v)).lookup p
      = (pairs.find? fun a => trim a.1 = p).map fun a => trim a.2 := by
  induction pairs with
  | nil => rfl
  | cons a pairs ih =>
    rw [List.map_cons, List.lookup_cons, List.find?_cons, ih]
    by_cases h : trim a.1 = p
    · simp [h]
    · simp [h, beq_false_of_ne (Ne.symm h)]

lemma arrange_ofPairs (parameters : List Text) (pairs : List (Text × Text)) :
    (ofPairs pairs).arrange parameters = parameters.map (cell pairs) := by
  simp only [ofPairs, arrange, lookup_map_trim]
  rfl

/-- A pair that is met first decides. -/
lemma cell_cons {a : Text × Text} {p : Text} (h : trim a.1 = p) (pairs : List (Text × Text)) :
    cell (a :: pairs) p = trim a.2 := by
  simp [cell, h]

lemma cell_eq_nil {pairs : List (Text × Text)} {p : Text} (h : ∀ a ∈ pairs, trim a.1 ≠ p) :
    cell pairs p = [] := by
  have hfind : pairs.find? (fun a => trim a.1 = p) = none :=
    List.find?_eq_none.mpr fun a ha => by simpa using h a ha
  rw [cell, hfind]
  rfl

/-- If there is a pair for a parameter, then the cell is the value of such a pair. -/
lemma exists_mem_cell {pairs : List (Text × Text)} {p : Text} {a : Text × Text} (ha : a ∈ pairs)
    (hp : trim a.1 = p) : ∃ b ∈ pairs, trim b.1 = p ∧ cell pairs p = trim b.2 := by
  cases hfind : pairs.find? (fun b => trim b.1 = p) with
  | none => exact absurd hp (by simpa using List.find?_eq_none.mp hfind a ha)
  | some b =>
    refine ⟨b, List.mem_of_find?_eq_some hfind, by simpa using List.find?_some hfind, ?_⟩
    rw [cell, hfind]
    rfl

/-! ### Orders -/

/-- Every element of a list is the first one in some order. -/
lemma exists_perm_cons {α : Type} {a : α} {xs : List α} (h : a ∈ xs) :
    ∃ rest, (a :: rest).Perm xs := by
  obtain ⟨before, after, rfl⟩ := List.append_of_mem h
  exact ⟨before ++ after, List.perm_middle.symm⟩

lemma cell_perm {pairs others : List (Text × Text)} {parameters : List Text} {p : Text}
    (hagree : Agreeing parameters pairs) (hp : p ∈ parameters) (hperm : others.Perm pairs) :
    cell others p = cell pairs p := by
  by_cases hkey : ∃ a ∈ pairs, trim a.1 = p
  · obtain ⟨a, ha, hap⟩ := hkey
    obtain ⟨b, hb, hbp, hcell⟩ := exists_mem_cell ha hap
    obtain ⟨c, hc, hcp, hcell'⟩ := exists_mem_cell (hperm.mem_iff.mpr ha) hap
    rw [hcell, hcell']
    exact hagree p hp c (hperm.mem_iff.mp hc) b hb hcp hbp
  · have hnone : ∀ a ∈ pairs, trim a.1 ≠ p := fun a ha hap => hkey ⟨a, ha, hap⟩
    rw [cell_eq_nil hnone, cell_eq_nil fun a ha => hnone a (hperm.mem_iff.mp ha)]

/-- **The order of the pairs does not show** in the cells of a row, unless two pairs for one of the
parameters have different values. -/
lemma arrange_perm_iff {parameters : List Text} {pairs : List (Text × Text)} :
    (∀ others : List (Text × Text), others.Perm pairs →
        (ofPairs others).arrange parameters = (ofPairs pairs).arrange parameters)
      ↔ Agreeing parameters pairs := by
  simp only [arrange_ofPairs]
  constructor
  · intro h p hp a ha b hb hap hbp
    -- whichever of the two pairs is put first, the cell must be the same
    have hfirst : ∀ c ∈ pairs, trim c.1 = p → trim c.2 = cell pairs p := by
      intro c hc hcp
      obtain ⟨rest, hrest⟩ := exists_perm_cons hc
      rw [← cell_cons hcp rest]
      exact List.map_inj_left.mp (h _ hrest) p hp
    rw [hfirst a ha hap, hfirst b hb hbp]
  · intro hagree others hperm
    exact List.map_congr_left fun p hp => cell_perm hagree hp hperm

end RowInput

namespace Examples

variable {x : Examples}

/-! ### Adding and removing -/

lemma addRow_inj {r s : RowInput} (hrows : x.rows ≠ []) :
    x.addRow r = x.addRow s ↔ r.arrange x.parameters = s.arrange x.parameters := by
  constructor
  · intro h
    obtain ⟨y, hy, -, hrow⟩ := addRow_spec hrows r
    obtain ⟨z, hz, -, hrow'⟩ := addRow_spec hrows s
    rw [hy, hz] at h
    have hsame : y.argumentRows = z.argumentRows := congrArg argumentRows (Except.ok.inj h)
    rw [hrow, hrow'] at hsame
    have hlast := List.append_cancel_left hsame
    simpa using congrArg (List.map Row.values) hlast
  · intro h
    simp only [addRow, h]

/-- To take away a first occurrence shows which value it was of, if it was there. -/
lemma eq_of_erase_eq {α : Type} [BEq α] [LawfulBEq α] {a b : α} {xs : List α}
    (h : xs.erase a = xs.erase b) (ha : a ∈ xs) : a = b := by
  by_contra hne
  have hcount : xs.count a - 1 = xs.count a := by
    rw [← List.count_erase_self, h, List.count_erase_of_ne hne]
  have := List.count_pos_iff.mpr ha
  omega

lemma values_removeRow (x : Examples) (r : RowInput) :
    (x.removeRow r).argumentRows.map Row.values
      = (x.argumentRows.map Row.values).erase (r.arrange x.parameters) := by
  rw [argumentRows_removeRow, List.erase_eq_eraseP', List.eraseP_map]
  rfl

lemma removeRow_of_not_mem {r : RowInput}
    (h : r.arrange x.parameters ∉ x.argumentRows.map Row.values) : x.removeRow r = x := by
  rcases hrows : x.rows with _ | ⟨p, rs⟩
  · exact removeRow_of_nil hrows r
  · have hrs : x.argumentRows = rs := by rw [argumentRows, hrows, List.tail_cons]
    have hnone : ∀ q ∈ rs, q.values ≠ r.arrange x.parameters :=
      fun q hq hv => h (hv ▸ List.mem_map_of_mem (hrs ▸ hq))
    have herase : rs.eraseP (·.values == r.arrange x.parameters) = rs :=
      List.eraseP_of_forall_not (by simpa using hnone)
    rw [removeRow, hrows]
    simp only [herase, ← hrows]

lemma removeRow_inj {r s : RowInput} :
    x.removeRow r = x.removeRow s ↔ r.arrange x.parameters = s.arrange x.parameters
      ∨ r.arrange x.parameters ∉ x.argumentRows.map Row.values
        ∧ s.arrange x.parameters ∉ x.argumentRows.map Row.values := by
  constructor
  · intro h
    have herase := congrArg (fun y => y.argumentRows.map Row.values) h
    simp only [values_removeRow] at herase
    by_cases hr : r.arrange x.parameters ∈ x.argumentRows.map Row.values
    · exact .inl (eq_of_erase_eq herase hr)
    · by_cases hs : s.arrange x.parameters ∈ x.argumentRows.map Row.values
      · exact .inl (eq_of_erase_eq herase.symm hs).symm
      · exact .inr ⟨hr, hs⟩
  · rintro (h | ⟨hr, hs⟩)
    · simp only [removeRow, h]
    · rw [removeRow_of_not_mem hr, removeRow_of_not_mem hs]

lemma edit_pairs_add (x : Examples) (pairs : List (Text × Text)) :
    x.edit (.addRow (.pairs pairs)) = x.addRow (RowInput.ofPairs pairs) :=
  edit_add (s := .pairs pairs) rfl

lemma edit_pairs_remove (x : Examples) (pairs : List (Text × Text)) :
    x.edit (.removeRow (.pairs pairs)) = .ok (x.removeRow (RowInput.ofPairs pairs)) :=
  edit_remove (s := .pairs pairs) rfl

/-- **When the order of the pairs of a map shows.** All orders give the same cells under some
parameters exactly if the pairs for each of them agree, as they do if no two keys become the same by
trimming. So a map is added in one way only if there are no rows or its pairs agree on the
parameters, and it is removed in one way only if they agree or no argument row has the cells of any
order. -/
theorem row_of_map_order_free_iff (pairs : List (Text × Text)) :
    (∀ parameters, (∀ others : List (Text × Text), others.Perm pairs →
          (RowInput.ofPairs others).arrange parameters
            = (RowInput.ofPairs pairs).arrange parameters)
        ↔ RowInput.Agreeing parameters pairs)
      ∧ ((pairs.map fun a => Text.trim a.1).Nodup →
        ∀ parameters, RowInput.Agreeing parameters pairs)
      ∧ ∀ x : Examples,
        ((∀ others : List (Text × Text), others.Perm pairs →
            x.edit (.addRow (.pairs others)) = x.edit (.addRow (.pairs pairs)))
          ↔ x.rows = [] ∨ RowInput.Agreeing x.parameters pairs)
        ∧ ((∀ others : List (Text × Text), others.Perm pairs →
            x.edit (.removeRow (.pairs others)) = x.edit (.removeRow (.pairs pairs)))
          ↔ RowInput.Agreeing x.parameters pairs
            ∨ ∀ others : List (Text × Text), others.Perm pairs →
              (RowInput.ofPairs others).arrange x.parameters
                ∉ x.argumentRows.map Row.values) := by
  refine ⟨fun parameters => RowInput.arrange_perm_iff, RowInput.agreeing_of_nodup,
    fun x => ⟨?_, ?_⟩⟩
  · by_cases hnil : x.rows = []
    · simp [edit_pairs_add, addRow_of_nil hnil, hnil]
    · simp only [edit_pairs_add, addRow_inj hnil, hnil, false_or, RowInput.arrange_perm_iff]
  · simp only [edit_pairs_remove, Except.ok.injEq, removeRow_inj]
    constructor
    · intro hsame
      by_cases hagree : RowInput.Agreeing x.parameters pairs
      · exact .inl hagree
      · refine .inr fun others hothers hmem => ?_
        -- some order gives other cells than the one whose row is there
        obtain ⟨more, hmore, hne⟩ : ∃ more : List (Text × Text), more.Perm pairs
            ∧ (RowInput.ofPairs more).arrange x.parameters
              ≠ (RowInput.ofPairs pairs).arrange x.parameters := by
          by_contra hno
          push Not at hno
          exact hagree (RowInput.arrange_perm_iff.mp hno)
        rcases hsame others hothers with heq | ⟨hnot, -⟩
        · rcases hsame more hmore with heq' | ⟨-, hnot⟩
          · exact hne heq'
          · exact hnot (heq ▸ hmem)
        · exact hnot hmem
    · rintro (hagree | hnone) others hothers
      · exact .inl (RowInput.arrange_perm_iff.mpr hagree others hothers)
      · exact .inr ⟨hnone others hothers, hnone pairs (.refl _)⟩

/-- Two keys come to one parameter, with one value. -/
theorem row_of_map_order_free_same_value :
    let pairs := [("a".toList, "1".toList), ("b".toList, "2".toList), (" a".toList, "1 ".toList)]
    let parameters := ["b".toList, "a".toList]
    RowInput.Agreeing parameters pairs
      ∧ (RowInput.ofPairs pairs.reverse).arrange parameters = ["2".toList, "1".toList]
      ∧ (RowInput.ofPairs pairs.reverse).arrange parameters
        = (RowInput.ofPairs pairs).arrange parameters := by
  intro pairs parameters
  have hagree : RowInput.Agreeing parameters pairs := by decide
  exact ⟨hagree, by decide,
    ((row_of_map_order_free_iff pairs).1 parameters).mpr hagree _ (List.reverse_perm pairs)⟩

/-- Two keys come to one parameter, with different values. -/
theorem row_of_map_order_shows :
    ¬ ∀ pairs others : List (Text × Text), (pairs.map Prod.fst).Nodup → others.Perm pairs →
      ∀ parameters, (RowInput.ofPairs others).arrange parameters
        = (RowInput.ofPairs pairs).arrange parameters := by
  intro h
  have hcells := h [(" a".toList, "1".toList), ("a".toList, "2".toList)]
    [("a".toList, "2".toList), (" a".toList, "1".toList)] (by decide) (.swap _ _ _) ["a".toList]
  revert hcells
  decide

end Examples

end FeatureTree
