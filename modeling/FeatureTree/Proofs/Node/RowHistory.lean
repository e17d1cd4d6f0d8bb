import Mathlib.Data.List.Induction
import Mathlib.Data.List.Perm.Basic
import Mathlib.Tactic.Common
import FeatureTree.Node.Edit

/-!
Histories of row edits.

Examples are a row of parameters above a list of argument rows, and to add or to remove a row edits
that list. Whatever calls were made, the parameters and all else that examples hold stay as they
were, and the argument rows are some of the first ones, in their order, above some of those that
were added.
-/

namespace FeatureTree

/-- A call that adds a row or removes one. -/
inductive RowCall where
  | add (row : RowSource)
  | remove (row : RowSource)

namespace RowCall

/-- What the row of a call is made from. -/
def source : RowCall → RowSource
  | add s => s
  | remove s => s

def edit : RowCall → Edit
  | add s => .addRow s
  | remove s => .removeRow s

/-- The row that a call puts under these parameters. -/
def added? (parameters : List Text) : RowCall → Option Row
  | add s => s.row.toOption.map fun r => Row.ofValues (r.arrange parameters)
  | remove _ => none

end RowCall

/-- A value that is neither a list nor an object. -/
def Json.isScalar : Json → Bool
  | .arr _ => false
  | .obj _ => false
  | _ => true

namespace Examples

/-- The examples after a call, which are what they were if it fails. -/
def call (x : Examples) (c : RowCall) : Examples :=
  match x.edit c.edit with
  | .ok y => y
  | .error _ => x

/-- The examples after some calls, one after the other. -/
def calls (x : Examples) (history : List RowCall) : Examples := history.foldl call x

lemma calls_concat (x : Examples) (history : List RowCall) (c : RowCall) :
    x.calls (history ++ [c]) = (x.calls history).call c := by
  simp [calls]

/-- Examples that differ in their argument rows only. -/
structure SameHead (x y : Examples) : Prop where
  parameterRow : y.parameterRow? = x.parameterRow?
  line : y.line = x.line
  keyword : y.keyword = x.keyword
  name : y.name = x.name
  description : y.description = x.description
  tags : y.tags = x.tags
  raw : y.raw = x.raw

/-- The first row with these values is taken away, if there is one. -/
def RemovesFirst (vs : List Text) (rs rest : List Row) : Prop :=
  (∃ before r after, rs = before ++ r :: after ∧ r.values = vs ∧ (∀ q ∈ before, q.values ≠ vs)
      ∧ rest = before ++ after)
    ∨ (∀ r ∈ rs, r.values ≠ vs) ∧ rest = rs

/-- What a call may come to. A scalar is refused whatever the examples are; without a row of
parameters no row can be added, and there is none to remove. -/
inductive Outcome (x : Examples) : RowCall → Except Error Examples → Prop
  | notARow {c : RowCall} {v : Json} (source : c.source = .json v) (scalar : v.isScalar = true) :
    Outcome x c (.error (.notARow v))
  | noParameters {s : RowSource} {r : RowInput} (row : s.row = .ok r) (empty : x.rows = []) :
    Outcome x (.add s) (.error .noParameters)
  | nothing {s : RowSource} {r : RowInput} (row : s.row = .ok r) (empty : x.rows = []) :
    Outcome x (.remove s) (.ok x)
  | added {s : RowSource} {r : RowInput} {y : Examples} (row : s.row = .ok r)
    (nonempty : x.rows ≠ []) (head : SameHead x y)
    (rows : y.argumentRows = x.argumentRows ++ [Row.ofValues (r.arrange x.parameters)]) :
    Outcome x (.add s) (.ok y)
  | removed {s : RowSource} {r : RowInput} {y : Examples} (row : s.row = .ok r)
    (nonempty : x.rows ≠ []) (head : SameHead x y)
    (rows : RemovesFirst (r.arrange x.parameters) x.argumentRows y.argumentRows) :
    Outcome x (.remove s) (.ok y)

end Examples

/-! ### The row of a call -/

/-- Only a scalar is no row. -/
lemma RowSource.row_eq_error_iff {s : RowSource} {e : Error} :
    s.row = .error e ↔ ∃ v, s = .json v ∧ v.isScalar = true ∧ e = .notARow v := by
  constructor
  · intro h
    cases s with
    | json v => cases v <;> simp_all [row, RowInput.ofJson, Json.isScalar]
    | list vs => simp [row] at h
    | pairs ps => simp [row] at h
    | input r => simp [row] at h
  · rintro ⟨v, rfl, hv, rfl⟩
    cases v <;> simp_all [row, RowInput.ofJson, Json.isScalar]

@[simp] lemma RowInput.length_arrange_mapping (ps : List (Text × Text)) (parameters : List Text) :
    ((mapping ps).arrange parameters).length = parameters.length := by
  simp [arrange]

@[simp] lemma Row.values_ofValues (vs : List Text) : (Row.ofValues vs).values = vs := by
  simp [ofValues, values, Function.comp_def, Cell.ofValue]

namespace Examples

variable {x y : Examples}

lemma SameHead.refl (x : Examples) : SameHead x x := ⟨rfl, rfl, rfl, rfl, rfl, rfl, rfl⟩

lemma SameHead.trans {z : Examples} (h : SameHead x y) (h' : SameHead y z) : SameHead x z where
  parameterRow := h'.parameterRow.trans h.parameterRow
  line := h'.line.trans h.line
  keyword := h'.keyword.trans h.keyword
  name := h'.name.trans h.name
  description := h'.description.trans h.description
  tags := h'.tags.trans h.tags
  raw := h'.raw.trans h.raw

lemma SameHead.parameters (h : SameHead x y) : y.parameters = x.parameters := by
  rw [Examples.parameters, Examples.parameters, h.parameterRow]

/-! ### One call -/

lemma edit_of_row_error {c : RowCall} {e : Error} (h : c.source.row = .error e) :
    x.edit c.edit = .error e := by
  cases c <;> simp_all [RowCall.source, RowCall.edit, edit, bind, Except.bind]

lemma edit_add {s : RowSource} {r : RowInput} (h : s.row = .ok r) :
    x.edit (RowCall.add s).edit = x.addRow r := by
  simp [RowCall.edit, edit, h, bind, Except.bind]

lemma edit_remove {s : RowSource} {r : RowInput} (h : s.row = .ok r) :
    x.edit (RowCall.remove s).edit = .ok (x.removeRow r) := by
  simp [RowCall.edit, edit, h, bind, Except.bind, pure, Except.pure]

lemma addRow_of_nil (h : x.rows = []) (r : RowInput) : x.addRow r = .error .noParameters := by
  rw [addRow, h]

/-- A row is added below all others. -/
lemma addRow_spec (h : x.rows ≠ []) (r : RowInput) :
    ∃ y, x.addRow r = .ok y ∧ SameHead x y
      ∧ y.argumentRows = x.argumentRows ++ [Row.ofValues (r.arrange x.parameters)] := by
  obtain ⟨p, rs, hrows⟩ := List.exists_cons_of_ne_nil h
  refine ⟨{ x with rows := x.rows ++ [Row.ofValues (r.arrange x.parameters)] }, ?_, ?_, ?_⟩
  · simp [addRow, hrows]
  · exact ⟨by simp [parameterRow?, hrows], rfl, rfl, rfl, rfl, rfl, rfl⟩
  · simp [argumentRows, hrows]

lemma removeRow_of_nil (h : x.rows = []) (r : RowInput) : x.removeRow r = x := by
  rw [removeRow, h]

/-- The row of parameters is no argument row, so it is never the one that is removed. -/
lemma sameHead_removeRow (x : Examples) (r : RowInput) : SameHead x (x.removeRow r) := by
  rcases hrows : x.rows with _ | ⟨p, rs⟩
  · rw [removeRow_of_nil hrows]
    exact .refl x
  · rw [removeRow, hrows]
    exact ⟨by simp [parameterRow?, hrows], rfl, rfl, rfl, rfl, rfl, rfl⟩

lemma argumentRows_removeRow (x : Examples) (r : RowInput) :
    (x.removeRow r).argumentRows
      = x.argumentRows.eraseP (·.values == r.arrange x.parameters) := by
  rcases hrows : x.rows with _ | ⟨p, rs⟩
  · simp [removeRow_of_nil hrows, argumentRows, hrows]
  · simp [removeRow, argumentRows, hrows]

/-- **A row is removed at its position.** The first argument row with the values is looked for, and
the row one further down among all rows goes, since the parameters stand above the arguments. -/
lemma removeRow_eq_eraseIdx (x : Examples) (r : RowInput) :
    x.removeRow r = match x.argumentRows.findIdx? (·.values == r.arrange x.parameters) with
      | some i => { x with rows := x.rows.eraseIdx (i + 1) }
      | none => x := by
  rcases hrows : x.rows with _ | ⟨p, rs⟩
  · rw [removeRow_of_nil hrows, argumentRows, hrows]
    rfl
  · rw [removeRow, argumentRows, hrows]
    dsimp only [List.tail_cons]
    rw [List.eraseP_eq_eraseIdx]
    cases rs.findIdx? (·.values == r.arrange x.parameters) with
    | none => rw [← hrows]
    | some i => rfl

lemma removesFirst_eraseP (vs : List Text) (rs : List Row) :
    RemovesFirst vs rs (rs.eraseP (·.values == vs)) := by
  by_cases h : ∃ r ∈ rs, r.values = vs
  · obtain ⟨r, hmem, hr⟩ := h
    obtain ⟨q, before, after, hbefore, hq, hrs, herase⟩ :=
      List.exists_of_eraseP (p := (·.values == vs)) hmem (by simpa using hr)
    exact .inl ⟨before, q, after, hrs, by simpa using hq, by simpa using hbefore, herase⟩
  · have hnone : ∀ r ∈ rs, r.values ≠ vs := fun r hr hv => h ⟨r, hr, hv⟩
    exact .inr ⟨hnone, List.eraseP_of_forall_not (by simpa using hnone)⟩

/-- **What a call does** is one of these five things. -/
lemma outcome_edit (x : Examples) (c : RowCall) : Outcome x c (x.edit c.edit) := by
  rcases hrow : c.source.row with e | r
  · obtain ⟨v, hv, hscalar, rfl⟩ := RowSource.row_eq_error_iff.mp hrow
    rw [edit_of_row_error hrow]
    exact .notARow hv hscalar
  · by_cases hnil : x.rows = []
    · cases c with
      | add s =>
        have hs : s.row = .ok r := hrow
        rw [edit_add hs, addRow_of_nil hnil]
        exact .noParameters hs hnil
      | remove s =>
        have hs : s.row = .ok r := hrow
        rw [edit_remove hs, removeRow_of_nil hnil]
        exact .nothing hs hnil
    · cases c with
      | add s =>
        have hs : s.row = .ok r := hrow
        obtain ⟨y, hy, hhead, hrows⟩ := addRow_spec hnil r
        rw [edit_add hs, hy]
        exact .added hs hnil hhead hrows
      | remove s =>
        have hs : s.row = .ok r := hrow
        rw [edit_remove hs]
        refine .removed hs hnil (sameHead_removeRow x r) ?_
        rw [argumentRows_removeRow]
        exact removesFirst_eraseP _ _

/-- A call fails for one of two reasons. -/
lemma edit_eq_error_iff {c : RowCall} {e : Error} :
    x.edit c.edit = .error e
      ↔ (∃ v, c.source = .json v ∧ v.isScalar = true ∧ e = .notARow v)
        ∨ (∃ s r, c = .add s ∧ s.row = .ok r) ∧ x.rows = [] ∧ e = .noParameters := by
  constructor
  · intro h
    have hout := outcome_edit x c
    rw [h] at hout
    cases hout with
    | notARow hsource hscalar => exact .inl ⟨_, hsource, hscalar, rfl⟩
    | noParameters hrow hnil => exact .inr ⟨⟨_, _, rfl, hrow⟩, hnil, rfl⟩
  · rintro (hscalar | ⟨⟨s, r, rfl, hrow⟩, hnil, rfl⟩)
    · exact edit_of_row_error (RowSource.row_eq_error_iff.mpr hscalar)
    · rw [edit_add hrow, addRow_of_nil hnil]

lemma call_of_ok {c : RowCall} (h : x.edit c.edit = .ok y) : x.call c = y := by
  rw [call, h]

lemma call_of_error {c : RowCall} {e : Error} (h : x.edit c.edit = .error e) : x.call c = x := by
  rw [call, h]

lemma RemovesFirst.sublist {vs : List Text} {rs rest : List Row} (h : RemovesFirst vs rs rest) :
    rest.Sublist rs := by
  rcases h with ⟨before, r, after, rfl, -, -, rfl⟩ | ⟨-, rfl⟩
  · exact (List.sublist_cons_self r after).append_left before
  · exact List.Sublist.refl _

/-- A call leaves all but the argument rows, and of these it takes none out of its order. -/
lemma call_spec (x : Examples) (c : RowCall) :
    SameHead x (x.call c) ∧ ∃ kept, kept.Sublist x.argumentRows
      ∧ ∃ added, added.Sublist (c.added? x.parameters).toList
        ∧ (x.call c).argumentRows = kept ++ added := by
  have hout := outcome_edit x c
  rcases hedit : x.edit c.edit with e | y
  · rw [call_of_error hedit]
    exact ⟨.refl x, _, .refl _, [], List.nil_sublist _, by simp⟩
  · rw [call_of_ok hedit]
    rw [hedit] at hout
    cases hout with
    | nothing hrow hnil => exact ⟨.refl x, _, .refl _, [], List.nil_sublist _, by simp⟩
    | @added s r _ hrow hne hhead hrows =>
      refine ⟨hhead, _, .refl _, _, ?_, hrows⟩
      simp [RowCall.added?, hrow, Except.toOption]
    | removed hrow hne hhead hrows =>
      exact ⟨hhead, _, hrows.sublist, [], List.nil_sublist _, by simp⟩

/-! ### Histories -/

/-- No call of a history touches the head of the examples. -/
lemma sameHead_calls (x : Examples) (history : List RowCall) : SameHead x (x.calls history) := by
  induction history using List.reverseRecOn with
  | nil => exact .refl x
  | append_singleton history c ih =>
    rw [calls_concat]
    exact ih.trans (call_spec _ c).1

/-- The argument rows after a history: what is left of the first ones, and below them what is left
of those that were added. -/
lemma argumentRows_calls (x : Examples) (history : List RowCall) :
    ∃ kept added, (x.calls history).argumentRows = kept ++ added
      ∧ kept.Sublist x.argumentRows
      ∧ added.Sublist (history.filterMap (RowCall.added? x.parameters)) := by
  induction history using List.reverseRecOn with
  | nil => exact ⟨_, [], (List.append_nil _).symm, .refl _, List.nil_sublist _⟩
  | append_singleton history c ih =>
    obtain ⟨kept, added, hrows, hkept, hadded⟩ := ih
    obtain ⟨-, rest, hrest, new, hnew, hcall⟩ := call_spec (x.calls history) c
    rw [(sameHead_calls x history).parameters] at hnew
    -- what the call leaves of the rows is cut where the added rows begin
    rw [hrows] at hrest
    obtain ⟨kept', added', rfl, hkept', hadded'⟩ := List.sublist_append_iff.mp hrest
    refine ⟨kept', added' ++ new, ?_, hkept'.trans hkept, ?_⟩
    · rw [calls_concat, hcall, List.append_assoc]
    · rw [List.filterMap_append]
      refine (hadded'.trans hadded).append ?_
      cases h : c.added? x.parameters <;> simpa [h] using hnew

/-- What is taken away is one row with the given values, if there is one. -/
lemma RemovesFirst.perm {vs : List Text} {rs rest : List Row} (h : RemovesFirst vs rs rest)
    (hmem : vs ∈ rs.map Row.values) : (rs.map Row.values).Perm (vs :: rest.map Row.values) := by
  rcases h with ⟨before, r, after, rfl, rfl, -, rfl⟩ | ⟨hnone, -⟩
  · simp
  · obtain ⟨r, hr, hv⟩ := List.mem_map.mp hmem
    exact absurd hv (hnone r hr)

/-- Adding a row and removing one with its values leaves the values of all rows, if perhaps in
another order. -/
lemma perm_add_remove (x : Examples) (s : RowSource) :
    (((x.call (.add s)).call (.remove s)).argumentRows.map Row.values).Perm
      (x.argumentRows.map Row.values) := by
  rcases hrow : s.row with e | r
  · rw [call_of_error (edit_of_row_error (c := .add s) hrow),
      call_of_error (edit_of_row_error (c := .remove s) hrow)]
  · by_cases hnil : x.rows = []
    · have hadd : x.edit (RowCall.add s).edit = .error .noParameters := by
        rw [edit_add hrow, addRow_of_nil hnil]
      rw [call_of_error hadd, call_of_ok (edit_remove hrow), removeRow_of_nil hnil]
    · obtain ⟨y, hy, hhead, hrows⟩ := addRow_spec hnil r
      rw [call_of_ok ((edit_add hrow).trans hy), call_of_ok (edit_remove hrow)]
      set vs := r.arrange x.parameters with hvs
      have hfirst : RemovesFirst vs y.argumentRows (y.removeRow r).argumentRows := by
        rw [argumentRows_removeRow, hhead.parameters]
        exact removesFirst_eraseP _ _
      have hvalues : y.argumentRows.map Row.values = x.argumentRows.map Row.values ++ [vs] := by
        simp [hrows]
      have hperm := hfirst.perm (by simp [hvalues])
      rw [hvalues] at hperm
      exact (hperm.symm.trans (List.perm_append_singleton vs _)).cons_inv

/-- **Row edits are list edits.** Take any examples, any calls made on them, and one call more. The
call fails exactly if its row is a scalar, or if it adds to examples without rows, and then nothing
is changed. Else it puts its row below all others, or takes away the first argument row with its
values. The parameters and all else stay as they were from the first call on, and the argument rows
that are left keep their lines and their order. A mapping has a cell for each parameter, and what is
added and removed again leaves the values of the rows. -/
theorem calls_edit_rows (x : Examples) (history : List RowCall) (c : RowCall) :
    (∀ e, (x.calls history).edit c.edit = .error e
        ↔ (∃ v, c.source = .json v ∧ v.isScalar = true ∧ e = .notARow v)
          ∨ (∃ s r, c = .add s ∧ s.row = .ok r) ∧ (x.calls history).rows = []
            ∧ e = .noParameters)
      ∧ (∀ v, (Error.notARow v).errorClass = .argument) ∧ Error.noParameters.errorClass = .state
      ∧ (∀ e, (x.calls history).edit c.edit = .error e →
        x.calls (history ++ [c]) = x.calls history)
      ∧ Outcome (x.calls history) c ((x.calls history).edit c.edit)
      ∧ SameHead x (x.calls history)
      ∧ (∃ kept added, (x.calls history).argumentRows = kept ++ added
        ∧ kept.Sublist x.argumentRows
        ∧ added.Sublist (history.filterMap (RowCall.added? x.parameters)))
      ∧ (∀ ps, c.source.row = .ok (.mapping ps) →
        (RowInput.arrange (x.calls history).parameters (.mapping ps)).length
          = x.parameters.length)
      ∧ ((x.calls (history ++ [.add c.source, .remove c.source])).argumentRows.map Row.values).Perm
        ((x.calls history).argumentRows.map Row.values) := by
  refine ⟨fun e => edit_eq_error_iff, fun v => rfl, rfl, fun e he => ?_, outcome_edit _ c,
    sameHead_calls x history, argumentRows_calls x history, fun ps _ => ?_, ?_⟩
  · rw [calls_concat, call_of_error he]
  · rw [RowInput.length_arrange_mapping, (sameHead_calls x history).parameters]
  · have hcalls : x.calls (history ++ [.add c.source, .remove c.source])
        = ((x.calls history).call (.add c.source)).call (.remove c.source) := by
      simp [calls]
    rw [hcalls]
    exact perm_add_remove _ c.source

end Examples

end FeatureTree
