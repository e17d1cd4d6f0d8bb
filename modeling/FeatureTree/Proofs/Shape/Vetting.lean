import FeatureTree.Proofs.Related
import FeatureTree.Proofs.Shape.Contents

/-!
The JSON forms refuse strangers, and lose nothing else.

A reader is vetted by the strangers that it meets: with some, it fails and names the first of them,
and without any it gives what the document holds. Vetted readers are put together as the readers
are, so there is one lemma for each of them, and `Form.vetted_file` is about whole documents.
-/

namespace FeatureTree

namespace Shape

/-- A reading that fails with the first of some strangers, and that has a result of some kind if
there are none. -/
def Vetted (x : Except Error α) (strangers : List Text) (P : α → Prop) : Prop :=
  match strangers with
  | [] => ∃ a, x = .ok a ∧ P a
  | n :: _ => x = .error (.unknownElementType n)

namespace Vetted

variable {α β : Type} {x : Except Error α} {ns ms : List Text} {P : α → Prop} {Q : β → Prop}

lemma ok {a : α} (h : P a) : Vetted (.ok a) [] P := ⟨a, rfl, h⟩

lemma eq_error {n : Text} (h : Vetted x (n :: ns) P) : x = .error (.unknownElementType n) := h

lemma of_ok {a : α} (h : Vetted x ns P) (hx : x = .ok a) : P a := by
  cases ns with
  | nil =>
    obtain ⟨b, hb, hP⟩ := h
    rwa [← Except.ok.inj (hb.symm.trans hx)]
  | cons n ns => simp [h.eq_error] at hx

lemma mono {Q : α → Prop} (hx : Vetted x ns P) (h : ∀ a, P a → Q a) : Vetted x ns Q := by
  cases ns with
  | nil =>
    obtain ⟨a, ha, hP⟩ := hx
    exact ⟨a, ha, h a hP⟩
  | cons n ns => exact hx.eq_error

lemma bind {f : α → Except Error β} (hx : Vetted x ns P) (hf : ∀ a, P a → Vetted (f a) ms Q) :
    Vetted (x >>= f) (ns ++ ms) Q := by
  cases ns with
  | nil =>
    obtain ⟨a, rfl, ha⟩ := hx
    exact hf a ha
  | cons n ns =>
    rw [hx.eq_error]
    rfl

lemma map {f : α → β} (hx : Vetted x ns P) (hf : ∀ a, P a → Q (f a)) : Vetted (f <$> x) ns Q := by
  cases ns with
  | nil =>
    obtain ⟨a, rfl, ha⟩ := hx
    exact ⟨f a, rfl, hf a ha⟩
  | cons n ns =>
    rw [hx.eq_error]
    rfl

section Readers

variable {read : Json → Except Error β} {strangers : Json → List Text} {R : Json → β → Prop}

lemma mapM (h : ∀ v, Vetted (read v) (strangers v) (R v)) (vs : List Json) :
    Vetted (vs.mapM read) (vs.flatMap strangers) (List.Forall₂ R vs) := by
  induction vs with
  | nil => exact ok .nil
  | cons v vs ih =>
    rw [List.mapM_cons, List.flatMap_cons]
    refine bind (h v) fun b hb => ?_
    exact map ih fun bs hbs => .cons hb hbs

/-- A part that may be missing, and what is done with it. -/
lemma option (h : ∀ v, Vetted (read v) (strangers v) (R v)) (o : Option Json)
    {f : Option β → Except Error α} (hf : ∀ b, Option.Rel R o b → Vetted (f b) ms P) :
    Vetted (match o with
      | some v => some <$> read v >>= f
      | none => .ok none >>= f) (o.toList.flatMap strangers ++ ms) P := by
  cases o with
  | none => exact hf none .none
  | some v =>
    rw [Option.toList_some, List.flatMap_singleton]
    exact (map (h v) fun _ hb => .some hb).bind hf

end Readers

end Vetted

/-! ### What the fields of all forms keep -/

variable (form : Form) (v : Json)

lemma keeps_heading : Heading v (line v) (keyword v) (name v) (description v) :=
  ⟨rfl, rfl, rfl, rfl⟩

lemma keeps_tags : List.Forall₂ Tag.Keeps (v.itemsAt "tags") (tags v) :=
  forall₂_map (fun _ => ⟨rfl, rfl⟩) _

lemma keeps_comment : (comment v).Keeps v where
  line := rfl
  text := by
    rw [comment, Json.commentText, Json.textAt, Json.strAt?]
    cases h : v.get? "text" with
    | some w => cases w <;> simp [h, Json.str?]
    | none =>
      rcases hw : v.get? "value" with _ | w
      · simp [hw]
      · cases w <;> simp [hw, Json.str?]

lemma keeps_comments : List.Forall₂ Comment.Keeps (v.itemsAt "comments") (comments v) :=
  forall₂_map keeps_comment _

lemma keeps_cell (row : Option Nat) : (cell row v).Keeps row v := by
  cases v <;> exact ⟨rfl, rfl⟩

lemma keeps_row : (row v).Keeps v := ⟨rfl, forall₂_map (keeps_cell · _) _⟩

lemma keeps_step {block : Option Block} (parts : List String) (h : Block.Keeps form v block) :
    (step (Draft.textKey form) parts block v).Keeps form v := ⟨rfl, rfl, rfl, h⟩

variable {form v}

lemma keeps_background {steps : List Step} (parts : List String)
    (h : List.Forall₂ (Step.Keeps form) (v.itemsAt "steps") steps) :
    (background parts steps v).Keeps form v := ⟨keeps_heading v, h⟩

lemma keeps_scenario {steps : List Step} (parts : List String)
    (h : List.Forall₂ (Step.Keeps form) (v.itemsAt "steps") steps) :
    (scenario parts steps v).Keeps form v := ⟨keeps_heading v, keeps_tags v, h⟩

lemma keeps_outline {steps : List Step} {xs : List Examples} (parts : List String)
    (h : List.Forall₂ (Step.Keeps form) (v.itemsAt "steps") steps)
    (hx : List.Forall₂ (Examples.Keeps form) (v.itemsAt "examples") xs) :
    (outline parts steps xs v).Keeps form v := ⟨keeps_heading v, keeps_tags v, h, hx⟩

/-- In all forms but version 2 examples have their first row apart. -/
lemma keeps_headedExamples (h : form.rows = Form.version4.rows) (v : Json) :
    (headedExamples v).Keeps form v :=
  ⟨keeps_heading v, keeps_tags v, h ▸ forall₂_map keeps_row _⟩

/-! ### Sections of a feature -/

/-- A child of a feature is of the kind of its section. -/
def Child.Keeps (form : Form) (s : Draft.Section × Json) : Child → Prop
  | .background b => ∃ v, s = (.background, v) ∧ b.Keeps form v
  | .test t => t.Keeps form s

/-- What a reader of children has to give. -/
def Child.Section (form : Form) (v : Json) (c : Child) : Prop :=
  ∃ s, form.section? v = some s ∧ Child.Keeps form s c

lemma keeps_children {vs : List Json} {cs : List Child}
    (h : List.Forall₂ (Child.Section form) vs cs) :
    List.Forall₂ (Child.Keeps form) (vs.filterMap form.section?) cs := by
  rw [← List.filterMap_some (l := cs)]
  refine List.rel_filterMap ?_ h
  rintro w c ⟨s, hs, hc⟩
  rw [hs]
  exact .some hc

lemma keeps_feature {cs : List Child} (parts : List String)
    (h : List.Forall₂ (Child.Keeps form) (form.sections v) cs) :
    (feature parts (Child.background? cs) (Child.tests cs) v).Keeps form v where
  heading := keeps_heading v
  tags := keeps_tags v
  background := by
    apply rel_getLast?
    refine List.rel_filterMap ?_ h
    rintro s (b | t) hc
    · obtain ⟨w, rfl, hb⟩ := hc
      exact .some hb
    · obtain ⟨_ | _ | _, w⟩ := s
      · exact hc.elim
      · exact .none
      · exact .none
  tests := by
    refine List.rel_filterMap ?_ h
    rintro s (b | t) hc
    · obtain ⟨w, rfl, -⟩ := hc
      exact .none
    · obtain ⟨_ | _ | _, w⟩ := s
      · exact hc.elim
      · exact .some hc
      · exact .some hc

/-! ### Types -/

lemma vetted_typed {known : List String} {read : String → Except Error β} {P : String → β → Prop}
    (hknown : ∀ s ∈ known, ∃ b, read s = .ok b ∧ P s b)
    (hstrange : ∀ s, s ∉ known → read s = unknown s) :
    Vetted (typeOf v >>= read) (Form.strangeType? known v).toList
      fun b => ∃ s, v.strAt? "type" = some s ∧ P s b := by
  unfold typeOf Form.strangeType?
  cases v.strAt? "type" with
  | none => rfl
  | some s =>
    by_cases hs : s ∈ known
    · obtain ⟨b, hb, hP⟩ := hknown s hs
      simp only [hs, if_true]
      exact ⟨b, hb, s, rfl, hP⟩
    · simp only [hs, if_false]
      exact hstrange s hs

/-! ### Version 2 -/

namespace Elements

lemma keeps_block (v : Json) : Block.Keeps .version2 v (block v) := by
  unfold block
  split
  · rename_i rows hrows
    exact ⟨none, rows, by simp [Form.table?, hrows], rfl, forall₂_map keeps_row _⟩
  · rename_i hrows
    have htable : Form.version2.table? v = none := by simp only [Form.table?]
    cases hd : v.get? "doc_string" with
    | none => exact ⟨htable, hd⟩
    | some d => exact ⟨htable, d, hd, rfl, rfl, rfl⟩

lemma keeps_steps (v : Json) :
    List.Forall₂ (Step.Keeps .version2) (v.itemsAt "steps") (steps v) :=
  forall₂_map (fun s => keeps_step .version2 s _ (keeps_block s)) _

lemma keeps_examples (v : Json) : (examples v).Keeps .version2 v :=
  ⟨keeps_heading v, keeps_tags v, forall₂_map keeps_row _⟩

lemma vetted_child (v : Json) :
    Vetted (child v) (Form.version2.strangersOfChild v) (Child.Section .version2 v) := by
  unfold child
  refine (vetted_typed (P := fun s c => ∃ k, Form.version2.types.lookup s = some k
    ∧ Child.Keeps .version2 (k, v) c) ?_ ?_).mono ?_
  · intro s hs
    simp only [Form.types, List.map_cons, List.map_nil, List.mem_cons, List.not_mem_nil,
      or_false] at hs
    rcases hs with rfl | rfl | rfl
    · exact ⟨_, rfl, .background, rfl, v, rfl, keeps_background _ (keeps_steps v)⟩
    · exact ⟨_, rfl, .scenario, rfl, keeps_scenario _ (keeps_steps v)⟩
    · exact ⟨_, rfl, .outline, rfl,
        keeps_outline _ (keeps_steps v) (forall₂_map keeps_examples _)⟩
  · intro s hs
    split <;> first | rfl | exact absurd (by simp [Form.types]) hs
  · rintro c ⟨s, hs, k, hk, hc⟩
    exact ⟨(k, v), by simp [Form.section?, hs, hk], hc⟩

lemma vetted_feature (f : Json) :
    Vetted (feature f) ((Form.version2.children f).flatMap Form.version2.strangersOfChild)
      (Feature.Keeps .version2 f) :=
  (Vetted.mapM vetted_child _).map fun _ hcs => keeps_feature _ (keeps_children hcs)

lemma vetted_file (path : Option Text) (v : Json) :
    Vetted (file path v) (Form.version2.strangers v) (FeatureFile.Keeps .version2 v) := by
  unfold file Form.strangers
  cases hv : v.items with
  | nil =>
    have hf : Form.version2.feature? v = none := by simp [Form.feature?, hv]
    rw [hf]
    exact Vetted.ok ⟨by rw [hf]; exact .none, by simp [hf]⟩
  | cons f fs =>
    have hf : Form.version2.feature? v = some f := by simp [Form.feature?, hv]
    rw [hf, Option.toList_some, List.flatMap_singleton]
    refine (vetted_feature f).map fun g hg => ⟨by rw [hf]; exact .some hg, ?_⟩
    simpa [hf] using List.mergeSort_perm (commentsBelow f) notAfter

end Elements

/-! ### Versions 3 and 4 -/

namespace Definitions

/-- The versions that say what a node is in a type. -/
abbrev Typed (form : Form) : Prop := form = .version3 ∨ form = .version4

lemma vetted_argument (hform : Typed form) {a : Json} (ha : v.present? "argument" = some a) :
    Vetted (argument a) (Form.strangeType? ["DataTable", "DocString"] a).toList
      fun b => Block.Keeps form v (some b) := by
  unfold argument
  refine (vetted_typed (P := fun s b => a.strAt? "type" = some s → Block.Keeps form v (some b))
    ?_ ?_).mono ?_
  · intro s hs
    simp only [List.mem_cons, List.not_mem_nil, or_false] at hs
    rcases hs with rfl | rfl
    · refine ⟨_, rfl, fun htype => ⟨line a, a.itemsAt "rows", ?_, rfl, forall₂_map keeps_row _⟩⟩
      rcases hform with rfl | rfl <;> simp [Form.table?, ha, htype]
    · refine ⟨_, rfl, fun htype => ⟨?_, a, ?_, rfl, ?_, ?_⟩⟩ <;>
        rcases hform with rfl | rfl <;>
        simp [Form.table?, Form.doc?, Form.contentKey, Form.contentType?, trimmedAt?, ha, htype]
  · intro s hs
    split <;> first | rfl | exact absurd (by simp) hs
  · rintro b ⟨s, htype, hb⟩
    exact hb htype

lemma vetted_step (hform : Typed form) (v : Json) :
    Vetted (step v) ((v.present? "argument").toList.flatMap fun a =>
      (Form.strangeType? ["DataTable", "DocString"] a).toList) (Step.Keeps form v) := by
  have hkey : Draft.textKey form = "text" := by rcases hform with rfl | rfl <;> rfl
  unfold step
  cases ha : v.present? "argument" with
  | none =>
    have hb : Block.Keeps form v none := by
      rcases hform with rfl | rfl <;> simp [Block.Keeps, Form.table?, Form.doc?, ha]
    exact Vetted.ok (hkey ▸ keeps_step form v _ hb)
  | some a =>
    rw [Option.toList_some, List.flatMap_singleton]
    have hblock := (vetted_argument hform ha).map (f := some) (Q := Block.Keeps form v)
      fun b hb => hb
    exact hblock.map fun b hb => hkey ▸ keeps_step form v _ hb

lemma vetted_steps (hform : Typed form) (v : Json) :
    Vetted (steps v) (form.strangeArguments v)
      (List.Forall₂ (Step.Keeps form) (v.itemsAt "steps")) := by
  have hstrange : form.strangeArguments v = (v.itemsAt "steps").flatMap fun s =>
      (s.present? "argument").toList.flatMap fun a =>
        (Form.strangeType? ["DataTable", "DocString"] a).toList := by
    rcases hform with rfl | rfl <;>
      simp only [Form.strangeArguments, List.filterMap_eq_flatMap_toList, List.flatMap_assoc]
  rw [hstrange]
  exact Vetted.mapM (vetted_step hform) _

lemma vetted_background (hform : Typed form) (v : Json) :
    Vetted (background v) (form.strangeArguments v) (Background.Keeps form v) :=
  (vetted_steps hform v).map fun _ hs => keeps_background _ hs

/-- A definition has the types of version 3 in both versions. -/
lemma vetted_definition (hform : Typed form) (v : Json) :
    Vetted (definition v) (form.strangeArguments v ++ (Form.version3.strangeChild? v).toList)
      fun t => ∃ s, Form.version3.section? v = some s ∧ t.Keeps form s := by
  unfold definition
  refine (vetted_steps hform v).bind fun steps hsteps => ?_
  refine (vetted_typed (P := fun s t => ∃ k, Form.version3.types.lookup s = some k
    ∧ Test.Keeps form (k, v) t) ?_ ?_).mono ?_
  · intro s hs
    simp only [Form.types, List.map_cons, List.map_nil, List.mem_cons, List.not_mem_nil,
      or_false] at hs
    rcases hs with rfl | rfl
    · exact ⟨_, rfl, .scenario, rfl, keeps_scenario _ hsteps⟩
    · have hrows : form.rows = Form.version4.rows := by rcases hform with rfl | rfl <;> rfl
      exact ⟨_, rfl, .outline, rfl,
        keeps_outline _ hsteps (forall₂_map (keeps_headedExamples hrows) _)⟩
  · intro s hs
    split <;> first | rfl | exact absurd (by simp [Form.types]) hs
  · rintro t ⟨s, hs, k, hk, ht⟩
    exact ⟨(k, v), by simp [Form.section?, hs, hk], ht⟩

lemma vetted_child (v : Json) :
    Vetted (child v) (Form.version4.strangersOfChild v) (Child.Section .version4 v) := by
  unfold child typeOf Form.strangersOfChild
  cases htype : v.strAt? "type" with
  | none =>
    -- A missing type is met before the steps are.
    have hchild : Form.version4.strangeChild? v = some "<missing type>".toList := by
      simp [Form.strangeChild?, Form.strangeType?, htype]
    rw [hchild]
    rfl
  | some s =>
    by_cases hs : s = "Background"
    · subst hs
      have hchild : Form.version4.strangeChild? v = none := by
        simp [Form.strangeChild?, Form.strangeType?, htype, Form.types]
      have hsection : Form.version4.section? v = some (.background, v) := by
        simp [Form.section?, htype, Form.types]
      simp only [hchild, Option.toList_none, List.append_nil]
      exact (vetted_background (.inr rfl) v).map fun b hb => ⟨_, hsection, v, rfl, hb⟩
    · have hchild : Form.version4.strangeChild? v = Form.version3.strangeChild? v := by
        simp [Form.strangeChild?, Form.strangeType?, htype, Form.types, hs]
      have hsection : Form.version4.section? v = Form.version3.section? v := by
        simp [Form.section?, htype, Form.types, List.lookup_cons, beq_false_of_ne hs]
      rw [hchild]
      refine (Vetted.ok (P := (· = s)) rfl).bind ?_
      rintro _ rfl
      split
      · exact absurd rfl hs
      · exact (vetted_definition (.inr rfl) v).map fun t ⟨k, hk, ht⟩ => ⟨k, hsection ▸ hk, ht⟩

lemma vetted_feature3 (f : Json) :
    Vetted (feature3 f)
      ((f.present? "background").toList.flatMap Form.version3.strangeArguments
        ++ (Form.version3.children f).flatMap Form.version3.strangersOfChild)
      (Feature.Keeps .version3 f) := by
  refine Vetted.option (vetted_background (.inl rfl)) _ fun b hb => ?_
  refine (Vetted.mapM (vetted_definition (.inl rfl)) _).map fun ts hts => ?_
  -- Together they are the children that the other forms have in one list.
  let cs := b.toList.map Child.background ++ ts.map Child.test
  have hcs : List.Forall₂ (Child.Keeps .version3) (Form.version3.sections f) cs := by
    refine List.rel_append ?_ (keeps_children ?_)
    · change List.Forall₂ _ ((f.present? "background").toList.map _) _
      revert hb
      generalize f.present? "background" = o
      rintro (hw | _)
      · exact .cons ⟨_, rfl, hw⟩ .nil
      · exact .nil
    · rw [List.forall₂_map_right_iff]
      exact hts
  have hback : Child.background? cs = b := by
    cases b <;> simp [cs, Child.background?, List.filterMap_map]
  have htests : Child.tests cs = ts := by
    cases b <;> simp [cs, Child.tests, List.filterMap_map]
  have hfeature := keeps_feature featureParts hcs
  rwa [hback, htests] at hfeature

lemma vetted_file3 (path : Option Text) (v : Json) :
    Vetted (file3 path v) (Form.version3.strangers v) (FeatureFile.Keeps .version3 v) := by
  have hstrangers : Form.version3.strangers v
      = (v.present? "background").toList.flatMap Form.version3.strangeArguments
        ++ (Form.version3.children v).flatMap Form.version3.strangersOfChild :=
    List.flatMap_singleton ..
  rw [hstrangers]
  exact (vetted_feature3 v).map fun f hf => ⟨.some hf, keeps_comments v⟩

lemma vetted_feature4 (f : Json) :
    Vetted (feature4 f) ((Form.version4.children f).flatMap Form.version4.strangersOfChild)
      (Feature.Keeps .version4 f) :=
  (Vetted.mapM vetted_child _).map fun _ hcs => keeps_feature _ (keeps_children hcs)

lemma vetted_file4 (path : Option Text) (v : Json) :
    Vetted (file4 path v) (Form.version4.strangers v) (FeatureFile.Keeps .version4 v) := by
  rw [← List.append_nil (Form.version4.strangers v)]
  exact Vetted.option vetted_feature4 _ fun _ hf => Vetted.ok ⟨hf, keeps_comments v⟩

end Definitions

/-! ### Messages -/

namespace Messages

lemma keeps_block (v : Json) : Block.Keeps .messages v (block v) := by
  unfold block
  cases ht : v.present? "dataTable" with
  | some t =>
    exact ⟨line t, t.itemsAt "rows", by simp [Form.table?, ht], rfl, forall₂_map keeps_row _⟩
  | none =>
    have htable : Form.messages.table? v = none := by simp [Form.table?, ht]
    cases hd : v.present? "docString" with
    | none => exact ⟨htable, hd⟩
    | some d => exact ⟨htable, d, hd, rfl, rfl, rfl⟩

lemma keeps_steps (v : Json) :
    List.Forall₂ (Step.Keeps .messages) (v.itemsAt "steps") (steps v) :=
  forall₂_map (fun s => keeps_step .messages s _ (keeps_block s)) _

lemma keeps_test (v : Json) :
    (test v).Keeps .messages
      (if (v.itemsAt "examples").isEmpty then .scenario else .outline, v) := by
  unfold test
  cases hx : v.itemsAt "examples" with
  | nil => exact keeps_scenario _ (keeps_steps v)
  | cons x xs =>
    exact keeps_outline _ (keeps_steps v) (hx ▸ forall₂_map (keeps_headedExamples (by rfl)) _)

lemma vetted_child (v : Json) :
    Vetted (child v) (Form.messages.strangersOfChild v) (Child.Section .messages v) := by
  unfold child
  split
  · rename_i key w fs
    split
    · exact Vetted.ok ⟨_, rfl, w, rfl, keeps_background _ (keeps_steps w)⟩
    · exact Vetted.ok ⟨_, rfl, keeps_test w⟩
    · rfl
    · rename_i hb hs hr
      have hchild : Form.messages.strangeChild? (.obj ((key, w) :: fs)) = some key.toList := by
        have hkey : ¬ (key = "background" ∨ key = "scenario") := not_or.mpr ⟨hb, hs⟩
        simp only [Form.strangeChild?, if_neg hkey, if_neg hr]
      change Vetted _ (Form.messages.strangeChild? _).toList _
      rw [hchild]
      rfl
  · have hchild : Form.messages.strangeChild? v = some "<empty child>".toList := by
      simp [Form.strangeChild?]
    change Vetted _ (Form.messages.strangeChild? _).toList _
    rw [hchild]
    rfl

lemma vetted_feature (f : Json) :
    Vetted (feature f) ((Form.messages.children f).flatMap Form.messages.strangersOfChild)
      (Feature.Keeps .messages f) :=
  (Vetted.mapM vetted_child _).map fun _ hcs => keeps_feature _ (keeps_children hcs)

lemma vetted_file (path : Option Text) (v : Json) :
    Vetted (file path v) (Form.messages.strangers v) (FeatureFile.Keeps .messages v) := by
  rw [← List.append_nil (Form.messages.strangers v)]
  exact Vetted.option vetted_feature _ fun _ hf => Vetted.ok ⟨hf, keeps_comments v⟩

end Messages

end Shape

/-- A document is vetted by its strangers in every form. -/
lemma Form.vetted_file (form : Form) (name : Text) (v : Json) :
    Shape.Vetted ((form.parsed v).file name) (form.strangers v) (FeatureFile.Keeps form v) := by
  cases form with
  | version2 => exact Shape.Elements.vetted_file _ v
  | version3 => exact Shape.Definitions.vetted_file3 _ v
  | version4 => exact Shape.Definitions.vetted_file4 _ v
  | messages => exact Shape.Messages.vetted_file _ v

/-- A document fails exactly if it has a stranger, and then the first one is named. Without
strangers nothing of it is lost. -/
theorem Form.file_refuses_strangers (form : Form) (name : Text) (v : Json) :
    (∀ e, (form.parsed v).file name = .error e ↔
      ∃ n, (form.strangers v).head? = some n ∧ e = .unknownElementType n)
    ∧ (form.strangers v = [] →
      ∃ file, (form.parsed v).file name = .ok file ∧ file.Keeps form v) := by
  have h := form.vetted_file name v
  cases hs : form.strangers v with
  | nil =>
    rw [hs] at h
    obtain ⟨file, hfile, hkeeps⟩ := h
    exact ⟨by simp [hfile], fun _ => ⟨file, hfile, hkeeps⟩⟩
  | cons n ns =>
    rw [hs] at h
    refine ⟨fun e => ?_, by simp⟩
    simp [h.eq_error, eq_comm]

/-- A definition of an unknown type, with an argument of an unknown type below it. -/
def Form.strangeDocument : Json :=
  .obj [("scenarioDefinitions", .arr [.obj
    [("steps", .arr [.obj [("argument", .obj [("type", .str "Odd")]), ("text", .str "a")]]),
      ("type", .str "Rule")]])]

/-- A scenario with a table, on whose first row the table has its line. -/
def Form.plainDocument : Json :=
  .obj [("scenarioDefinitions", .arr [.obj
    [("steps", .arr [.obj
      [("argument", .obj
          [("rows", .arr [.obj
            [("cells", .arr [.obj [("value", .str "x")]]), ("location", .obj [("line", .int 7)])]]),
            ("type", .str "DataTable")]),
        ("text", .str "a")]]),
      ("type", .str "Scenario")]])]

/-- The argument is met before the definition that it belongs to. -/
theorem Form.file_refuses_strangers_argument :
    Form.version3.strangers strangeDocument = ["Odd".toList, "Rule".toList]
      ∧ (Form.version3.parsed strangeDocument).file [] = .error (.unknownElementType "Odd".toList)
      ∧ Form.version3.strangers plainDocument = []
      ∧ ∃ file, (Form.version3.parsed plainDocument).file [] = .ok file
        ∧ file.Keeps .version3 plainDocument := by
  have hstrange : Form.version3.strangers strangeDocument = ["Odd".toList, "Rule".toList] := rfl
  have hplain : Form.version3.strangers plainDocument = [] := rfl
  refine ⟨hstrange, ?_, hplain, ?_⟩
  · rw [(Form.file_refuses_strangers .version3 [] strangeDocument).1, hstrange]
    exact ⟨_, rfl, rfl⟩
  · exact (Form.file_refuses_strangers .version3 [] plainDocument).2 hplain

end FeatureTree
