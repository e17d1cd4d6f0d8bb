import Mathlib.Tactic.Common
import FeatureTree.Proofs.Grammar.Lexical
import FeatureTree.Grammar.Parse

/-!
Running parsers on a text that is known.

Each parser has a rule for the text on which it succeeds and one for the text on which it fails.
A parser that fails may leave any rest behind; nothing else of the state is changed by the parsers
here, so a state is described by its rest alone.
-/

namespace FeatureTree.Grammar

/-- The state with another text to read. -/
def State.on (s : State) (r : Text) : State := { s with rest := r }

/-- The state after a step of a type. -/
def State.past (s : State) (ty : StepType) : State := { s with last := some ty }

namespace State

variable (s : State) (r q : Text)

@[simp] lemma on_rest : (s.on r).rest = r := rfl
@[simp] lemma on_on : (s.on r).on q = s.on q := rfl
@[simp] lemma on_self : s.on s.rest = s := rfl
@[simp] lemma on_keywords : (s.on r).keywords = s.keywords := rfl
@[simp] lemma on_size : (s.on r).size = s.size := rfl
@[simp] lemma on_last : (s.on r).last = s.last := rfl
@[simp] lemma on_fatal : (s.on r).fatal = s.fatal := rfl

end State

namespace Parse

variable {α β : Type} {p q : Parse α} {f : α → Parse β} {s s' : State} {a : α} {r : Text}

lemma bind_some (h : p s = (some a, s')) : (p >>= f) s = f a s' := by rw [bind_run, h]

lemma bind_none (h : p s = (none, s')) : (p >>= f) s = (none, s') := by rw [bind_run, h]

lemma orElse_some (h : p s = (some a, s')) : orElse p q s = (some a, s') := by
  simp only [orElse, h]

lemma orElse_none (h : p s = (none, s.on r)) : orElse p q s = q s := by
  simp only [orElse, h]
  rfl

lemma optional_some (h : p s = (some a, s')) : optional p s = (some (some a), s') := by
  simp only [optional, h]

lemma optional_none (h : p s = (none, s.on r)) : optional p s = (some none, s) := by
  simp only [optional, h]
  rfl

lemma mark_run (s : State) : mark s = (some s.rest, s) := rfl

lemma skip_run (f : Text → Text) (s : State) : skip f s = (some (), s.on (f s.rest)) := rfl

/-- A parser after which nothing is skipped. -/
lemma bind_skip {f : Text → Text} {k : Unit → Parse α} (h : f s.rest = s.rest) :
    (skip f >>= k) s = k () s := by
  rw [bind_some (skip_run f s), h, State.on_self]

lemma read_some {f : Text → Option (α × Text)} (h : f s.rest = some (a, r)) :
    read f s = (some a, s.on r) := by
  simp only [read, h]
  rfl

lemma read_none {f : Text → Option (α × Text)} (h : f s.rest = none) : read f s = (none, s) := by
  simp only [read, h]

lemma expect_some {f : Text → Option Text} (h : f s.rest = some r) :
    expect f s = (some (), s.on r) :=
  read_some (by rw [h]; rfl)

lemma expect_none {f : Text → Option Text} (h : f s.rest = none) : expect f s = (none, s) :=
  read_none (by rw [h]; rfl)

lemma refuse_some {f : Text → Bool} (h : f s.rest = false) : refuse f s = (some (), s) := by
  simp [refuse, h]

lemma refuse_none {f : Text → Bool} (h : f s.rest = true) : refuse f s = (none, s) := by
  simp [refuse, h]

lemma keyword_some {f : Keywords → List String} {w : Text}
    (h : keyword? (f s.keywords) s.rest = some (w, r)) : keyword f s = (some w, s.on r) :=
  read_some h

lemma keyword_none {f : Keywords → List String} (h : keyword? (f s.keywords) s.rest = none) :
    keyword f s = (none, s) :=
  read_none h

/-! ### Repetition -/

/-- A parser reads items one after the other and then fails, each time on a text with the property
`W`. -/
inductive Reads (W : Text → Prop) (p : Parse α) : State → List α → State → Prop
  | nil {s : State} {r : Text} (hs : W s.rest) (h : p s = (none, s.on r)) : Reads W p s [] s
  | cons {s s' s'' : State} {a : α} {as : List α} (hs : W s.rest) (h : p s = (some a, s'))
      (hlt : s'.rest.length < s.rest.length) (later : Reads W p s' as s'') :
      Reads W p s (a :: as) s''

variable {W : Text → Prop} {as : List α}

lemma Reads.holds (h : Reads W p s as s') : W s.rest := by
  cases h with
  | nil hs _ => exact hs
  | cons hs _ _ _ => exact hs

lemma collect_of_reads (h : Reads W p s as s') : collect p s = (as, s') := by
  induction h with
  | nil _ h =>
    rw [collect, h]
    rfl
  | cons _ h hlt _ ih =>
    rw [collect, h]
    simp only [hlt, if_true, ih]

lemma many_of_reads (h : Reads W p s as s') : many p s = (some as, s') := by
  simp only [many, collect_of_reads h]

/-- Spaces between items that start with words are none. -/
lemma Reads.skipSpaces (h : Reads AtWord p s as s') :
    Reads AtWord (do skip skipSpaces; p) s as s' := by
  induction h with
  | nil hs h => exact .nil hs ((bind_skip hs.skipSpaces).trans h)
  | cons hs h hlt _ ih => exact .cons hs ((bind_skip hs.skipSpaces).trans h) hlt ih

lemma spaced1_of_reads (h : Reads AtWord p s (a :: as) s') :
    spaced1 p s = (some (a :: as), s') := by
  cases h with
  | cons _ h _ later =>
    rw [spaced1, bind_some h, bind_some (many_of_reads later.skipSpaces)]
    rfl

lemma spaced_of_reads (h : Reads AtWord p s as s') : spaced p s = (some as, s') := by
  rcases as with _ | ⟨a, as⟩
  · cases h with
    | @nil _ r _ h =>
      have : spaced1 p s = (none, s.on r) := bind_none h
      rw [spaced, orElse_none this]
      rfl
  · rw [spaced, orElse_some (spaced1_of_reads h)]

end Parse

end FeatureTree.Grammar
