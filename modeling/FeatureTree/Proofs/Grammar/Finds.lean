import Mathlib.Tactic.Common
import FeatureTree.Grammar.Parse

/-!
What a parser can find.

`Finds L M p P` says that every value the parser `p` gives has the property `P`, whatever the text
is, as long as the language is English and the type of the last step is one that `L` allows. The
language is then English still; the type of the last step is one that `M` allows, or one that `L`
allows if the parser failed. Each way to combine parsers has its rule.
-/

namespace FeatureTree.Grammar.Parse

variable {L M : Option StepType → Prop} {α β : Type} {P : α → Prop} {Q : β → Prop}

/-- The state of a parser that reads English, after a step of a type that `L` allows. -/
def English (L : Option StepType → Prop) (s : State) : Prop := s.keywords = .en ∧ L s.last

def Finds (L M : Option StepType → Prop) (p : Parse α) (P : α → Prop) : Prop :=
  ∀ s, English L s → ((p s).1 = none → English L (p s).2)
    ∧ ∀ a, (p s).1 = some a → P a ∧ English M (p s).2

lemma English.withRest {s : State} (h : English L s) (r : Text) : English L { s with rest := r } := h

lemma Finds.mono {P' : α → Prop} {p : Parse α} (hp : Finds L M p P) (h : ∀ a, P a → P' a) :
    Finds L M p P' := by
  intro s hs
  refine ⟨(hp s hs).1, fun a ha => ?_⟩
  obtain ⟨hP, hM⟩ := (hp s hs).2 a ha
  exact ⟨h a hP, hM⟩

/-- A parser that always gives a value finds what it gives. -/
lemma Finds.of_total {p : Parse α} {v : State → α} {n : State → State}
    (hp : ∀ s, p s = (some (v s), n s)) (h : ∀ s, English L s → P (v s) ∧ English M (n s)) :
    Finds L M p P := by
  intro s hs
  rw [hp]
  refine ⟨by simp, fun a ha => ?_⟩
  rw [← Option.some.inj ha]
  exact h s hs

lemma Finds.pure {a : α} (h : P a) : Finds L L (pure a) P :=
  Finds.of_total (fun _ => rfl) fun _ hs => ⟨h, hs⟩

lemma Finds.bind {p : Parse α} {f : α → Parse β} (hp : Finds L L p P)
    (hf : ∀ a, P a → Finds L M (f a) Q) : Finds L M (p >>= f) Q := by
  intro s hs
  obtain ⟨h₁, h₂⟩ := hp s hs
  rw [bind_run]
  rcases hps : p s with ⟨_ | a, s'⟩
  · rw [hps] at h₁
    exact ⟨fun _ => h₁ rfl, by simp⟩
  · rw [hps] at h₂
    obtain ⟨ha, hs'⟩ := h₂ a rfl
    exact hf a ha s' hs'

lemma Finds.weaken {M' : Option StepType → Prop} {p : Parse α} (hp : Finds L M p P)
    (h : ∀ o, M o → M' o) : Finds L M' p P := by
  intro s hs
  refine ⟨(hp s hs).1, fun a ha => ?_⟩
  obtain ⟨hP, hk, hM⟩ := (hp s hs).2 a ha
  exact ⟨hP, hk, h _ hM⟩

/-- What follows a parser may rely on the step that it found, if nothing fails from there on. -/
lemma Finds.bind_total {N : Option StepType → Prop} {p : Parse α} {f : α → Parse β}
    (hp : Finds L N p P) (hf : ∀ a, P a → Finds N M (f a) Q)
    (htotal : ∀ a s, (f a s).1 ≠ none) : Finds L M (p >>= f) Q := by
  intro s hs
  obtain ⟨h₁, h₂⟩ := hp s hs
  rw [bind_run]
  rcases hps : p s with ⟨_ | a, s'⟩
  · rw [hps] at h₁
    exact ⟨fun _ => h₁ rfl, by simp⟩
  · rw [hps] at h₂
    obtain ⟨ha, hs'⟩ := h₂ a rfl
    exact ⟨fun h => absurd h (htotal a s'), (hf a ha s' hs').2⟩

lemma Finds.orElse {p q : Parse α} (hp : Finds L M p P) (hq : Finds L M q P) :
    Finds L M (orElse p q) P := by
  intro s hs
  obtain ⟨h₁, h₂⟩ := hp s hs
  rw [Parse.orElse]
  rcases hps : p s with ⟨_ | a, s'⟩
  · rw [hps] at h₁
    exact hq _ ((h₁ rfl).withRest _)
  · rw [hps] at h₂
    exact ⟨by simp, h₂⟩

lemma Finds.optional {p : Parse α} (hp : Finds L L p P) :
    Finds L L (optional p) fun o => ∀ a, o = some a → P a := by
  intro s hs
  obtain ⟨h₁, h₂⟩ := hp s hs
  rw [Parse.optional]
  rcases hps : p s with ⟨_ | a, s'⟩
  · rw [hps] at h₁
    refine ⟨by simp, fun o ho => ⟨?_, (h₁ rfl).withRest _⟩⟩
    rintro a rfl
    simp at ho
  · rw [hps] at h₂
    obtain ⟨ha, hs'⟩ := h₂ a rfl
    refine ⟨by simp, fun o ho => ⟨?_, hs'⟩⟩
    rintro b rfl
    rwa [← Option.some.inj (Option.some.inj ho)]

lemma Finds.many {p : Parse α} (hp : Finds L L p P) :
    Finds L L (many p) fun as => ∀ a ∈ as, P a := by
  have key : ∀ n s, s.rest.length = n → English L s →
      (∀ a ∈ (collect p s).1, P a) ∧ English L (collect p s).2 := by
    intro n
    induction n using Nat.strongRecOn with
    | ind n ih =>
      intro s hn hs
      obtain ⟨h₁, h₂⟩ := hp s hs
      rw [collect]
      rcases hps : p s with ⟨_ | a, s'⟩
      · rw [hps] at h₁
        exact ⟨by simp, (h₁ rfl).withRest _⟩
      · rw [hps] at h₂
        obtain ⟨ha, hs'⟩ := h₂ a rfl
        by_cases hlt : s'.rest.length < s.rest.length
        · obtain ⟨h₃, h₄⟩ := ih s'.rest.length (by omega) s' rfl hs'
          simp only [hlt, if_true]
          exact ⟨by simpa using ⟨ha, h₃⟩, h₄⟩
        · simp only [hlt, if_false]
          exact ⟨by simpa using ha, hs'⟩
  exact Finds.of_total (fun _ => rfl) fun s hs => key _ s rfl hs

lemma Finds.skip (f : Text → Text) : Finds L L (skip f) fun _ => True :=
  Finds.of_total (fun _ => rfl) fun _ hs => ⟨trivial, hs⟩

lemma Finds.read {f : Text → Option (α × Text)} (hf : ∀ t a r, f t = some (a, r) → P a) :
    Finds L L (read f) P := by
  intro s hs
  rw [Parse.read]
  rcases hfs : f s.rest with _ | ⟨a, r⟩
  · exact ⟨fun _ => hs, by simp⟩
  · refine ⟨by simp, fun b hb => ⟨?_, hs.withRest r⟩⟩
    rw [← Option.some.inj hb]
    exact hf _ _ _ hfs

lemma Finds.expect (f : Text → Option Text) : Finds L L (expect f) fun _ => True :=
  Finds.read fun _ _ _ _ => trivial

lemma Finds.refuse (f : Text → Bool) : Finds L L (refuse f) fun _ => True := by
  intro s hs
  rw [Parse.refuse]
  split
  · exact ⟨fun _ => hs, by simp⟩
  · exact ⟨by simp, fun _ _ => ⟨trivial, hs⟩⟩

lemma Finds.spaced1 {p : Parse α} (hp : Finds L L p P) :
    Finds L L (spaced1 p) fun as => as ≠ [] ∧ ∀ a ∈ as, P a :=
  hp.bind fun a ha =>
    (Finds.many ((Finds.skip skipSpaces).bind fun _ _ => hp)).bind fun as has =>
      Finds.pure ⟨by simp, by simpa using ⟨ha, has⟩⟩

lemma Finds.spaced {p : Parse α} (hp : Finds L L p P) :
    Finds L L (spaced p) fun as => ∀ a ∈ as, P a :=
  (hp.spaced1.mono fun _ h => h.2).orElse (Finds.pure (by simp))

/-- The words of the language are the English ones. -/
lemma Finds.words (f : Keywords → List String) : Finds L L (words f) fun ws => ws = f .en :=
  Finds.of_total (fun _ => rfl) fun _ hs => ⟨by rw [hs.1], hs⟩

lemma mem_of_keyword? {ws : List String} {t w r : Text} (h : keyword? ws t = some (w, r)) :
    w ∈ ws.map String.toList := by
  rw [keyword?] at h
  obtain ⟨v, hv, hr⟩ := List.exists_of_findSome?_eq_some h
  obtain ⟨u, -, hu⟩ := Option.map_eq_some_iff.mp hr
  rw [← (Prod.mk.inj hu).1]
  exact List.mem_map_of_mem hv

lemma Finds.keyword (f : Keywords → List String) :
    Finds L L (keyword f) fun w => w ∈ (f .en).map String.toList :=
  (Finds.words f).bind fun _ hws => Finds.read fun _ _ _ h => hws ▸ mem_of_keyword? h

lemma Finds.reject : Finds L M (reject : Parse α) P :=
  fun _ hs => ⟨fun _ => hs, by simp [Parse.reject]⟩

lemma Finds.mark : Finds L L mark fun _ => True :=
  Finds.of_total (fun _ => rfl) fun _ hs => ⟨trivial, hs⟩

lemma Finds.span (start stop : Text) : Finds L L (span start stop) fun _ => True :=
  Finds.of_total (fun _ => rfl) fun _ hs => ⟨trivial, hs⟩

lemma Finds.position (start : Text) : Finds L L (position start) fun _ => True :=
  Finds.of_total (fun _ => rfl) fun _ hs => ⟨trivial, hs⟩

/-- There is no type to go on with if there was no step. -/
lemma Finds.last_of_none : Finds (· = none) M last fun _ => False := by
  intro s hs
  refine ⟨fun _ => hs, fun a ha => ?_⟩
  have : s.last = some a := ha
  simp [hs.2] at this

lemma Finds.last : Finds (fun _ => True) (fun _ => True) last fun _ => True :=
  fun _ hs => ⟨fun _ => hs, fun _ _ => ⟨trivial, hs⟩⟩

end FeatureTree.Grammar.Parse
