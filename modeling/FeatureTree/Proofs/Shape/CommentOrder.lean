import FeatureTree.Proofs.Node.Preorder
import FeatureTree.Shape.Basic

/-!
The comments of a version 2 document, in the order of their lines.

A comment has a place in the list of comments of some node, and a path of branches leads from the
feature to that node. The search meets these spots in lexicographic order and each of them once.
Comments of one line are left in that order when they are sorted.
-/

namespace FeatureTree.Shape.Elements

/-- A way down from a node: the position of a key among those that are searched, and that of an item
in the list at this key. -/
structure Branch where
  key : Nat
  item : Nat

def Branch.Before (a b : Branch) : Prop := a.key < b.key ∨ a.key = b.key ∧ a.item < b.item

/-- Where a comment stands: the path to its node, and its position among the comments there. -/
structure Spot where
  path : List Branch
  index : Nat

namespace Spot

/-- A node comes before all that lies below it, and what lies below it goes by its branches. -/
def Before (s t : Spot) : Prop :=
  List.Lex Branch.Before s.path t.path ∨ s.path = t.path ∧ s.index < t.index

lemma Before.ne {s t : Spot} (h : s.Before t) : s ≠ t := by
  rintro rfl
  rcases h with h | ⟨-, h⟩
  · refine List.lex_irrefl (fun b hb => ?_) _ h
    rcases hb with hb | ⟨-, hb⟩ <;> exact Nat.lt_irrefl _ hb
  · exact Nat.lt_irrefl _ h

/-- The spot as it is seen from the node above. -/
def below (b : Branch) (s : Spot) : Spot := { s with path := b :: s.path }

lemma Before.below {s t : Spot} (h : s.Before t) (b : Branch) : (s.below b).Before (t.below b) := by
  rcases h with h | ⟨hpath, hindex⟩
  · exact .inl (.cons h)
  · exact .inr ⟨congrArg (b :: ·) hpath, hindex⟩

lemma before_of_branch {a b : Branch} (h : a.Before b) (s t : Spot) :
    (s.below a).Before (t.below b) :=
  .inl (.rel h)

end Spot

/-- The node that a branch leads to. -/
def child? (b : Branch) (v : Json) : Option Json :=
  ["elements", "steps", "examples", "rows"][b.key]?.bind fun k => (v.itemsAt k)[b.item]?

/-- The node that a path leads to. -/
def node? : List Branch → Json → Option Json
  | [], v => some v
  | b :: p, v => (child? b v).bind (node? p)

/-- The comment at a spot, as the document has it. -/
def commentAt? (s : Spot) (v : Json) : Option Json :=
  (node? s.path v).bind fun w => (w.itemsAt "comments")[s.index]?

/-! ### Branches -/

/-- The branches of a node in the order of the search, and where they lead. -/
def branches (v : Json) : List (Branch × Json) :=
  keys.zipIdx.flatMap fun (k, i) => (v.itemsAt k).zipIdx.map fun (c, j) => (⟨i, j⟩, c)

lemma mem_branches {v c : Json} {b : Branch} : (b, c) ∈ branches v ↔ child? b v = some c := by
  obtain ⟨i, j⟩ := b
  change _ ↔ keys[i]?.bind (fun k => (v.itemsAt k)[j]?) = some c
  simp only [branches, List.mem_flatMap, List.mem_map, Prod.exists,
    List.mem_zipIdx_iff_getElem?, Prod.mk.injEq, Branch.mk.injEq, Option.bind_eq_some_iff]
  constructor
  · rintro ⟨k, i', hk, c', j', hc, ⟨rfl, rfl⟩, rfl⟩
    exact ⟨k, hk, hc⟩
  · rintro ⟨k, hk, hc⟩
    exact ⟨k, i, hk, c, j, hc, ⟨rfl, rfl⟩, rfl⟩

lemma pairwise_branches (v : Json) : (branches v).Pairwise fun a b => a.1.Before b.1 := by
  rw [branches, List.pairwise_flatMap]
  constructor
  · rintro ⟨k, i⟩ -
    rw [List.pairwise_map]
    exact (pairwise_zipIdx _).imp fun h => .inr ⟨rfl, h⟩
  · refine (pairwise_zipIdx keys).imp ?_
    rintro ⟨k, i⟩ ⟨l, j⟩ hij a ha b hb
    obtain ⟨x, -, rfl⟩ := List.mem_map.mp ha
    obtain ⟨y, -, rfl⟩ := List.mem_map.mp hb
    exact .inl hij

lemma sizeOf_lt_of_mem_branches {v : Json} {b : Branch × Json} (h : b ∈ branches v) :
    sizeOf b.2 < sizeOf v := by
  obtain ⟨k, -, hc⟩ := Option.bind_eq_some_iff.mp (mem_branches.mp h)
  exact sizeOf_lt_of_mem_itemsAt (List.mem_of_getElem? hc)

/-- What holds of a value if it holds where its branches lead holds of every value. -/
lemma branches_induction {P : Json → Prop} (step : ∀ v, (∀ b ∈ branches v, P b.2) → P v)
    (v : Json) : P v := by
  induction hn : sizeOf v using Nat.strongRecOn generalizing v with
  | ind n ih =>
    subst hn
    exact step v fun b hb => ih _ (sizeOf_lt_of_mem_branches hb) b.2 rfl

lemma flatMap_zipIdx_fst {α β : Type} (xs : List α) (f : α → List β) :
    xs.zipIdx.flatMap (fun x => f x.1) = xs.flatMap f := by
  rw [← List.flatMap_map, List.zipIdx_map_fst]

lemma commentsBelow_branches (v : Json) :
    commentsBelow v = comments v ++ (branches v).flatMap fun b => commentsBelow b.2 := by
  rw [commentsBelow_eq, branches, List.flatMap_assoc]
  simp only [List.flatMap_map, flatMap_zipIdx_fst]
  rw [flatMap_zipIdx_fst keys fun k => (v.itemsAt k).flatMap commentsBelow]

/-! ### The walk -/

/-- The comments at a node and below it, each with its spot, in the order of the search. -/
def walk (v : Json) : List (Spot × Json) :=
  ((v.itemsAt "comments").zipIdx.map fun (c, i) => (⟨[], i⟩, c))
    ++ (branches v).attach.flatMap fun b => (walk b.1.2).map (Prod.map (Spot.below b.1.1) id)
termination_by sizeOf v
decreasing_by exact sizeOf_lt_of_mem_branches b.2

lemma walk_eq (v : Json) :
    walk v = ((v.itemsAt "comments").zipIdx.map fun (c, i) => (⟨[], i⟩, c))
      ++ (branches v).flatMap fun b => (walk b.2).map (Prod.map (Spot.below b.1) id) := by
  have hforget := List.flatMap_subtype (l := (branches v).attach)
    (f := fun b => (walk b.1.2).map (Prod.map (Spot.below b.1.1) id))
    (g := fun b => (walk b.2).map (Prod.map (Spot.below b.1) id)) fun _ _ => rfl
  rw [walk, hforget, List.unattach_attach]

lemma commentsBelow_eq_walk (v : Json) : commentsBelow v = (walk v).map fun s => comment s.2 := by
  induction v using branches_induction with
  | step v ih =>
    have hown : ((v.itemsAt "comments").zipIdx.map fun (c, i) => ((⟨[], i⟩, c) : Spot × Json)).map
        (fun s => comment s.2) = comments v := by
      rw [List.map_map, comments, ← List.zipIdx_map_fst 0 (v.itemsAt "comments"), List.map_map]
      simp [Function.comp_def]
    rw [walk_eq, commentsBelow_branches, List.map_append, hown, List.map_flatMap]
    refine congrArg (comments v ++ ·) (List.flatMap_congr fun b hb => ?_)
    rw [ih b hb, List.map_map]
    rfl

lemma mem_walk_nil {v c : Json} {i : Nat} :
    (⟨[], i⟩, c) ∈ walk v ↔ (v.itemsAt "comments")[i]? = some c := by
  rw [walk_eq, List.mem_append]
  constructor
  · rintro (h | h)
    · obtain ⟨⟨c', j⟩, hc, heq⟩ := List.mem_map.mp h
      cases heq
      exact List.mem_zipIdx_iff_getElem?.mp hc
    · obtain ⟨b, -, h⟩ := List.mem_flatMap.mp h
      obtain ⟨t, -, heq⟩ := List.mem_map.mp h
      cases heq
  · exact fun h => .inl (List.mem_map.mpr ⟨(c, i), List.mem_zipIdx_iff_getElem?.mpr h, rfl⟩)

lemma mem_walk_cons {v c : Json} {b : Branch} {p : List Branch} {i : Nat} :
    (⟨b :: p, i⟩, c) ∈ walk v ↔ ∃ w, child? b v = some w ∧ (⟨p, i⟩, c) ∈ walk w := by
  rw [walk_eq, List.mem_append]
  constructor
  · rintro (h | h)
    · obtain ⟨⟨c', j⟩, -, heq⟩ := List.mem_map.mp h
      cases heq
    · obtain ⟨⟨a, w⟩, ha, h⟩ := List.mem_flatMap.mp h
      obtain ⟨⟨s, c'⟩, hs, heq⟩ := List.mem_map.mp h
      cases heq
      exact ⟨w, mem_branches.mp ha, hs⟩
  · rintro ⟨w, hw, hc⟩
    exact .inr (List.mem_flatMap.mpr
      ⟨(b, w), mem_branches.mpr hw, List.mem_map.mpr ⟨(⟨p, i⟩, c), hc, rfl⟩⟩)

/-- The walk meets the comments of a document and nothing else. -/
lemma mem_walk {v c : Json} {s : Spot} : (s, c) ∈ walk v ↔ commentAt? s v = some c := by
  obtain ⟨p, i⟩ := s
  induction p generalizing v with
  | nil => exact mem_walk_nil
  | cons b p ih =>
    rw [mem_walk_cons, commentAt?, node?, Option.bind_assoc, Option.bind_eq_some_iff]
    exact exists_congr fun w => and_congr_right fun _ => ih

/-- **The walk meets the spots in their order**, so none of them twice. -/
lemma pairwise_walk (v : Json) : (walk v).Pairwise fun s t => s.1.Before t.1 := by
  induction v using branches_induction with
  | step v ih =>
    rw [walk_eq, List.pairwise_append, List.pairwise_flatMap]
    refine ⟨?_, ⟨fun b hb => ?_, ?_⟩, ?_⟩
    · rw [List.pairwise_map]
      exact (pairwise_zipIdx _).imp fun h => .inr ⟨rfl, h⟩
    · rw [List.pairwise_map]
      exact (ih b hb).imp fun h => h.below b.1
    · refine (pairwise_branches v).imp fun {a b} hab s hs t ht => ?_
      obtain ⟨s, -, rfl⟩ := List.mem_map.mp hs
      obtain ⟨t, -, rfl⟩ := List.mem_map.mp ht
      exact Spot.before_of_branch hab s.1 t.1
    · intro s hs t ht
      obtain ⟨-, -, rfl⟩ := List.mem_map.mp hs
      obtain ⟨b, -, ht⟩ := List.mem_flatMap.mp ht
      obtain ⟨t, -, rfl⟩ := List.mem_map.mp ht
      exact .inl .nil

/-! ### The sort -/

lemma notAfter_iff {a b : Comment} : notAfter a b = true ↔ a.line ≤ b.line := by
  rw [notAfter]
  cases a.line <;> cases b.line <;> simp

lemma notAfter_of_line_eq {a b : Comment} (h : a.line = b.line) : notAfter a b = true := by
  rw [notAfter, h]
  cases b.line <;> simp

lemma notAfter_trans (a b c : Comment) (hab : notAfter a b = true) (hbc : notAfter b c = true) :
    notAfter a c = true := by
  rw [notAfter_iff] at *
  revert hab hbc
  cases a.line <;> cases b.line <;> cases c.line <;> simp
  omega

lemma notAfter_total (a b : Comment) : (notAfter a b || notAfter b a) = true := by
  rw [notAfter, notAfter]
  cases a.line <;> cases b.line <;> simp
  omega

/-- The comments of one line are where they were among themselves. -/
lemma filter_mergeSort_line (cs : List Comment) (line : Option Nat) :
    (cs.mergeSort notAfter).filter (fun c => c.line = line) = cs.filter fun c => c.line = line := by
  set p : Comment → Bool := fun c => c.line = line with hp
  -- comments of one line are sorted as they stand, so the sort does not part them
  have htied : (cs.filter p).Pairwise fun a b => notAfter a b = true := by
    rw [List.pairwise_filter]
    refine List.pairwise_of_forall fun a b ha hb => notAfter_of_line_eq ?_
    simp only [hp, decide_eq_true_eq] at ha hb
    rw [ha, hb]
  have hsub : (cs.filter p).Sublist (cs.mergeSort notAfter) :=
    List.sublist_mergeSort notAfter_trans notAfter_total htied List.filter_sublist
  have hfilter := hsub.filter p
  rw [List.filter_filter] at hfilter
  simp only [Bool.and_self] at hfilter
  exact (hfilter.eq_of_length ((List.mergeSort_perm cs notAfter).filter p).length_eq.symm).symm

lemma file_comments {v f : Json} {rest : List Json} {path : Option Text} {file : FeatureFile}
    (hv : v.items = f :: rest) (hfile : Elements.file path v = .ok file) :
    file.comments = ((walk f).map fun s => comment s.2).mergeSort notAfter := by
  rw [← commentsBelow_eq_walk]
  rw [Elements.file, hv] at hfile
  cases hfeature : feature f with
  | error e => simp [hfeature, bind, Except.bind] at hfile
  | ok g =>
    simp only [hfeature, bind, Except.bind, pure, Except.pure, Except.ok.injEq] at hfile
    rw [← hfile]

/-- **Comments are collected once and put in the order of their lines.** In the file of a document
with a feature there is one comment for each spot below that feature, and no other. Those without a
line come first and the others go by their lines; of two on one line, the one that the walk meets
first comes first. -/
theorem file_comments_in_line_order {v f : Json} {rest : List Json} {name : Text}
    {file : FeatureFile} (hv : v.items = f :: rest)
    (hfile : (Parsed.version2 v).file name = .ok file) :
    (∀ s c, (s, c) ∈ walk f ↔ commentAt? s f = some c)
      ∧ (walk f).Pairwise (fun s t => s.1.Before t.1)
      ∧ ((walk f).map Prod.fst).Nodup
      ∧ file.comments.Perm ((walk f).map fun s => comment s.2)
      ∧ file.comments.Pairwise (fun a b => a.line ≤ b.line)
      ∧ ∀ line, file.comments.filter (fun c => c.line = line)
        = ((walk f).map fun s => comment s.2).filter fun c => c.line = line := by
  have hcomments := file_comments hv hfile
  refine ⟨fun s c => mem_walk, pairwise_walk f, ?_, ?_, ?_, fun line => ?_⟩
  · rw [List.nodup_iff_pairwise_ne, List.pairwise_map]
    exact (pairwise_walk f).imp Spot.Before.ne
  · rw [hcomments]
    exact List.mergeSort_perm _ _
  · rw [hcomments]
    exact (List.pairwise_mergeSort notAfter_trans notAfter_total _).imp notAfter_iff.mp
  · rw [hcomments, filter_mergeSort_line]

/-- Comments on four levels. Three of them are on one line, and one is on none. -/
def spreadFeature : Json :=
  .obj
    [("comments", .arr
        [.obj [("line", .int 3), ("text", .str "# a")], .obj [("text", .str "# b ")]]),
      ("elements", .arr [.obj
        [("comments", .arr [.obj [("line", .int 3), ("text", .str "# c")]]),
          ("steps", .arr [.obj
            [("comments", .arr [.obj [("line", .int 2), ("value", .str "# d")]]),
              ("rows", .arr [.obj
                [("comments", .arr [.obj [("line", .int 3), ("value", .str "# e")]])]])]]),
          ("type", .str "scenario")]])]

def spreadDocument : Json := .arr [spreadFeature]

/-- The search meets the comments in the order of their letters, and the sort moves `# b` and `# d`
to the front. -/
lemma mergeSort_spreadFeature :
    (commentsBelow spreadFeature).mergeSort notAfter = [.obj [("text", .str "# b ")],
      .obj [("line", .int 2), ("value", .str "# d")], .obj [("line", .int 3), ("text", .str "# a")],
      .obj [("line", .int 3), ("text", .str "# c")],
      .obj [("line", .int 3), ("value", .str "# e")]].map comment := by
  have hbelow : commentsBelow spreadFeature = [.obj [("line", .int 3), ("text", .str "# a")],
      .obj [("text", .str "# b ")], .obj [("line", .int 3), ("text", .str "# c")],
      .obj [("line", .int 2), ("value", .str "# d")],
      .obj [("line", .int 3), ("value", .str "# e")]].map comment := by
    simp [spreadFeature, commentsBelow_eq, comments, keys, Json.itemsAt, Json.get?,
      List.lookup_cons, Json.items]
  rw [hbelow]
  simp [List.mergeSort, List.cons_merge_cons, notAfter, comment, line, Json.get?, List.lookup_cons,
    Json.nat?]

theorem file_comments_in_line_order_spread :
    ∃ f file, spreadDocument.items = [f] ∧ (Parsed.version2 spreadDocument).file [] = .ok file
      ∧ file.comments.map Comment.text
        = ["# b".toList, "# d".toList, "# a".toList, "# c".toList, "# e".toList]
      ∧ file.comments.filter (fun c => c.line = some 3)
        = ((walk f).map fun s => comment s.2).filter fun c => c.line = some 3 := by
  have hfile : (Parsed.version2 spreadDocument).file [] = .ok _ := rfl
  refine ⟨spreadFeature, _, rfl, hfile, ?_,
    (file_comments_in_line_order rfl hfile).2.2.2.2.2 (some 3)⟩
  change ((commentsBelow spreadFeature).mergeSort notAfter).map Comment.text = _
  rw [mergeSort_spreadFeature]
  decide

end FeatureTree.Shape.Elements
