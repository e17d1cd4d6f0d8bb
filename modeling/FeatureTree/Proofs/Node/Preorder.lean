import FeatureTree.Node.Cursor
import FeatureTree.Proofs.Related

/-!
The walk below a cursor is the preorder of the tree.

A position below a node is a path of child positions. In the lexicographic order of positions a node
comes before all that lies below it, and that before the next sibling, so the walk meets the
positions in increasing order and each of them once. The nodes above a cursor that it meets are those
at the shorter parts of its path, and then those above the cursor where the walk started.
-/

namespace FeatureTree

/-- The result of looking for the first element that has a property. -/
def IsFirst {α : Type} (p : α → Bool) (xs : List α) : Option α → Prop
  | none => ∀ x ∈ xs, p x = false
  | some x => p x = true ∧ ∃ before after, xs = before ++ x :: after ∧ ∀ y ∈ before, p y = false

lemma isFirst_find? {α : Type} (p : α → Bool) (xs : List α) : IsFirst p xs (xs.find? p) := by
  cases h : xs.find? p with
  | none => exact fun x hx => by simpa using List.find?_eq_none.mp h x hx
  | some x => simpa [IsFirst] using List.find?_eq_some_iff_append.mp h

/-- The positions in a list go up. -/
lemma pairwise_zipIdx {α : Type} (xs : List α) : xs.zipIdx.Pairwise (·.2 < ·.2) := by
  have hrange : (xs.zipIdx.map Prod.snd).Pairwise (· < ·) := by
    rw [List.zipIdx_map_snd]
    exact List.pairwise_lt_range'
  exact List.pairwise_map.mp hrange

namespace Node

/-- What holds of a node if it holds of its children holds of every node. -/
lemma children_induction {P : Node → Prop} (step : ∀ n, (∀ m ∈ n.children, P m) → P n) (n : Node) :
    P n := by
  induction hn : n.rank using Nat.strongRecOn generalizing n with
  | ind r ih =>
    subst hn
    exact step n fun m hm => ih m.rank (rank_lt_of_mem_children hm) m rfl

lemma descend?_append (p q : List Nat) (n : Node) :
    n.descend? (p ++ q) = (n.descend? p).bind (descend? q) := by
  induction p generalizing n with
  | nil => rfl
  | cons i p ih =>
    rw [List.cons_append, descend?, descend?]
    cases n.children[i]? with
    | none => rfl
    | some m => exact ih m

/-! ### Positions -/

/-- The positions below a node: for each child its own, and then the ones below it. -/
def positions (n : Node) : List (List Nat) :=
  n.children.attach.zipIdx.flatMap fun (m, i) => [i] :: m.1.positions.map (i :: ·)
termination_by n.rank
decreasing_by exact rank_lt_of_mem_children m.2

lemma positions_eq (n : Node) :
    n.positions = n.children.zipIdx.flatMap fun (m, i) => [i] :: m.positions.map (i :: ·) := by
  have hval : n.children.zipIdx = n.children.attach.zipIdx.map (Prod.map Subtype.val id) := by
    rw [← List.zipIdx_map, List.attach_map_subtype_val]
  rw [positions, hval, List.flatMap_map]
  rfl

lemma mem_branch {ps : List (List Nat)} {i : Nat} {p : List Nat} :
    p ∈ [i] :: ps.map (i :: ·) ↔ ∃ is, p = i :: is ∧ (is = [] ∨ is ∈ ps) := by
  constructor
  · intro hp
    rcases List.mem_cons.mp hp with rfl | hp
    · exact ⟨[], rfl, .inl rfl⟩
    · obtain ⟨is, his, rfl⟩ := List.mem_map.mp hp
      exact ⟨is, rfl, .inr his⟩
  · rintro ⟨is, rfl, rfl | his⟩
    · exact List.mem_cons_self
    · exact List.mem_cons_of_mem _ (List.mem_map_of_mem his)

lemma cons_mem_positions {n : Node} {i : Nat} {is : List Nat} :
    i :: is ∈ n.positions ↔ ∃ m, n.children[i]? = some m ∧ (is = [] ∨ is ∈ m.positions) := by
  rw [positions_eq, List.mem_flatMap]
  constructor
  · rintro ⟨⟨m, j⟩, hm, hp⟩
    obtain ⟨js, heq, hjs⟩ := mem_branch.mp hp
    obtain ⟨rfl, rfl⟩ := List.cons.inj heq
    exact ⟨m, List.mem_zipIdx_iff_getElem?.mp hm, hjs⟩
  · rintro ⟨m, hm, his⟩
    exact ⟨(m, i), List.mem_zipIdx_iff_getElem?.mpr hm, mem_branch.mpr ⟨is, rfl, his⟩⟩

/-- The positions below a node are the paths, other than the empty one, that lead to a node. -/
lemma mem_positions {n : Node} {p : List Nat} :
    p ∈ n.positions ↔ p ≠ [] ∧ (n.descend? p).isSome = true := by
  induction p generalizing n with
  | nil =>
    rw [positions_eq]
    simp
  | cons i is ih =>
    rw [cons_mem_positions, descend?]
    cases n.children[i]? with
    | none => simp
    | some m =>
      cases is with
      | nil => simp [descend?]
      | cons j js => simp [ih]

/-- **Positions are listed in lexicographic order**, so none of them twice. -/
lemma pairwise_positions (n : Node) : n.positions.Pairwise (· < ·) := by
  induction n using children_induction with
  | step n ih =>
    rw [positions_eq, List.pairwise_flatMap]
    constructor
    · -- a child comes before all that lies below it
      rintro ⟨m, i⟩ hm
      have hchild : m ∈ n.children := List.mem_of_getElem? (List.mem_zipIdx_iff_getElem?.mp hm)
      rw [List.pairwise_cons]
      constructor
      · intro q hq
        obtain ⟨is, his, rfl⟩ := List.mem_map.mp hq
        rcases is with _ | ⟨j, js⟩
        · exact absurd rfl (mem_positions.mp his).1
        · exact .cons .nil
      · rw [List.pairwise_map]
        exact (ih m hchild).imp fun h => .cons h
    · -- and all that before the next child
      refine (pairwise_zipIdx n.children).imp ?_
      rintro ⟨m, i⟩ ⟨m', j⟩ hij p hp q hq
      obtain ⟨is, rfl, -⟩ := mem_branch.mp hp
      obtain ⟨js, rfl, -⟩ := mem_branch.mp hq
      exact .rel hij

end Node

namespace Cursor

/-! ### The preorder -/

/-- All that lies below a cursor: each child, and after it what lies below it. -/
def preorder (c : Cursor) : List Cursor :=
  c.children.attach.flatMap fun d => d.1 :: d.1.preorder
termination_by c.node.rank
decreasing_by
  obtain ⟨_, hd⟩ := d
  obtain ⟨m, hm, rfl⟩ := List.mem_map.mp hd
  exact Node.rank_lt_of_mem_children hm

lemma preorder_eq (c : Cursor) : c.preorder = c.children.flatMap fun d => d :: d.preorder := by
  rw [preorder]
  simp

/-- A forest is walked through tree by tree. -/
lemma walk_eq (forest : List Cursor) : walk forest = forest.flatMap fun d => d :: d.preorder := by
  fun_induction walk forest with
  | case1 => rfl
  | case2 c forest ih =>
    rw [ih, List.flatMap_append, ← preorder_eq, List.flatMap_cons, List.cons_append]

/-! ### The loop

The cursors that are still to be visited are kept on a stack whose top is the end of the list. -/

structure Visit where
  found : List Cursor
  pending : List Cursor

namespace Visit

/-- One turn visits the cursor on top of the stack and puts its children there, the first one on
top. -/
def turn (v : Visit) : Option Visit :=
  v.pending.getLast?.map fun c => ⟨v.found ++ [c], v.pending.dropLast ++ c.children.reverse⟩

/-- Turn after turn the loop comes to an end, with this result. -/
inductive Ends : Visit → List Cursor → Prop
  | done {v} : v.turn = none → Ends v v.found
  | next {v w found} : v.turn = some w → Ends w found → Ends v found

/-- From any state on, the loop finds what a walk through the stack finds. -/
lemma ends_walk (found forest : List Cursor) :
    Ends ⟨found, forest.reverse⟩ (found ++ walk forest) := by
  fun_induction walk forest generalizing found with
  | case1 =>
    rw [List.append_nil]
    exact .done rfl
  | case2 c forest ih =>
    have hturn : turn ⟨found, (c :: forest).reverse⟩
        = some ⟨found ++ [c], (c.children ++ forest).reverse⟩ := by
      simp [turn]
    refine .next hturn ?_
    have hrest := ih (found ++ [c])
    rwa [List.append_assoc, List.singleton_append] at hrest

end Visit

/-! ### Where a cursor stands -/

/-- `d` stands at position `p` below `c`. The nodes above it are those at the shorter parts of the
path, the longest first, and then those above `c`. -/
structure Reaches (c : Cursor) (p : List Nat) (d : Cursor) : Prop where
  node : c.node.descend? p = some d.node
  above : d.above.map some
    = (List.range p.length).reverse.map (fun i => c.node.descend? (p.take i)) ++ c.above.map some

lemma Reaches.depth {c d : Cursor} {p : List Nat} (h : c.Reaches p d) :
    d.depth = c.depth + p.length := by
  have hlen := congrArg List.length h.above
  simp only [List.length_map, List.length_append, List.length_reverse, List.length_range] at hlen
  rw [Cursor.depth, Cursor.depth]
  omega

lemma Reaches.refl (c : Cursor) : c.Reaches [] c := ⟨rfl, rfl⟩

/-- One step down. -/
lemma Reaches.child {c d : Cursor} {p : List Nat} (h : c.Reaches p d) {i : Nat} {m : Node}
    (hm : d.node.children[i]? = some m) : c.Reaches (p ++ [i]) ⟨m, d.node :: d.above⟩ := by
  constructor
  · rw [Node.descend?_append, h.node]
    simp [Node.descend?, hm]
  · have htake : ∀ j ∈ (List.range p.length).reverse,
        c.node.descend? ((p ++ [i]).take j) = c.node.descend? (p.take j) := by
      intro j hj
      have hlt : j < p.length := by simpa using hj
      rw [List.take_append_of_le_length (by omega)]
    rw [List.length_append, List.length_singleton, List.range_succ, List.reverse_append,
      List.reverse_singleton, List.singleton_append]
    simp only [List.map_cons, List.cons_append, List.take_left, h.node, h.above,
      List.map_congr_left htake]

/-- From a cursor that was reached, the preorder reaches the positions below it, one by one. -/
lemma Reaches.preorder {c d : Cursor} {p : List Nat} (h : c.Reaches p d) :
    List.Forall₂ c.Reaches (d.node.positions.map (p ++ ·)) d.preorder := by
  obtain ⟨n, above⟩ := d
  induction n using Node.children_induction generalizing p above with
  | step n ih =>
    have hchildren : (⟨n, above⟩ : Cursor).children
        = n.children.zipIdx.map fun (m, _) => ⟨m, n :: above⟩ := by
      conv_lhs => rw [children, ← List.zipIdx_map_fst 0 n.children, List.map_map]
      rfl
    rw [Node.positions_eq, preorder_eq, hchildren, List.map_flatMap, List.flatMap_map]
    refine forall₂_flatMap ?_
    rintro ⟨m, i⟩ hm
    have hget : n.children[i]? = some m := List.mem_zipIdx_iff_getElem?.mp hm
    have hchild := h.child hget
    have hbelow := ih m (List.mem_of_getElem? hget) (n :: above) hchild
    refine .cons hchild ?_
    simpa [List.map_map, Function.comp_def] using hbelow

/-- **The walk below a cursor is the preorder of what lies below it.** The loop comes to an end with
the preorder; it meets each position below the cursor once, in lexicographic order, with the nodes
that lead there above it. A search finds the first of these that a query accepts, and a search
upwards the nearest node above a cursor. -/
theorem descendants_preorder (c : Cursor) :
    Visit.Ends ⟨[], c.children.reverse⟩ c.descendants
      ∧ c.descendants = c.preorder
      ∧ (∀ p, p ∈ c.node.positions ↔ p ≠ [] ∧ (c.node.descend? p).isSome = true)
      ∧ c.node.positions.Pairwise (· < ·)
      ∧ List.Forall₂ (fun p d => c.Reaches p d ∧ d.depth = c.depth + p.length)
        c.node.positions c.descendants
      ∧ (∀ q : Query, IsFirst (fun d : Cursor => q.accepts d.node.kind) c.descendants (c.find? q))
      ∧ ∀ (d : Cursor) (q : Query),
        IsFirst (fun n : Node => q.accepts n.kind) d.above (d.ancestor? q) := by
  have hwalk : c.descendants = c.preorder := by
    rw [descendants, walk_eq, ← preorder_eq]
  have hreach := (Reaches.refl c).preorder
  rw [← hwalk, show (fun p : List Nat => [] ++ p) = id from rfl, List.map_id] at hreach
  exact ⟨Visit.ends_walk [] c.children, hwalk, fun p => Node.mem_positions,
    c.node.pairwise_positions, hreach.imp fun p d h => ⟨h, h.depth⟩, fun q => isFirst_find? _ _,
    fun d q => isFirst_find? _ _⟩

end Cursor

end FeatureTree
