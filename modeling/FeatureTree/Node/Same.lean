import FeatureTree.Node.Basic

/-!
Structural sameness of nodes.

Backgrounds, scenarios and outlines are the same when their steps are, whichever of the three they
are. Cells, doc strings, tags and comments go by what they say, and steps by their text and block.
Any other nodes are the same when they are of one kind and their children are the same in order.
Keywords, names, descriptions, content types and lines play no part.
-/

namespace FeatureTree.Node

/-- Whether two lists are equally long and related position by position. -/
def pairwise (r : α → β → Bool) : List α → List β → Bool
  | [], [] => true
  | a :: as, b :: bs => r a b && pairwise r as bs
  | _, _ => false

/-- The comparison of two nodes by what they say themselves, their children aside. -/
def alike : Node → Node → Bool
  | cell a, cell b => a.value == b.value
  | docString a, docString b => a.content == b.content
  | tag a, tag b => a.name == b.name
  | comment a, comment b => a.text == b.text
  | step a, step b => a.text == b.text
  | a, b => a.kind == b.kind

/-- The nodes that are compared below a node: the steps of a step container, else its children. -/
def compared (n : Node) : List Node :=
  match n.steps? with
  | some ss => ss.map step
  | none => n.children

theorem mem_children_of_mem_compared {n c : Node} (h : c ∈ n.compared) : c ∈ n.children := by
  cases n <;> simp_all [compared, steps?, children]

/-- Whether two nodes are both step containers, or else alike. -/
def comparable (a b : Node) : Bool :=
  (a.steps?.isSome && b.steps?.isSome) || alike a b

/-- Structural sameness. -/
def same (a b : Node) : Bool :=
  comparable a b &&
    pairwise (fun (x : { x // x ∈ a.compared }) y => same x.1 y) a.compared.attach b.compared
termination_by a.rank
decreasing_by exact rank_lt_of_mem_children (mem_children_of_mem_compared x.2)

theorem pairwise_attach (r : α → β → Bool) (as : List α) (bs : List β) :
    pairwise (fun (x : { x // x ∈ as }) y => r x.1 y) as.attach bs = pairwise r as bs := by
  have key : ∀ (xs : List { x // x ∈ as }) (ys : List β),
      pairwise (fun (x : { x // x ∈ as }) y => r x.1 y) xs ys
        = pairwise r (xs.map Subtype.val) ys := by
    intro xs
    induction xs with
    | nil => intro ys; cases ys <;> rfl
    | cons x xs ih => intro ys; cases ys <;> simp [pairwise, ih]
  rw [key, List.attach_map_subtype_val]

theorem same_eq (a b : Node) :
    same a b = (comparable a b && pairwise same a.compared b.compared) := by
  rw [same, pairwise_attach]

/-- Sameness of nodes whose kinds allow it: one kind, or both step containers. -/
def same? (a b : Node) : Option Bool :=
  if a.kind = b.kind || (a.steps?.isSome && b.steps?.isSome) then some (same a b) else none

end FeatureTree.Node
