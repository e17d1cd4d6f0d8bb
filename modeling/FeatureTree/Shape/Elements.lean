import FeatureTree.Shape.Fields

/-!
The shape of version 2: a document is a list of features, and the elements of a feature are told
apart by a word in lower case. Comments belong to whatever they precede, and are put in the order
of their lines.
-/

namespace FeatureTree.Shape.Elements

/-- The parts of an element that become nodes. -/
def elementParts : List String := ["steps", "examples", "tags", "comments"]

/-- The rows of a step are its table; else there may be a doc string. -/
def block (v : Json) : Option Block :=
  match v.get? "rows" with
  | some (.arr vs) =>
    let rows := vs.map row
    some (.table ⟨rows.head?.bind Row.line, rows, none⟩)
  | _ => (v.get? "doc_string").map fun d =>
    .docString ⟨line d, trimmedAt? "content_type" d, d.textAt "value", some d⟩

def steps (v : Json) : List Step :=
  (v.itemsAt "steps").map fun s => step "name" ["rows", "doc_string", "comments"] (block s) s

def examples (v : Json) : Examples :=
  Shape.examples ["rows", "tags", "comments"] ((v.itemsAt "rows").map row) v

def child (v : Json) : Except Error Child := do
  match ← typeOf v with
  | "background" => return .background (background elementParts (steps v) v)
  | "scenario" => return .test (.scenario (scenario elementParts (steps v) v))
  | "scenario_outline" =>
    return .test (.outline
      (outline elementParts (steps v) ((v.itemsAt "examples").map examples) v))
  | other => unknown other

def feature (v : Json) : Except Error Feature := do
  let cs ← (v.itemsAt "elements").mapM child
  return Shape.feature ["elements", "tags", "comments"] (Child.background? cs) (Child.tests cs) v

theorem sizeOf_lt_of_mem_itemsAt {key : String} {v c : Json} (h : c ∈ v.itemsAt key) :
    sizeOf c < sizeOf v := by
  cases v with
  | obj fs =>
    have key_lt : ∀ (gs : List (String × Json)) (w : Json), gs.lookup key = some w →
        sizeOf w < sizeOf gs := by
      intro gs
      induction gs with
      | nil => simp
      | cons g gs ih =>
        intro w hw
        obtain ⟨k, u⟩ := g
        simp only [List.lookup_cons] at hw
        split at hw
        · cases hw
          simp only [List.cons.sizeOf_spec, Prod.mk.sizeOf_spec]
          omega
        · have := ih w hw
          simp only [List.cons.sizeOf_spec]
          omega
    simp only [Json.itemsAt, Json.get?] at h
    split at h
    · rename_i w hw
      have hlt := key_lt fs w hw
      cases w <;> simp only [Json.items, List.not_mem_nil] at h
      rename_i vs
      have := List.sizeOf_lt_of_mem h
      simp only [Json.arr.sizeOf_spec, Json.obj.sizeOf_spec] at hlt ⊢
      omega
    · simp at h
  | _ => simp [Json.itemsAt, Json.get?] at h

/-- The keys under which comments are found below a node, in the order of the search. -/
def keys : List String := ["elements", "steps", "examples", "rows"]

/-- The comments of a node and then those of the nodes below it. -/
def commentsBelow (v : Json) : List Comment :=
  comments v ++ keys.flatMap fun k => (v.itemsAt k).attach.flatMap fun c => commentsBelow c.1
termination_by sizeOf v
decreasing_by exact sizeOf_lt_of_mem_itemsAt c.2

theorem commentsBelow_eq (v : Json) :
    commentsBelow v = comments v ++ keys.flatMap fun k => (v.itemsAt k).flatMap commentsBelow := by
  rw [commentsBelow]
  simp [List.flatMap_subtype]

/-- A comment without a line comes before all others. -/
def notAfter (a b : Comment) : Bool :=
  match a.line, b.line with
  | none, _ => true
  | some _, none => false
  | some m, some n => m ≤ n

/-- The first feature of a document. A document without one is kept as the raw element. -/
def file (path : Option Text) (v : Json) : Except Error FeatureFile := do
  match v.items with
  | [] => return ⟨path, none, [], some v⟩
  | f :: _ => return ⟨path, some (← feature f), (commentsBelow f).mergeSort notAfter, none⟩

end FeatureTree.Shape.Elements
