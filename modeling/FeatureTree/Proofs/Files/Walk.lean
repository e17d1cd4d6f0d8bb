import Mathlib.Data.List.Lex
import Mathlib.Data.List.TakeDrop
import Mathlib.Tactic.MkIffOfInductiveProp
import FeatureTree.Files.Load
import FeatureTree.Proofs.Files.ByteOrder
import FeatureTree.Proofs.Text.Lines

/-!
The walk through a tree of files.

A file stands at the end of a path of names. The walk meets the paths in lexicographic order, each
of them once, because the entries of every directory are sorted by the bytes of their names. A path
of names that is written below the path of a directory leads from the root to the same file.
-/

namespace FeatureTree

open Text (bytes)

/-- A name that an entry of a directory can have. -/
@[mk_iff]
structure Path.IsName (n : Text) : Prop where
  nonempty : n ≠ []
  noSlash : '/' ∉ n
  notSelf : n ≠ ['.']
  notUp : n ≠ ['.', '.']

instance : DecidablePred Path.IsName := fun n => decidable_of_iff' _ (Path.isName_iff n)

namespace FileTree

/-- A tree as it is on a disk: the entries of a directory have names, and these are sorted by their
bytes, so that no two are the same. -/
inductive Proper : FileTree → Prop
  | file (content : ByteArray) : Proper (.file content)
  | dir {es : List (Text × FileTree)} (sorted : es.Pairwise fun a b => bytes a.1 < bytes b.1)
    (names : ∀ e ∈ es, Path.IsName e.1) (trees : ∀ e ∈ es, Proper e.2) : Proper (.dir es)

/-- A path of names leads to a file with this content. -/
inductive Holds : FileTree → List Text → ByteArray → Prop
  | here (content : ByteArray) : Holds (.file content) [] content
  | entry {es : List (Text × FileTree)} {n : Text} {t : FileTree} {p : List Text}
    {content : ByteArray} (mem : (n, t) ∈ es) (rest : Holds t p content) :
    Holds (.dir es) (n :: p) content

/-- What holds of files, and of a directory if it holds of its entries, holds of every tree. -/
lemma entries_induction {P : FileTree → Prop} (file : ∀ b, P (.file b))
    (dir : ∀ es, (∀ e ∈ es, P e.2) → P (.dir es)) (t : FileTree) : P t := by
  induction hn : sizeOf t using Nat.strongRecOn generalizing t with
  | ind n ih =>
    subst hn
    cases t with
    | file b => exact file b
    | dir es =>
      refine dir es fun e he => ih _ ?_ e.2 rfl
      have hlt := List.sizeOf_lt_of_mem he
      obtain ⟨n, t⟩ := e
      simp only [Prod.mk.sizeOf_spec, FileTree.dir.sizeOf_spec] at hlt ⊢
      omega

/-! ### Written trees -/

lemma mem_putEntry {n : Text} {t : FileTree} {es : List (Text × FileTree)} {e : Text × FileTree}
    (h : e ∈ putEntry n t es) : e = (n, t) ∨ e ∈ es := by
  fun_induction putEntry n t es with
  | case1 => simpa using h
  | case2 m u es _ => simpa using h
  | case3 u es _ =>
    rcases List.mem_cons.mp h with rfl | h
    · exact .inl rfl
    · exact .inr (by simp [h])
  | case4 m u es _ _ ih =>
    rcases List.mem_cons.mp h with rfl | h
    · exact .inr (by simp)
    · exact (ih h).imp_right fun h => by simp [h]

/-- Entries are put in the order of characters, which is that of bytes. -/
lemma pairwise_putEntry (n : Text) (t : FileTree) {es : List (Text × FileTree)}
    (h : es.Pairwise fun a b => bytes a.1 < bytes b.1) :
    (putEntry n t es).Pairwise fun a b => bytes a.1 < bytes b.1 := by
  fun_induction putEntry n t es with
  | case1 => simp
  | case2 m u es hlt =>
    have hnm := Text.bytes_lt_bytes_iff.mpr hlt
    refine List.pairwise_cons.mpr ⟨fun e he => ?_, h⟩
    rcases List.mem_cons.mp he with rfl | he
    · exact hnm
    · exact List.lt_trans hnm ((List.pairwise_cons.mp h).1 e he)
  | case3 u es _ => exact List.pairwise_cons.mpr (List.pairwise_cons.mp h)
  | case4 m u es hlt hne ih =>
    obtain ⟨hm, hes⟩ := List.pairwise_cons.mp h
    have hmn : bytes m < bytes n :=
      Text.bytes_lt_bytes_iff.mpr (((lt_trichotomy n m).resolve_left hlt).resolve_left hne)
    refine List.pairwise_cons.mpr ⟨fun e he => ?_, ih hes⟩
    rcases mem_putEntry he with rfl | he
    · exact hmn
    · exact hm e he

lemma Proper.putEntry {es : List (Text × FileTree)} (h : Proper (.dir es)) {n : Text}
    (hn : Path.IsName n) {t : FileTree} (ht : t.Proper) : Proper (.dir (putEntry n t es)) := by
  cases h with
  | dir sorted names trees =>
    refine .dir (pairwise_putEntry n t sorted) (fun e he => ?_) fun e he => ?_
    · rcases mem_putEntry he with rfl | he
      · exact hn
      · exact names e he
    · rcases mem_putEntry he with rfl | he
      · exact ht
      · exact trees e he

lemma Proper.of_lookup {es : List (Text × FileTree)} (h : Proper (.dir es)) {n : Text}
    {t : FileTree} (hl : es.lookup n = some t) : t.Proper := by
  cases h with
  | dir sorted names trees =>
    obtain ⟨l, r, rfl, -⟩ := List.lookup_eq_some_iff.mp hl
    exact trees (n, t) (by simp)

lemma proper_empty : empty.Proper := .dir .nil nofun nofun

/-- **Writing keeps a tree proper.** -/
lemma Proper.write? {t tree tree' : FileTree} (ht : t.Proper) (htree : tree.Proper) {ns : List Text}
    (hns : ∀ n ∈ ns, Path.IsName n) (h : FileTree.write? t ns tree = some tree') :
    tree'.Proper := by
  fun_induction FileTree.write? t ns tree generalizing tree' with
  | case1 => cases h
  | case2 => cases h
  | case3 => cases h
  | case4 n es fs _ _ hl =>
    obtain rfl := Option.some.inj h
    exact htree.putEntry (hns n (by simp)) (htree.of_lookup hl)
  | case5 => cases h
  | case6 =>
    obtain rfl := Option.some.inj h
    exact htree.putEntry (hns _ (by simp)) ht
  | case7 n ns es _ ih =>
    obtain ⟨u, hu, rfl⟩ := Option.map_eq_some_iff.mp h
    have hbelow : ((es.lookup n).getD empty).Proper := by
      cases hl : es.lookup n with
      | none => exact proper_empty
      | some t => exact htree.of_lookup hl
    exact htree.putEntry (hns n (by simp)) (ih hbelow (fun m hm => hns m (by simp [hm])) hu)

/-! ### The walk -/

mutual

/-- The files of a tree with their paths, in the order of the walk. -/
def leaves : FileTree → List (List Text × ByteArray)
  | .file b => [([], b)]
  | .dir es => leavesIn es

def leavesIn : List (Text × FileTree) → List (List Text × ByteArray)
  | [] => []
  | (n, t) :: es => (leaves t).map (Prod.map (n :: ·) id) ++ leavesIn es

end

lemma leaves_dir (es : List (Text × FileTree)) :
    leaves (.dir es) = es.flatMap fun e => (leaves e.2).map (Prod.map (e.1 :: ·) id) := by
  rw [leaves]
  induction es with
  | nil => rfl
  | cons e es ih => rw [leavesIn, ih, List.flatMap_cons]

lemma files_dir (path : Text) (es : List (Text × FileTree)) :
    files path (.dir es) = es.flatMap fun e => files (Path.join path e.1) e.2 := by
  rw [files]
  induction es with
  | nil => rfl
  | cons e es ih => rw [filesIn, ih, List.flatMap_cons]

/-- A path of names below the path of a directory. -/
def under (path : Text) (names : List Text) : Text := names.foldl Path.join path

lemma files_eq_leaves (t : FileTree) (path : Text) :
    files path t = t.leaves.map (Prod.map (under path) id) := by
  induction t using entries_induction generalizing path with
  | file b => simp [files, leaves, under]
  | dir es ih =>
    rw [files_dir, leaves_dir, List.map_flatMap]
    refine List.flatMap_congr fun e he => ?_
    rw [ih e he, List.map_map]
    rfl

lemma mem_leaves {t : FileTree} {p : List Text} {b : ByteArray} :
    (p, b) ∈ t.leaves ↔ t.Holds p b := by
  induction t using entries_induction generalizing p with
  | file c =>
    rw [leaves, List.mem_singleton]
    constructor
    · rintro h
      obtain ⟨rfl, rfl⟩ := Prod.mk.inj h
      exact .here _
    · rintro ⟨⟩
      rfl
  | dir es ih =>
    rw [leaves_dir, List.mem_flatMap]
    constructor
    · rintro ⟨⟨n, t⟩, he, h⟩
      obtain ⟨⟨q, c⟩, hq, heq⟩ := List.mem_map.mp h
      obtain ⟨rfl, rfl⟩ := Prod.mk.inj heq
      exact .entry he ((ih _ he).mp hq)
    · rintro (_ | ⟨he, h⟩)
      exact ⟨_, he, List.mem_map.mpr ⟨_, (ih _ he).mpr h, rfl⟩⟩

/-- **The walk meets paths in their order**, component by component. -/
lemma pairwise_leaves {t : FileTree} (h : t.Proper) :
    t.leaves.Pairwise fun a b => a.1.map bytes < b.1.map bytes := by
  induction h with
  | file c => simp [leaves]
  | @dir es sorted names trees ih =>
    rw [leaves_dir, List.pairwise_flatMap]
    constructor
    · intro e he
      rw [List.pairwise_map]
      exact (ih e he).imp fun hab => .cons hab
    · refine sorted.imp fun {a b} hab x hx y hy => ?_
      obtain ⟨x, -, rfl⟩ := List.mem_map.mp hx
      obtain ⟨y, -, rfl⟩ := List.mem_map.mp hy
      exact .rel hab

lemma Proper.isName {t : FileTree} (h : t.Proper) {p : List Text} {b : ByteArray}
    (hp : t.Holds p b) : ∀ n ∈ p, Path.IsName n := by
  induction hp with
  | here => simp
  | entry mem rest ih =>
    cases h with
    | dir sorted names trees =>
      intro m hm
      rcases List.mem_cons.mp hm with rfl | hm
      · exact names _ mem
      · exact ih (trees _ mem) m hm

end FileTree

/-! ### Names in the text of a path -/

namespace Path

/-- A name is cut off a path that it was joined to. Only a path that ends in a separator loses the
empty part after it. -/
lemma cutAt_join (path : Text) {n : Text} (hn : '/' ∉ n) :
    (join path n).cutAt '/' = path.cutAt '/' ++ [n] ∨
      ∃ cs, path.cutAt '/' = cs ++ [[]] ∧ (join path n).cutAt '/' = cs ++ [n] := by
  rw [join]
  split
  · rename_i hlast
    obtain ⟨q, rfl⟩ := List.getLast?_eq_some_iff.mp hlast
    refine .inr ⟨Text.cutAt '/' q, Text.cutAt_append_sep '/' q [], ?_⟩
    rw [List.append_assoc, List.singleton_append, Text.cutAt_append_sep, Text.cutAt_of_not_mem hn]
  · left
    rw [Text.cutAt_append_sep, Text.cutAt_of_not_mem hn]

lemma components_join (path : Text) {n : Text} (hn : IsName n) :
    components (join path n) = components path ++ [n] := by
  have hkeep : [n].filter (fun c => !(c.isEmpty || c == ['.'])) = [n] := by
    simp [hn.nonempty, hn.notSelf]
  rcases cutAt_join path hn.noSlash with h | ⟨cs, hpath, h⟩
  · rw [components, h, List.filter_append, hkeep, components]
  · rw [components, components, h, hpath, List.filter_append, List.filter_append, hkeep]
    simp

lemma components_under (path : Text) {p : List Text} (hp : ∀ n ∈ p, IsName n) :
    components (FileTree.under path p) = components path ++ p := by
  induction p generalizing path with
  | nil => simp [FileTree.under]
  | cons n p ih =>
    rw [FileTree.under, List.foldl_cons, ← FileTree.under, ih _ fun m hm => hp m (by simp [hm]),
      components_join path (hp n (by simp)), List.append_assoc, List.singleton_append]

/-- The extension of a path of names is that of the last name, where something has to stand before
the dot. -/
lemma isFeatureFile_under (path : Text) {p : List Text} (hp : ∀ n ∈ p, IsName n) (hne : p ≠ []) :
    isFeatureFile (FileTree.under path p) ↔
      ∃ stem ≠ [], p.getLast? = some (stem ++ ".feature".toList) := by
  obtain ⟨q, n, rfl⟩ := List.eq_nil_or_concat p |>.resolve_left hne
  rw [List.concat_eq_append] at hp ⊢
  have hname : fileName? (FileTree.under path (q ++ [n])) = some n := by
    rw [fileName?, components_under path hp, ← List.append_assoc, List.getLast?_concat]
    simp [(hp n (by simp)).notUp]
  rw [isFeatureFile, extension?, hname, List.getLast?_concat]
  simp only [List.span_eq_takeWhile_dropWhile]
  constructor
  · intro h
    split at h
    · rename_i ext x r hspan
      obtain ⟨htake, hdrop⟩ := Prod.mk.inj hspan
      have hext : ext.reverse = "feature".toList := by simpa using h
      have hn : n.reverse = ext ++ '.' :: x :: r := by
        rw [← htake, ← hdrop, List.takeWhile_append_dropWhile]
      refine ⟨(x :: r).reverse, by simp, ?_⟩
      rw [← List.reverse_reverse n, hn, List.reverse_append, List.reverse_cons, hext]
      simp
    · simp at h
  · rintro ⟨stem, hstem, hn⟩
    obtain rfl := Option.some.inj hn
    obtain ⟨x, r, hr⟩ := List.exists_cons_of_ne_nil (List.reverse_ne_nil_iff.mpr hstem)
    simp [hr]

end Path

/-! ### Following a path -/

namespace FileTree

/-- One component of a path, from the innermost of nested directories. -/
def step? : List FileTree → Text → Option (List FileTree)
  | .dir es :: up, c =>
    if c.isEmpty || c == ['.'] then some (.dir es :: up)
    else if c == ['.', '.'] then some up
    else (es.lookup c).map (· :: .dir es :: up)
  | _, _ => none

lemma follow?_eq_foldlM (st : List FileTree) (cs : List Text) :
    follow? st cs = (cs.foldlM step? st).bind List.head? := by
  fun_induction follow? st cs with
  | case1 cs => cases cs <;> simp [step?]
  | case2 t up => simp
  | case3 => simp [step?]
  | case4 es up c cs h ih => rw [ih, List.foldlM_cons, step?, if_pos h]; rfl
  | case5 es up c cs h h' ih => rw [ih, List.foldlM_cons, step?, if_neg h, if_pos h']; rfl
  | case6 es up c cs h h' t ht ih =>
    rw [ih, List.foldlM_cons, step?, if_neg h, if_neg h', ht]; rfl
  | case7 es up c cs h h' ht => rw [List.foldlM_cons, step?, if_neg h, if_neg h', ht]; rfl

/-- An empty component takes no step, but it does not leave a file either. -/
lemma step?_nil_bind (st : List FileTree) (c : Text) :
    (step? st []).bind (step? · c) = step? st c := by
  rcases st with _ | ⟨_ | es, up⟩ <;> rfl

lemma foldlM_cutAt_join (st : List FileTree) (path : Text) {n : Text} (hn : '/' ∉ n) :
    ((Path.join path n).cutAt '/').foldlM step? st =
      ((path.cutAt '/').foldlM step? st).bind (step? · n) := by
  rcases Path.cutAt_join path hn with h | ⟨cs, hpath, h⟩
  · rw [h, List.foldlM_append]
    simp [bind]
  · rw [h, hpath, List.foldlM_append, List.foldlM_append]
    cases cs.foldlM step? st with
    | none => rfl
    | some st' => simpa [bind] using (step?_nil_bind st' n).symm

/-- Names below a path are followed from where the path leads. -/
lemma foldlM_cutAt_under (st : List FileTree) (path : Text) {p : List Text}
    (hp : ∀ n ∈ p, '/' ∉ n) :
    ((under path p).cutAt '/').foldlM step? st =
      ((path.cutAt '/').foldlM step? st).bind (p.foldlM step? ·) := by
  induction p generalizing path with
  | nil => simp [under]
  | cons n p ih =>
    rw [under, List.foldl_cons, ← under, ih _ fun m hm => hp m (by simp [hm]),
      foldlM_cutAt_join st path (hp n (by simp)), Option.bind_assoc]
    rfl

lemma lookup_of_mem {es : List (Text × FileTree)}
    (sorted : es.Pairwise fun a b => bytes a.1 < bytes b.1) {n : Text} {t : FileTree}
    (h : (n, t) ∈ es) : es.lookup n = some t := by
  induction es with
  | nil => cases h
  | cons e es ih =>
    obtain ⟨m, u⟩ := e
    rw [List.pairwise_cons] at sorted
    rcases List.mem_cons.mp h with heq | hmem
    · obtain ⟨rfl, rfl⟩ := Prod.mk.inj heq
      exact List.lookup_cons_self
    · have hlt := sorted.1 _ hmem
      have hne : n ≠ m := by
        rintro rfl
        exact List.lt_irrefl _ hlt
      rw [List.lookup_cons, beq_false_of_ne hne]
      exact ih sorted.2 hmem

lemma follow?_of_holds {t : FileTree} (ht : t.Proper) {p : List Text} {b : ByteArray}
    (h : t.Holds p b) (up : List FileTree) : follow? (t :: up) p = some (.file b) := by
  induction h generalizing up with
  | here => rw [follow?]
  | @entry es n t p b mem rest ih =>
    cases ht with
    | dir sorted names trees =>
      have hn := names _ mem
      rw [follow?, if_neg (by simp [hn.nonempty, hn.notSelf]), if_neg (by simp [hn.notUp]),
        lookup_of_mem sorted mem]
      exact ih (trees _ mem) _

lemma get?_eq_some_iff {root t : FileTree} {path : Text} :
    root.get? path = some t ↔
      path ≠ [] ∧ path.head? ≠ some '/' ∧ follow? [root] (path.cutAt '/') = some t := by
  unfold get?
  split
  · simp
  · simp
  · rename_i h h'
    rcases path with _ | ⟨c, path⟩
    · exact absurd rfl h
    · have hc : c ≠ '/' := fun hc => h' path (by rw [hc])
      simp [hc]

lemma head?_join {path n : Text} (h : path ≠ []) : (Path.join path n).head? = path.head? := by
  obtain ⟨c, path, rfl⟩ := List.exists_cons_of_ne_nil h
  rw [Path.join]
  split <;> rfl

lemma head?_under {path : Text} (h : path ≠ []) (p : List Text) :
    (under path p).head? = path.head? := by
  induction p generalizing path with
  | nil => rfl
  | cons n p ih =>
    have hne : Path.join path n ≠ [] := by
      rwa [ne_eq, ← List.head?_eq_none_iff, head?_join h, List.head?_eq_none_iff]
    rw [under, List.foldl_cons, ← under, ih hne, head?_join h]

/-- **A file below a directory stands at its path from the root.** -/
lemma get?_under {root : FileTree} {path : Text} {t : FileTree} (hpath : root.get? path = some t)
    (ht : t.Proper) {p : List Text} {b : ByteArray} (h : t.Holds p b) :
    root.get? (under path p) = some (.file b) := by
  obtain ⟨hne, hroot, hfollow⟩ := get?_eq_some_iff.mp hpath
  have hhead := head?_under hne p
  refine get?_eq_some_iff.mpr ⟨?_, by rwa [hhead], ?_⟩
  · rwa [ne_eq, ← List.head?_eq_none_iff, hhead, List.head?_eq_none_iff]
  · have hslash : ∀ n ∈ p, '/' ∉ n := fun n hn => (ht.isName h n hn).noSlash
    rw [follow?_eq_foldlM, Option.bind_eq_some_iff] at hfollow
    obtain ⟨st, hst, hhd⟩ := hfollow
    obtain ⟨up, rfl⟩ := List.head?_eq_some_iff.mp hhd
    rw [follow?_eq_foldlM, foldlM_cutAt_under _ _ hslash, hst, Option.bind_some,
      ← follow?_eq_foldlM]
    exact follow?_of_holds ht h up

/-- What a path leads to in a proper tree is proper. -/
lemma Proper.follow? {st : List FileTree} (hst : ∀ t ∈ st, t.Proper) {cs : List Text} {t : FileTree}
    (h : FileTree.follow? st cs = some t) : t.Proper := by
  fun_induction FileTree.follow? st cs with
  | case1 => cases h
  | case2 u up =>
    obtain rfl := Option.some.inj h
    exact hst _ (by simp)
  | case3 => cases h
  | case4 es up c cs _ ih => exact ih hst h
  | case5 es up c cs _ _ ih => exact ih (fun u hu => hst u (by simp [hu])) h
  | case6 es up c cs _ _ u hu ih =>
    refine ih (fun v hv => ?_) h
    rcases List.mem_cons.mp hv with rfl | hv
    · exact (hst (.dir es) (by simp)).of_lookup hu
    · exact hst v hv
  | case7 => cases h

lemma Proper.get? {root : FileTree} (h : root.Proper) {path : Text} {t : FileTree}
    (hpath : root.get? path = some t) : t.Proper :=
  Proper.follow? (by simpa using h) (get?_eq_some_iff.mp hpath).2.2

end FileTree

end FeatureTree
