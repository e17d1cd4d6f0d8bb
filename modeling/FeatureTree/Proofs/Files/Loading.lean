import Mathlib.Data.List.Sort
import FeatureTree.Proofs.Files.Walk
import FeatureTree.Proofs.Related

/-!
Loading a directory.

A directory loads as its feature files do one by one, each by its own path, in the order of these
paths component by component. The first that does not load decides.
-/

namespace FeatureTree

open Text (bytes)

/-! ### One result after another -/

section FirstFailure

variable {α β ε : Type} {f g : α → Except ε β} {xs : List α}

lemma mapM_congr (h : ∀ x ∈ xs, f x = g x) : xs.mapM f = xs.mapM g := by
  induction xs with
  | nil => rfl
  | cons x xs ih =>
    rw [List.mapM_cons, List.mapM_cons, h x (by simp), ih fun y hy => h y (by simp [hy])]

lemma mapM_eq_ok_iff {ys : List β} :
    xs.mapM f = .ok ys ↔ List.Forall₂ (fun x y => f x = .ok y) xs ys := by
  induction xs generalizing ys with
  | nil => cases ys <;> simp [pure, Except.pure]
  | cons x xs ih =>
    rw [List.mapM_cons, List.forall₂_cons_left_iff]
    cases hx : f x with
    | error e => simp [bind, Except.bind]
    | ok y =>
      cases hxs : xs.mapM f with
      | error e => simp [bind, Except.bind, ← ih, hxs]
      | ok zs => simp [bind, Except.bind, pure, Except.pure, ← ih, hxs, eq_comm]

lemma exists_mapM_eq_ok_iff : (∃ ys, xs.mapM f = .ok ys) ↔ ∀ x ∈ xs, ∃ y, f x = .ok y := by
  simp only [mapM_eq_ok_iff]
  induction xs with
  | nil => simp
  | cons x xs ih => simp [List.forall₂_cons_left_iff, ← ih]

/-- The error is that of the first element with one. -/
lemma mapM_eq_error_iff {e : ε} :
    xs.mapM f = .error e ↔ ∃ before x after, xs = before ++ x :: after ∧
      (∀ y ∈ before, ∃ z, f y = .ok z) ∧ f x = .error e := by
  induction xs with
  | nil => simp [pure, Except.pure]
  | cons a xs ih =>
    rw [List.mapM_cons]
    cases ha : f a with
    | error e' =>
      constructor
      · intro h
        obtain rfl : e' = e := by simpa [bind, Except.bind] using h
        exact ⟨[], a, xs, rfl, by simp, ha⟩
      · rintro ⟨_ | ⟨b, before⟩, x, after, heq, hbefore, hx⟩
        · obtain ⟨rfl, rfl⟩ := List.cons.inj heq
          rw [← ha, hx]
          rfl
        · obtain ⟨rfl, -⟩ := List.cons.inj heq
          obtain ⟨z, hz⟩ := hbefore a (by simp)
          rw [ha] at hz
          cases hz
    | ok y =>
      have hrest : (do let ys ← xs.mapM f; pure (y :: ys)) = .error e ↔ xs.mapM f = .error e := by
        cases xs.mapM f <;> simp [bind, Except.bind, pure, Except.pure]
      rw [show (Except.ok y >>= fun y => do let ys ← xs.mapM f; pure (y :: ys)) =
        (do let ys ← xs.mapM f; pure (y :: ys)) from rfl, hrest, ih]
      constructor
      · rintro ⟨before, x, after, rfl, hbefore, hx⟩
        refine ⟨a :: before, x, after, rfl, fun b hb => ?_, hx⟩
        rcases List.mem_cons.mp hb with rfl | hb
        · exact ⟨y, ha⟩
        · exact hbefore b hb
      · rintro ⟨_ | ⟨b, before⟩, x, after, heq, hbefore, hx⟩
        · obtain ⟨rfl, rfl⟩ := List.cons.inj heq
          rw [ha] at hx
          cases hx
        · obtain ⟨rfl, rfl⟩ := List.cons.inj heq
          exact ⟨before, x, after, rfl, fun b hb => hbefore b (by simp [hb]), hx⟩

end FirstFailure

/-! ### The feature files of a directory -/

/-- A path of names that ends in that of a feature file. Something stands before the extension. -/
def Path.EndsInFeature (p : List Text) : Prop :=
  ∃ stem ≠ [], p.getLast? = some (stem ++ ".feature".toList)

namespace FileTree

/-- The paths of the feature files below a directory, in the order of the walk. -/
def featurePaths (path : Text) (t : FileTree) : List (List Text) :=
  (t.leaves.map Prod.fst).filter fun p => Path.isFeatureFile (under path p)

lemma mem_featurePaths {es : List (Text × FileTree)} (h : Proper (.dir es)) {path : Text}
    {p : List Text} :
    p ∈ featurePaths path (.dir es) ↔ (∃ b, Holds (.dir es) p b) ∧ Path.EndsInFeature p := by
  have hleaf : p ∈ (leaves (.dir es)).map Prod.fst ↔ ∃ b, Holds (.dir es) p b := by
    simp [← mem_leaves]
  rw [featurePaths, List.mem_filter, hleaf]
  refine and_congr_right fun ⟨b, hb⟩ => ?_
  have hne : p ≠ [] := by
    rintro rfl
    cases hb
  exact Path.isFeatureFile_under path (h.isName hb) hne

lemma pairwise_featurePaths {t : FileTree} (h : t.Proper) (path : Text) :
    (featurePaths path t).Pairwise fun p q => p.map bytes < q.map bytes := by
  have hpaths : (t.leaves.map Prod.fst).Pairwise fun p q => p.map bytes < q.map bytes :=
    List.pairwise_map.mpr (pairwise_leaves h)
  exact hpaths.filter _

end FileTree

open FileTree (under featurePaths)

lemma FeatureFile.path_of_load {root : FileTree} {path : Text} {d : Dialect} {f : FeatureFile}
    (h : FeatureFile.load root path d = .ok f) : f.path = some path := by
  unfold FeatureFile.load at h
  split at h
  · unfold FeatureFile.ofContent at h
    split at h
    · rename_i s _
      cases hread : Document.read path d s.toList with
      | error e => simp [hread, bind, Except.bind] at h
      | ok file =>
        simp only [hread, bind, Except.bind, pure, Except.pure, Except.ok.injEq] at h
        rw [← h]
    · cases h
  · cases h

/-- **A directory loads as its feature files do one by one.** -/
lemma Directory.load_eq {root : FileTree} (hroot : root.Proper) {path : Text}
    {es : List (Text × FileTree)} (hpath : root.get? path = some (.dir es)) (d : Dialect) :
    Directory.load root path d =
      ((featurePaths path (.dir es)).mapM fun p => FeatureFile.load root (under path p) d).map
        fun files => ⟨some path, files⟩ := by
  have hes := FileTree.Proper.get? hroot hpath
  have hfound : (FileTree.filesIn path es).filter (fun f => Path.isFeatureFile f.1) =
      ((FileTree.leaves (.dir es)).filter fun l => Path.isFeatureFile (under path l.1)).map
        (Prod.map (under path) id) := by
    have hfiles := FileTree.files_eq_leaves (.dir es) path
    rw [FileTree.files] at hfiles
    rw [hfiles, List.filter_map]
    rfl
  have hpaths : featurePaths path (.dir es) =
      ((FileTree.leaves (.dir es)).filter fun l => Path.isFeatureFile (under path l.1)).map
        Prod.fst := by
    rw [featurePaths, List.filter_map]
    rfl
  have hmapM : (((FileTree.filesIn path es).filter fun f => Path.isFeatureFile f.1).mapM
        fun f => FeatureFile.ofContent f.1 d f.2) =
      (featurePaths path (.dir es)).mapM fun p => FeatureFile.load root (under path p) d := by
    rw [hfound, hpaths, List.mapM_map, List.mapM_map]
    refine mapM_congr fun l hl => ?_
    have hholds := FileTree.mem_leaves.mp (List.mem_filter.mp hl).1
    simp only [Function.comp_apply, FeatureFile.load, FileTree.get?_under hpath hes hholds]
    rfl
  rw [Directory.load, hpath, ← hmapM]
  rfl

lemma Directory.load_eq_ok_iff {root : FileTree} (hroot : root.Proper) {path : Text}
    {es : List (Text × FileTree)} (hpath : root.get? path = some (.dir es)) {d : Dialect}
    {dir : Directory} :
    Directory.load root path d = .ok dir ↔ dir.path = some path ∧
      List.Forall₂ (fun p f => FeatureFile.load root (under path p) d = .ok f)
        (featurePaths path (.dir es)) dir.featureFiles := by
  rw [Directory.load_eq hroot hpath, ← mapM_eq_ok_iff]
  obtain ⟨path', files⟩ := dir
  cases (featurePaths path (.dir es)).mapM fun p => FeatureFile.load root (under path p) d with
  | error e => simp [Except.map]
  | ok files' => simp [Except.map, eq_comm]

lemma Directory.load_eq_error_iff {root : FileTree} (hroot : root.Proper) {path : Text}
    {es : List (Text × FileTree)} (hpath : root.get? path = some (.dir es)) {d : Dialect}
    {e : Error} :
    Directory.load root path d = .error e ↔
      ∃ before p after, featurePaths path (.dir es) = before ++ p :: after ∧
        (∀ q ∈ before, ∃ f, FeatureFile.load root (under path q) d = .ok f) ∧
        FeatureFile.load root (under path p) d = .error e := by
  rw [Directory.load_eq hroot hpath, ← mapM_eq_error_iff]
  cases (featurePaths path (.dir es)).mapM fun p => FeatureFile.load root (under path p) d <;>
    simp [Except.map]

/-- Loaded files are in the order of their paths, since all the paths start alike. -/
lemma pairwise_loaded {root : FileTree} {path : Text} {d : Dialect} {found : List (List Text)}
    {files : List FeatureFile} (hnames : ∀ p ∈ found, ∀ n ∈ p, Path.IsName n)
    (hsorted : found.Pairwise fun p q => p.map bytes < q.map bytes)
    (h : List.Forall₂ (fun p f => FeatureFile.load root (under path p) d = .ok f) found files) :
    files.Pairwise fun f g => ∃ p q, f.path = some p ∧ g.path = some q ∧
      (Path.components p).map bytes < (Path.components q).map bytes := by
  induction h with
  | nil => exact .nil
  | @cons p f found files hf hrest ih =>
    rw [List.pairwise_cons] at hsorted ⊢
    refine ⟨fun g hg => ?_, ih (fun q hq => hnames q (by simp [hq])) hsorted.2⟩
    obtain ⟨q, hq, hload⟩ := exists_mem_of_forall₂ hrest hg
    refine ⟨_, _, FeatureFile.path_of_load hf, FeatureFile.path_of_load hload, ?_⟩
    rw [Path.components_under path (hnames p (by simp)),
      Path.components_under path (hnames q (by simp [hq])), List.map_append, List.map_append]
    exact List.append_left_lt (hsorted.1 q hq)

/-- **Directory loading is complete, ordered and atomic.** A path is found exactly if a file stands
there and its name has the extension, and the found paths are in order, so none is found twice. The
directory loads if and only if the file at each of them does. It then holds these files and nothing
else, in the order of their paths; if it does not load, the error is that of the first file with
one. -/
theorem Directory.load_complete_in_path_order {root : FileTree} (hroot : root.Proper) {path : Text}
    {es : List (Text × FileTree)} (hpath : root.get? path = some (.dir es)) (d : Dialect) :
    ∃ found : List (List Text),
      (∀ p, p ∈ found ↔ (∃ b, FileTree.Holds (.dir es) p b) ∧ Path.EndsInFeature p) ∧
      (found.Pairwise fun p q => p.map bytes < q.map bytes) ∧
      ((∃ dir, Directory.load root path d = .ok dir) ↔
        ∀ p ∈ found, ∃ f, FeatureFile.load root (under path p) d = .ok f) ∧
      (∀ dir, Directory.load root path d = .ok dir ↔ dir.path = some path ∧
        List.Forall₂ (fun p f => FeatureFile.load root (under path p) d = .ok f) found
          dir.featureFiles) ∧
      (∀ dir, Directory.load root path d = .ok dir → dir.featureFiles.Pairwise fun f g =>
        ∃ p q, f.path = some p ∧ g.path = some q ∧
          (Path.components p).map bytes < (Path.components q).map bytes) ∧
      ∀ e, Directory.load root path d = .error e ↔
        ∃ before p after, found = before ++ p :: after ∧
          (∀ q ∈ before, ∃ f, FeatureFile.load root (under path q) d = .ok f) ∧
          FeatureFile.load root (under path p) d = .error e := by
  have hes := FileTree.Proper.get? hroot hpath
  have hmem : ∀ p, p ∈ featurePaths path (.dir es) ↔ _ := fun p => FileTree.mem_featurePaths hes
  have hsorted := FileTree.pairwise_featurePaths hes path
  have hnames : ∀ p ∈ featurePaths path (.dir es), ∀ n ∈ p, Path.IsName n := by
    intro p hp
    obtain ⟨⟨b, hb⟩, -⟩ := (hmem p).mp hp
    exact hes.isName hb
  refine ⟨featurePaths path (.dir es), hmem, hsorted, ?_,
    fun dir => Directory.load_eq_ok_iff hroot hpath, fun dir hdir => ?_,
    fun e => Directory.load_eq_error_iff hroot hpath⟩
  · simp only [← exists_mapM_eq_ok_iff, Directory.load_eq_ok_iff hroot hpath, mapM_eq_ok_iff]
    constructor
    · rintro ⟨dir, -, h⟩
      exact ⟨dir.featureFiles, h⟩
    · rintro ⟨files, h⟩
      exact ⟨⟨some path, files⟩, rfl, h⟩
  · exact pairwise_loaded hnames hsorted ((Directory.load_eq_ok_iff hroot hpath).mp hdir).2

namespace FileTree

/-- A file in a directory and one beside it. By characters `a.feature` is before `a/x.feature`. -/
def shelf (inner outer : ByteArray) : List (Text × FileTree) :=
  [("a".toList, .dir [("x.feature".toList, .file inner)]), ("a.feature".toList, .file outer)]

/-- The paths on a shelf, in their order. -/
def shelfPaths : List (List Text) := [["a".toList, "x.feature".toList], ["a.feature".toList]]

variable (inner outer : ByteArray)

lemma proper_shelf : Proper (.dir [("d".toList, .dir (shelf inner outer))]) := by
  have hflat : ∀ n ∈ ["d".toList, "a.feature".toList], Path.IsName n := by decide
  have hnested : ∀ n ∈ ["d".toList, "a".toList, "x.feature".toList], Path.IsName n := by decide
  have hfirst : Proper (.dir [("d".toList, .dir [("a.feature".toList, .file outer)])]) :=
    (Proper.file outer).write? proper_empty hflat rfl
  exact (Proper.file inner).write? hfirst hnested rfl

lemma get?_shelf :
    get? (.dir [("d".toList, .dir (shelf inner outer))]) "d".toList
      = some (.dir (shelf inner outer)) := by
  refine get?_eq_some_iff.mpr ⟨by decide, by decide, ?_⟩
  rw [follow?_eq_foldlM]
  rfl

lemma holds_shelf {p : List Text} {b : ByteArray} :
    Holds (.dir (shelf inner outer)) p b ↔
      p = ["a".toList, "x.feature".toList] ∧ b = inner ∨ p = ["a.feature".toList] ∧ b = outer := by
  rw [← mem_leaves]
  simp [leaves, leavesIn, shelf]

/-- What is found on a shelf is the two paths, since there is only one order for them. -/
lemma eq_shelfPaths {found : List (List Text)}
    (hmem : ∀ p, p ∈ found ↔
      (∃ b, Holds (.dir (shelf inner outer)) p b) ∧ Path.EndsInFeature p)
    (hsorted : found.Pairwise fun p q => p.map bytes < q.map bytes) : found = shelfPaths := by
  have : Std.Irrefl fun p q : List Text => p.map bytes < q.map bytes := ⟨fun _ => List.lt_irrefl _⟩
  have : Std.Antisymm fun p q : List Text => p.map bytes < q.map bytes :=
    ⟨fun _ _ hpq hqp => absurd (List.lt_trans hpq hqp) (List.lt_irrefl _)⟩
  refine hsorted.eq_of_mem_iff (by decide) fun p => ?_
  simp only [hmem, holds_shelf, shelfPaths, List.mem_cons, List.not_mem_nil, or_false]
  constructor
  · rintro ⟨⟨b, ⟨hp, -⟩ | ⟨hp, -⟩⟩, -⟩
    · exact .inl hp
    · exact .inr hp
  · rintro (rfl | rfl)
    · exact ⟨⟨inner, .inl ⟨rfl, rfl⟩⟩, "x".toList, by decide, rfl⟩
    · exact ⟨⟨outer, .inr ⟨rfl, rfl⟩⟩, "a".toList, by decide, rfl⟩

/-- A file on a shelf is read from its own content. -/
lemma load_shelf {p : List Text} {b : ByteArray} (h : Holds (.dir (shelf inner outer)) p b) :
    FeatureFile.load (.dir [("d".toList, .dir (shelf inner outer))]) (under "d".toList p) .english
      = FeatureFile.ofContent (under "d".toList p) .english b := by
  have hpath := get?_shelf inner outer
  rw [FeatureFile.load, get?_under hpath (Proper.get? (proper_shelf inner outer) hpath) h]

end FileTree

open FileTree (shelf shelfPaths) in
/-- The file in the directory comes first. If it is no text the directory does not load, and if both
files are features it loads with them in this order. -/
theorem Directory.load_complete_in_path_order_nested :
    let broken := shelf ⟨#[255]⟩ ⟨#[255]⟩
    let sound := shelf "Feature: x".toUTF8 "Feature: a".toUTF8
    (FileTree.Proper (.dir [("d".toList, .dir broken)])
      ∧ FileTree.get? (.dir [("d".toList, .dir broken)]) "d".toList = some (.dir broken)
      ∧ Directory.load (.dir [("d".toList, .dir broken)]) "d".toList .english
        = .error (.notUtf8 "d/a/x.feature".toList))
    ∧ FileTree.Proper (.dir [("d".toList, .dir sound)])
      ∧ FileTree.get? (.dir [("d".toList, .dir sound)]) "d".toList = some (.dir sound)
      ∧ ∃ dir, Directory.load (.dir [("d".toList, .dir sound)]) "d".toList .english = .ok dir
        ∧ dir.featureFiles.map FeatureFile.path
          = [some "d/a/x.feature".toList, some "d/a.feature".toList] := by
  intro broken sound
  refine ⟨⟨FileTree.proper_shelf _ _, FileTree.get?_shelf _ _, ?_⟩, FileTree.proper_shelf _ _,
    FileTree.get?_shelf _ _, ?_⟩
  · obtain ⟨found, hmem, hsorted, -, -, -, herror⟩ := Directory.load_complete_in_path_order
      (FileTree.proper_shelf ⟨#[255]⟩ ⟨#[255]⟩) (FileTree.get?_shelf _ _) .english
    refine (herror _).mpr ⟨[], ["a".toList, "x.feature".toList], [["a.feature".toList]],
      FileTree.eq_shelfPaths _ _ hmem hsorted, by simp, ?_⟩
    rw [FileTree.load_shelf _ _ ((FileTree.holds_shelf _ _).mpr (.inl ⟨rfl, rfl⟩))]
    rfl
  · obtain ⟨found, hmem, hsorted, hall, hok, -, -⟩ := Directory.load_complete_in_path_order
      (FileTree.proper_shelf "Feature: x".toUTF8 "Feature: a".toUTF8) (FileTree.get?_shelf _ _)
      .english
    obtain rfl := FileTree.eq_shelfPaths _ _ hmem hsorted
    have hread : ∀ p b, FileTree.Holds (.dir sound) p b →
        (FeatureFile.ofContent (under "d".toList p) .english b).toBool = true := by
      intro p b hholds
      rcases (FileTree.holds_shelf _ _).mp hholds with ⟨rfl, rfl⟩ | ⟨rfl, rfl⟩ <;> decide +kernel
    obtain ⟨dir, hdir⟩ := hall.mpr fun p hp => by
      obtain ⟨⟨b, hholds⟩, -⟩ := (hmem p).mp hp
      have hbool := hread p b hholds
      rw [FileTree.load_shelf _ _ hholds]
      cases hfile : FeatureFile.ofContent (under "d".toList p) .english b with
      | error e =>
        rw [hfile] at hbool
        exact absurd hbool Bool.false_ne_true
      | ok file => exact ⟨file, rfl⟩
    refine ⟨dir, hdir, ?_⟩
    have hpaths := map_eq_of_forall₂ ((hok dir).mp hdir).2
      (g := fun p => some (under "d".toList p)) (h := FeatureFile.path)
      fun p file hfile => (FeatureFile.path_of_load hfile).symm
    rw [← hpaths]
    rfl

end FeatureTree
