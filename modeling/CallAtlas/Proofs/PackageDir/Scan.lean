import CallAtlas.Proofs.PackageDir.Found

/-!
# What a scan finds

A scan sorts the packages that it has found by their directories and then by their import paths. The
directories are distinct, so that the order in which directories list their entries makes no
difference, and no package is lost or found twice.

Main statement: `scan_finds_buildable`.
-/

set_option autoImplicit false

namespace CallAtlas.PackageDir

variable {module : Module} {p : Build.Platform} {path dir root : Path} {t t' tree : FileTree}
  {entries entries' : List (String × FileTree)} {files : List SourceFile} {file : SourceFile}
  {name : String}

/-! ## The order of packages -/

theorem pathLe_trans : ∀ a b c : Path, pathLe a b → pathLe b c → pathLe a c
  | [], _, _, _, _ => rfl
  | _ :: _, [], _, hab, _ => nomatch hab
  | _ :: _, _ :: _, [], _, hbc => nomatch hbc
  | x :: a, y :: b, z :: c, hab, hbc => by
    simp only [pathLe, Bool.or_eq_true, Bool.and_eq_true,
      decide_eq_true_eq, beq_iff_eq] at hab hbc ⊢
    rcases hab with hxy | ⟨rfl, hab⟩
    · rcases hbc with hyz | ⟨rfl, _⟩
      · exact Or.inl (String.lt_trans hxy hyz)
      · exact Or.inl hxy
    · rcases hbc with hyz | ⟨rfl, hbc⟩
      · exact Or.inl hyz
      · exact Or.inr ⟨rfl, pathLe_trans a b c hab hbc⟩

theorem pathLe_total : ∀ a b : Path, pathLe a b || pathLe b a
  | [], _ => rfl
  | _ :: _, [] => rfl
  | x :: a, y :: b => by
    have ih := pathLe_total a b
    simp only [pathLe, Bool.or_eq_true, Bool.and_eq_true, decide_eq_true_eq, beq_iff_eq] at ih ⊢
    by_cases hxy : x = y
    · subst hxy
      exact ih.imp (fun h => Or.inr ⟨rfl, h⟩) fun h => Or.inr ⟨rfl, h⟩
    · rcases String.le_total x y with h | h
      · exact Or.inl (Or.inl (by grind))
      · exact Or.inr (Or.inl (by grind))

theorem pathLe_antisymm : ∀ a b : Path, pathLe a b → pathLe b a → a = b
  | [], [], _, _ => rfl
  | [], _ :: _, _, hba => nomatch hba
  | _ :: _, [], hab, _ => nomatch hab
  | x :: a, y :: b, hab, hba => by
    simp only [pathLe, Bool.or_eq_true, Bool.and_eq_true, decide_eq_true_eq, beq_iff_eq] at hab hba
    rcases hab with hxy | ⟨rfl, hab⟩
    · rcases hba with hyx | ⟨rfl, _⟩
      · exact absurd hxy (String.lt_asymm hyx)
      · exact absurd hxy (String.lt_irrefl _)
    · rcases hba with hyx | ⟨_, hba⟩
      · exact absurd hyx (String.lt_irrefl _)
      · rw [pathLe_antisymm a b hab hba]

theorem scan_eq (tree : FileTree) (module : Module) (p : Build.Platform) (root : Path) :
    scan tree module p root = ((packagesOf module (found tree module p root)).mergeSort fun a b =>
      pathLe a.dir b.dir).mergeSort (Text.leBy PackageDir.importPath) := rfl

theorem mem_packagesOf {dirs : List (Path × List SourceFile)} {pkg : PackageDir} :
    pkg ∈ packagesOf module dirs ↔ ∃ dir files, (dir, files) ∈ dirs ∧
      Holds module dir files pkg := by
  simp only [packagesOf, List.mem_filterMap, ofFiles?_eq_some_iff, Prod.exists]

theorem perm_scan (tree : FileTree) (module : Module) (p : Build.Platform) (root : Path) :
    (scan tree module p root).Perm (packagesOf module (found tree module p root)) := by
  rw [scan_eq]
  exact (List.mergeSort_perm _ _).trans (List.mergeSort_perm _ _)

theorem dirs_packagesOf_sublist (module : Module) (dirs : List (Path × List SourceFile)) :
    ((packagesOf module dirs).map PackageDir.dir).Sublist (dirs.map Prod.fst) := by
  induction dirs with
  | nil => exact List.Sublist.slnil
  | cons x rest ih =>
    rw [packagesOf, List.filterMap_cons]
    split
    · exact ih.cons _
    · rename_i pkg hpkg
      rw [List.map_cons, List.map_cons, (ofFiles?_eq_some_iff.mp hpkg).dir_eq]
      exact ih.cons_cons _

/-! ## The order of entries -/

/-- The packages from an entry of the directory at `path` down. -/
def packagesUnder (module : Module) (p : Build.Platform) (path : Path) (e : String × FileTree) :
    List PackageDir :=
  if descends module (path ++ [e.1]) e.1 e.2 then packagesOf module
    (directories module p (path ++ [e.1]) e.2)
  else []

theorem packagesOf_directories (path : Path) (entries : List (String × FileTree)) :
    packagesOf module (directories module p path (.dir entries)) =
      (ofFiles? module path (ownFiles p entries)).toList ++
        entries.flatMap (packagesUnder module p path) := by
  have hunder : ∀ e : String × FileTree, packagesUnder module p path e = packagesOf module
      (if descends module (path ++ [e.1]) e.1 e.2 then directories module p (path ++ [e.1]) e.2
          else []) := by
    intro e
    rw [packagesUnder]
    split <;> rfl
  rw [directories_dir, packagesOf, List.filterMap_cons, List.filterMap_flatMap]
  simp only [funext hunder, packagesOf]
  cases ofFiles? module path (ownFiles p entries) <;> rfl

theorem ownFiles_append (p : Build.Platform) (entries entries' : List (String × FileTree)) :
    ownFiles p (entries ++ entries') = ownFiles p entries ++ ownFiles p entries' :=
  List.filterMap_append

/-- A shuffled entry is the same file, or else no file. -/
theorem ownFiles_singleton_eq (h : t.Shuffled t') (p : Build.Platform) (name : String) :
    ownFiles p [(name, t)] = ownFiles p [(name, t')] := by
  induction h with
  | refl t => rfl
  | perm _ => rfl
  | entry _ _ _ _ _ => rfl
  | trans _ _ ih ih' => rw [ih, ih']

/-- Trees that are shuffled hold the same packages. -/
theorem packagesOf_directories_perm (h : t.Shuffled t') (ht : t.Distinct) (path : Path) :
    (packagesOf module (directories module p path t)).Perm
      (packagesOf module (directories module p path t')) := by
  induction h generalizing path with
  | refl t => exact List.Perm.refl _
  | perm h =>
    obtain _ | ⟨hnames, _⟩ := ht
    have hown := (names_ownFiles_sublist p _).nodup hnames
    have hfiles : (ownFiles p _).Perm (ownFiles p _) := h.filterMap _
    rw [packagesOf_directories, packagesOf_directories, ofFiles?_eq_of_perm hfiles hown]
    exact (h.flatMap_right _).append_left _
  | @entry before after name t t' h ih =>
    obtain _ | ⟨_, hentries⟩ := ht
    have hdistinct : t.Distinct := hentries _ (List.mem_append_right _ List.mem_cons_self)
    have hown : ownFiles p (before ++ (name, t) :: after) =
        ownFiles p (before ++ (name, t') :: after) := by
      rw [ownFiles_append, ownFiles_append, ← List.singleton_append, ownFiles_append,
        ownFiles_singleton_eq h p name, ← ownFiles_append, List.singleton_append]
    have hunder : (packagesUnder module p path (name, t)).Perm
        (packagesUnder module p path (name, t')) := by
      have hdescends :
          descends module (path ++ [name]) name t' = descends module (path ++ [name]) name t := by
        rw [descends, descends, h.hasFile_eq hdistinct]
      rw [packagesUnder, packagesUnder, hdescends]
      split
      · exact ih hdistinct (path ++ [name])
      · exact List.Perm.refl _
    rw [packagesOf_directories, packagesOf_directories, hown, List.flatMap_append,
      List.flatMap_append, List.flatMap_cons, List.flatMap_cons]
    exact ((hunder.append_right _).append_left _).append_left _
  | trans h _ ih ih' => exact (ih ht path).trans (ih' (h.distinct ht) path)

theorem packagesOf_found_perm (h : tree.Shuffled t') (htree : tree.Distinct) :
    (packagesOf module (found tree module p root)).Perm
      (packagesOf module (found t' module p root)) := by
  cases hroot : tree.find root with
  | error e =>
    cases hroot' : t'.find root with
    | error e' => rw [found_of_error hroot, found_of_error hroot']
    | ok u =>
      obtain ⟨v, hv, _⟩ := h.symm.find (h.distinct htree) hroot'
      cases hroot.symm.trans hv
  | ok u =>
    obtain ⟨u', hroot', hshuffled⟩ := h.find htree hroot
    cases u with
    | file text =>
      rw [hshuffled.eq_file rfl] at hroot'
      rw [found, found, hroot, hroot']
    | dir entries =>
      cases u' with
      | file text => cases hshuffled.symm.eq_file rfl
      | dir entries' =>
        rw [found_of_dir hroot, found_of_dir hroot']
        exact packagesOf_directories_perm hshuffled (htree.find hroot) root

/-- The list does not depend on the order in which directories list their entries. -/
theorem scan_eq_of_shuffled (h : tree.Shuffled t') (htree : tree.Distinct) :
    scan t' module p root = scan tree module p root := by
  have hperm : (packagesOf module (found tree module p root)).Perm
      (packagesOf module (found t' module p root)) :=
    packagesOf_found_perm h htree
  have hdirs : ((packagesOf module (found tree module p root)).map PackageDir.dir).Nodup :=
    (dirs_packagesOf_sublist _ _).nodup (nodup_found htree)
  rw [scan_eq, scan_eq, Text.mergeSort_eq_of_perm (fun a b c => pathLe_trans a.dir b.dir c.dir)
    (fun a b => pathLe_total a.dir b.dir) hperm fun a ha b hb hab hba =>
      List.inj_on_of_nodup_map hdirs ha hb (pathLe_antisymm _ _ hab hba)]

/-! ## The scan -/

/-- A scan of `root` is right: packages are sorted by import path, there is one for a directory,
each has files, sorted by their names, and is imported and named as it must be, and the files in
them are the buildable ones. -/
structure Scanned (tree : FileTree) (module : Module) (p : Build.Platform) (root : Path)
    (packages : List PackageDir) : Prop where
  sorted : packages.Pairwise fun a b => a.importPath ≤ b.importPath
  distinct : (packages.map PackageDir.dir).Nodup
  files : ∀ pkg ∈ packages, pkg.files ≠ [] ∧ pkg.files.Pairwise fun a b => a.name < b.name
  imported : ∀ pkg ∈ packages, module.ImportedAs pkg.dir pkg.importPath pkg.vendored
  name : ∀ pkg ∈ packages, ∀ first ∈ pkg.files.head?, pkg.name = packageName first.text
  listed : ∀ dir file, (∃ pkg ∈ packages, pkg.dir = dir ∧ file ∈ pkg.files) ↔
    Buildable tree module p root dir file

theorem mem_scan {pkg : PackageDir} : pkg ∈ scan tree module p root ↔
    ∃ files, (pkg.dir, files) ∈ found tree module p root ∧ Holds module pkg.dir files pkg := by
  rw [(perm_scan tree module p root).mem_iff, mem_packagesOf]
  constructor
  · rintro ⟨dir, files, hmem, hholds⟩
    obtain rfl := hholds.dir_eq
    exact ⟨files, hmem, hholds⟩
  · rintro ⟨files, hmem, hholds⟩
    exact ⟨_, files, hmem, hholds⟩

theorem mem_files_scan (htree : tree.Distinct) :
    (∃ pkg ∈ scan tree module p root, pkg.dir = dir ∧ file ∈ pkg.files) ↔
      Buildable tree module p root dir file := by
  constructor
  · rintro ⟨pkg, hpkg, rfl, hfile⟩
    obtain ⟨files, hmem, hholds⟩ := mem_scan.mp hpkg
    obtain ⟨hinside, hvendor⟩ := exists_importedAs_iff.mp ⟨_, _, hholds.imported⟩
    exact (exists_mem_found htree hinside hvendor).mp ⟨files, hmem, hholds.mem_files.mp hfile⟩
  · intro h
    obtain ⟨files, hmem, hfile⟩ := (exists_mem_found htree h.inside h.notVendor).mpr h
    obtain ⟨importPath, vendored, himported⟩ := exists_importedAs_iff.mpr ⟨h.inside, h.notVendor⟩
    obtain ⟨pkg, hholds⟩ := exists_holds hfile himported
    have hdir := hholds.dir_eq
    exact ⟨pkg, mem_scan.mpr ⟨files, hdir ▸ hmem, hdir ▸ hholds⟩, hdir, hholds.mem_files.mpr hfile⟩

/-- **A scan finds the buildable files.** In a tree of files in which no directory has two entries
of one name, the scan of any root, for any module and platform, gives one package for each directory
that has a buildable file and can be imported, sorted by import path and with its files sorted by
name, and a file is in it if and only if it is buildable. However the entries of directories are
ordered, at any depth, the list is the same. -/
theorem scan_finds_buildable {tree : FileTree} (htree : tree.Distinct) (module : Module)
    (p : Build.Platform) (root : Path) :
    Scanned tree module p root (scan tree module p root) ∧
      ∀ tree', tree.Shuffled tree' → scan tree' module p root = scan tree module p root := by
  refine ⟨⟨?_, ?_, fun pkg hpkg => ?_, fun pkg hpkg => ?_, fun pkg hpkg first hfirst => ?_,
    fun dir file => mem_files_scan htree⟩, fun tree' h => scan_eq_of_shuffled h htree⟩
  · rw [scan_eq]
    exact Text.pairwise_mergeSort_leBy _ _
  · rw [((perm_scan tree module p root).map _).nodup_iff]
    exact (dirs_packagesOf_sublist _ _).nodup (nodup_found htree)
  · obtain ⟨files, hmem, hholds⟩ := mem_scan.mp hpkg
    obtain ⟨first, hfirst, _⟩ := hholds.name_eq
    exact ⟨List.ne_nil_of_mem (List.mem_of_head? hfirst),
      hholds.pairwise_files (nodup_names_of_mem_found htree hmem)⟩
  · obtain ⟨files, _, hholds⟩ := mem_scan.mp hpkg
    exact hholds.imported
  · obtain ⟨files, _, hholds⟩ := mem_scan.mp hpkg
    obtain ⟨first', hfirst', hname⟩ := hholds.name_eq
    obtain rfl : first' = first := Option.some.inj (hfirst'.symm.trans hfirst)
    exact hname

/-- A module with a copied package and with another module in it. -/
def copiesPackage : FileTree :=
  .dir [("go.mod", .file (some "module m\n")),
    ("vendor", .dir [("x", .dir [("x.go", .file (some "package x\n"))])]),
    ("sub", .dir [("go.mod", .file (some "module s\n")), ("s.go", .file (some "package s\n"))])]

/-- The same files, listed from behind. -/
def copiesPackageReversed : FileTree :=
  .dir [("sub", .dir [("s.go", .file (some "package s\n")), ("go.mod", .file (some "module s\n"))]),
    ("vendor", .dir [("x", .dir [("x.go", .file (some "package x\n"))])]),
    ("go.mod", .file (some "module m\n"))]

theorem distinct_copiesPackage : copiesPackage.Distinct := by
  refine .dir (by decide) fun e he => ?_
  simp only [List.mem_cons, List.not_mem_nil, or_false] at he
  rcases he with rfl | rfl | rfl
  · exact .file _
  · refine .dir (by decide) fun e he => ?_
    rw [List.mem_singleton.mp he]
    refine .dir (by decide) fun e he => ?_
    rw [List.mem_singleton.mp he]
    exact .file _
  · refine .dir (by decide) fun e he => ?_
    simp only [List.mem_cons, List.not_mem_nil, or_false] at he
    rcases he with rfl | rfl
    · exact .file _
    · exact .file _

theorem shuffled_copiesPackage : copiesPackage.Shuffled copiesPackageReversed :=
  .trans (.perm (List.reverse_perm _).symm) (.entry [] _ "sub" (.perm (List.reverse_perm _).symm))

theorem buildable_copiesPackage :
    Buildable copiesPackage { path := "m", root := [] } .host [] ["vendor", "x"]
      { name := "x.go", text := "package x\n" } := by
  refine ⟨rfl, List.nil_prefix, by decide, by decide +kernel, by decide +kernel,
    fun above name _ h => ?_, List.nil_prefix, by decide⟩
  -- the way leads through two directories
  match above, h with
  | [], h =>
    obtain ⟨rfl, _⟩ := List.cons_prefix_cons.mp h
    exact ⟨by decide, Or.inr fun ⟨_, h⟩ => nomatch h⟩
  | [a], h =>
    obtain ⟨rfl, hbelow⟩ := List.cons_prefix_cons.mp h
    obtain ⟨rfl, _⟩ := List.cons_prefix_cons.mp hbelow
    exact ⟨by decide, Or.inr fun ⟨_, h⟩ => nomatch h⟩
  | _ :: _ :: rest, h =>
    have hle := h.length_le
    simp at hle

theorem scan_finds_buildable_copiesPackage :
    copiesPackage.Distinct ∧ copiesPackage.Shuffled copiesPackageReversed ∧
      scan copiesPackageReversed { path := "m", root := [] } .host [] =
        scan copiesPackage { path := "m", root := [] } .host [] ∧
      (∃ pkg ∈ scan copiesPackage { path := "m", root := [] } .host [], pkg.dir = ["vendor", "x"] ∧
        { name := "x.go", text := "package x\n" } ∈ pkg.files) ∧
      ∀ pkg ∈ scan copiesPackage { path := "m", root := [] } .host [], pkg.dir ≠ ["sub"] := by
  obtain ⟨hscan, hshuffled⟩ :=
    scan_finds_buildable distinct_copiesPackage { path := "m", root := [] } .host []
  refine ⟨distinct_copiesPackage, shuffled_copiesPackage, hshuffled _ shuffled_copiesPackage,
    (hscan.listed _ _).mpr buildable_copiesPackage, fun pkg hpkg hdir => ?_⟩
  -- a package has a file, and that would have been left out with the directory
  obtain ⟨file, hfile⟩ := List.exists_mem_of_ne_nil _ (hscan.files pkg hpkg).1
  have hbuildable := (hscan.listed _ file).mp ⟨pkg, hpkg, hdir, hfile⟩
  rcases (hbuildable.entered [] "sub" List.nil_prefix List.prefix_rfl).2 with hroot | hmanifest
  · cases hroot
  · exact hmanifest ⟨_, rfl⟩

end CallAtlas.PackageDir
