import CallAtlas.PackageDir
import CallAtlas.Proofs.FileTree
import CallAtlas.Proofs.Text
import Mathlib.Data.List.Induction

/-!
# The directories that a scan comes to

A scan goes down from its root, leaves directories out and takes the files of the build in each
directory that is left. `Buildable` says of a single file, by its path and its text alone, whether
it is to be found, and `Module.ImportedAs` says how its directory is imported. In a directory that
can be imported, the files that are found are the buildable ones.

Main statement: `exists_mem_found`.
-/

set_option autoImplicit false

namespace CallAtlas

/-- How a directory of the module is imported, and whether it is a copied package: by the path of
the module and its own below it, or in the directory `vendor` at the top of the module by the path
from there. That directory itself is not imported, and nothing is outside of the module. -/
inductive Module.ImportedAs (module : Module) : Path → String → Bool → Prop
  | top : ImportedAs module module.root module.path false
  | below {name : String} (rest : Path) (h : name ≠ "vendor") :
      ImportedAs module (module.root ++ name :: rest)
        (module.path ++ "/" ++ Text.join "/" (name :: rest)) false
  | vendored (name : String) (rest : Path) :
      ImportedAs module (module.root ++ "vendor" :: name :: rest)
        (Text.join "/" (name :: rest)) true

namespace PackageDir

variable {module : Module} {p : Build.Platform} {path dir root : Path} {t t' tree : FileTree}
  {entries entries' : List (String × FileTree)} {files : List SourceFile} {file : SourceFile}
  {name : String}

/-- The name of a directory that is not left out for its name. -/
def Visible (name : String) : Prop :=
  name.toList.head? ≠ some '.' ∧ name.toList.head? ≠ some '_' ∧ name ≠ "testdata"

instance : DecidablePred Visible := fun _ => inferInstanceAs (Decidable (_ ∧ _ ∧ _))

/-- All directories on the way down from `path`, where `t` stands, along `rest` are entered: their
names are visible, and unless they are the top of the module they have no manifest. -/
def Entered (module : Module) (path : Path) (t : FileTree) (rest : Path) : Prop :=
  ∀ above name, above ++ [name] <+: rest → Visible name ∧
    (path ++ above ++ [name] = module.root ∨
      ¬ ∃ text, t.find (above ++ [name, "go.mod"]) = .ok (.file text))

/-! ## Directories -/

theorem startsWith_singleton {c : Char} {s : String} :
    Text.startsWith (String.ofList [c]) s = true ↔ s.toList.head? = some c := by
  rw [Text.startsWith_iff, String.toList_ofList]
  cases s.toList with
  | nil => simp
  | cons a rest => simp [eq_comm]

theorem descends_iff : descends module path name t = true ↔
    Visible name ∧ (path = module.root ∨ ¬ ∃ text, t.find ["go.mod"] = .ok (.file text)) := by
  have hdot : Text.startsWith "." name = true ↔ name.toList.head? = some '.' := startsWith_singleton
  have hline : Text.startsWith "_" name = true ↔ name.toList.head? = some '_' :=
    startsWith_singleton
  rw [← FileTree.hasFile_iff, descends, Visible, ← Module.manifestName]
  simp only [ne_eq, ← hdot, ← hline]
  cases Text.startsWith "." name <;> cases Text.startsWith "_" name <;> by_cases h :
    name = "testdata" <;> simp [h]

theorem subdirectories_eq (entries : List (String × FileTree)) :
    subdirectories module p path entries = entries.flatMap fun e =>
      if descends module (path ++ [e.1]) e.1 e.2 then
        directories module p (path ++ [e.1]) e.2
      else [] := by
  induction entries with
  | nil => rw [subdirectories, List.flatMap_nil]
  | cons e rest ih =>
    obtain ⟨name, t⟩ := e
    rw [subdirectories, List.flatMap_cons, ih]

theorem directories_dir (entries : List (String × FileTree)) :
    directories module p path (.dir entries) = (path, ownFiles p entries) ::
      entries.flatMap fun e =>
      if descends module (path ++ [e.1]) e.1 e.2 then
        directories module p (path ++ [e.1]) e.2
      else [] := by
  rw [directories, subdirectories_eq]

theorem entered_nil (module : Module) (path : Path) (t : FileTree) : Entered module path t [] := by
  intro above name h
  exact absurd (List.prefix_nil.mp h) (by simp)

/-- The way down goes into an entry and on from there. -/
theorem entered_cons (hlookup : entries.lookup name = some t) {rest : Path} :
    Entered module path (.dir entries) (name :: rest) ↔
      descends module (path ++ [name]) name t = true ∧ Entered module (path ++ [name]) t rest := by
  rw [descends_iff]
  constructor
  · intro h
    constructor
    · simpa [FileTree.find_cons_of_lookup hlookup] using
        h [] name (List.cons_prefix_cons.mpr ⟨rfl, List.nil_prefix⟩)
    · intro above n hn
      simpa [FileTree.find_cons_of_lookup hlookup] using
        h (name :: above) n (List.cons_prefix_cons.mpr ⟨rfl, hn⟩)
  · rintro ⟨hfirst, hrest⟩ above n hn
    cases above with
    | nil =>
      obtain ⟨rfl, _⟩ := List.cons_prefix_cons.mp hn
      simpa [FileTree.find_cons_of_lookup hlookup] using hfirst
    | cons a above =>
      obtain ⟨rfl, hbelow⟩ := List.cons_prefix_cons.mp hn
      simpa [FileTree.find_cons_of_lookup hlookup] using hrest above n hbelow

/-- The directories that a scan comes to. -/
theorem mem_directories (ht : t.Distinct) : (dir, files) ∈ directories module p path t ↔
    ∃ rest entries, dir = path ++ rest ∧ t.find rest = .ok (.dir entries) ∧
      files = ownFiles p entries ∧ Entered module path t rest := by
  induction ht generalizing path with
  | file text =>
    rw [directories]
    constructor
    · exact fun h => absurd h List.not_mem_nil
    · rintro ⟨rest, entries, _, hfind, _⟩
      cases rest <;> cases hfind
  | @dir entries hnames _ ih =>
    rw [directories_dir, List.mem_cons, Prod.mk.injEq, List.mem_flatMap]
    constructor
    · rintro (⟨rfl, rfl⟩ | ⟨⟨name, t⟩, hmem, hfound⟩)
      · exact ⟨[], entries, by simp, rfl, rfl, entered_nil _ _ _⟩
      · have hlookup := (FileTree.lookup_eq_some_iff_mem hnames).mpr hmem
        split at hfound
        · rename_i hdescends
          obtain ⟨rest, entries', rfl, hfind, hfiles, hentered⟩ := (ih _ hmem).mp hfound
          exact ⟨name :: rest, entries', by simp,
            (FileTree.find_cons_of_lookup hlookup rest).trans hfind, hfiles,
            (entered_cons hlookup).mpr ⟨hdescends, hentered⟩⟩
        · cases hfound
    · rintro ⟨rest, entries', rfl, hfind, rfl, hentered⟩
      cases rest with
      | nil =>
        obtain rfl : entries = entries' := by simpa [FileTree.find] using hfind
        simp
      | cons name rest =>
        cases hlookup : entries.lookup name with
        | none =>
          rw [FileTree.find, hlookup] at hfind
          cases hfind
        | some t =>
          have hmem := (FileTree.lookup_eq_some_iff_mem hnames).mp hlookup
          obtain ⟨hdescends, hentered⟩ := (entered_cons hlookup).mp hentered
          rw [FileTree.find_cons_of_lookup hlookup] at hfind
          refine Or.inr ⟨(name, t), hmem, ?_⟩
          rw [if_pos hdescends, ih _ hmem]
          exact ⟨rest, entries', by simp, hfind, rfl, hentered⟩

/-- No directory is come to twice. -/
theorem nodup_directories (ht : t.Distinct) :
    ((directories module p path t).map Prod.fst).Nodup := by
  have hbelow {u : FileTree} (hu : u.Distinct) {above : Path} {x : Path × List SourceFile}
      (hx : x ∈ directories module p above u) : above <+: x.1 := by
    obtain ⟨rest, _, hdir, _⟩ := (mem_directories hu).mp hx
    exact ⟨rest, hdir.symm⟩
  induction ht generalizing path with
  | file text => simp [directories]
  | @dir entries hnames hentries ih =>
    have hunder : ∀ e ∈ entries, ∀ d ∈ (if descends module (path ++ [e.1]) e.1 e.2 then
        directories module p (path ++ [e.1]) e.2 else []).map Prod.fst, path ++ [e.1] <+: d := by
      intro e he d hd
      obtain ⟨x, hx, rfl⟩ := List.mem_map.mp hd
      split at hx
      · exact hbelow (hentries e he) hx
      · cases hx
    rw [directories_dir, List.map_cons, List.nodup_cons, List.map_flatMap, List.nodup_flatMap]
    refine ⟨fun hmem => ?_, fun e he => ?_, ?_⟩
    · obtain ⟨e, he, hpath⟩ := List.mem_flatMap.mp hmem
      have hle := (hunder e he path hpath).length_le
      rw [List.length_append, List.length_singleton] at hle
      omega
    · split
      · exact ih e he
      · exact List.nodup_nil
    · refine (List.pairwise_map.mp hnames).imp_of_mem fun {a b} ha hb hne d hda hdb => hne ?_
      -- both names stand at the same place in the path
      have hprefix := List.prefix_of_prefix_length_le (hunder a ha d hda)
        (hunder b hb d hdb) (by simp)
      simpa using (List.prefix_append_right_inj path).mp hprefix

/-! ## Files -/

theorem accepted_eq_some_iff {text : Option String} : accepted p name text = some file ↔
    name = file.name ∧ text = some file.text ∧ isGoSource file.name = true ∧
      p.allowsName file.name = true ∧ p.allowsHeader file.text = true := by
  cases text with
  | none => simp [accepted]
  | some text =>
    rw [accepted, Option.ite_none_right_eq_some, Bool.and_eq_true, Bool.and_eq_true,
      Option.some.injEq, Option.some.injEq]
    constructor
    · rintro ⟨⟨⟨hsource, hname⟩, hheader⟩, rfl⟩
      exact ⟨rfl, rfl, hsource, hname, hheader⟩
    · rintro ⟨rfl, rfl, hsource, hname, hheader⟩
      exact ⟨⟨⟨hsource, hname⟩, hheader⟩, rfl⟩

theorem isGoSource_iff : isGoSource name = true ↔
    ".go".toList <:+ name.toList ∧ ¬ "_test.go".toList <:+ name.toList := by
  rw [isGoSource, Bool.and_eq_true, Bool.not_eq_true', ← Bool.not_eq_true,
    Text.endsWith, Text.endsWith, List.isSuffixOf_iff_suffix, List.isSuffixOf_iff_suffix]

theorem mem_ownFiles (hnames : (entries.map Prod.fst).Nodup) : file ∈ ownFiles p entries ↔
    entries.lookup file.name = some (.file (some file.text)) ∧ isGoSource file.name = true ∧
      p.allowsName file.name = true ∧ p.allowsHeader file.text = true := by
  rw [ownFiles, List.mem_filterMap, FileTree.lookup_eq_some_iff_mem hnames]
  constructor
  · rintro ⟨⟨name, t⟩, hmem, haccepted⟩
    cases t with
    | dir _ => cases haccepted
    | file text =>
      obtain ⟨rfl, rfl, hrest⟩ := accepted_eq_some_iff.mp haccepted
      exact ⟨hmem, hrest⟩
  · rintro ⟨hmem, hrest⟩
    exact ⟨_, hmem, accepted_eq_some_iff.mpr ⟨rfl, rfl, hrest⟩⟩

theorem names_ownFiles_sublist (p : Build.Platform) (entries : List (String × FileTree)) :
    ((ownFiles p entries).map SourceFile.name).Sublist (entries.map Prod.fst) := by
  induction entries with
  | nil => exact List.Sublist.slnil
  | cons e rest ih =>
    rw [ownFiles, List.filterMap_cons]
    split
    · exact ih.cons _
    · rename_i file haccepted
      obtain ⟨name, t⟩ := e
      cases t with
      | dir _ => cases haccepted
      | file text =>
        obtain ⟨rfl, _⟩ := accepted_eq_some_iff.mp haccepted
        exact ih.cons_cons _

/-! ## Packages -/

theorem importPath?_eq_some_iff {importPath : String} {vendored : Bool} :
    importPath? module dir = some (importPath, vendored) ↔
      module.ImportedAs dir importPath vendored := by
  constructor
  · intro h
    unfold importPath? at h
    split at h
    · rename_i hprefix
      obtain ⟨below, rfl⟩ := List.isPrefixOf_iff_prefix.mp hprefix
      rw [List.drop_left] at h
      split at h
      · cases h
        rw [List.append_nil]
        exact .top
      · cases h
      · rename_i rest hne
        cases rest with
        | nil => exact absurd rfl hne
        | cons name rest =>
          cases h
          exact .vendored name rest
      · rename_i hnil _ hvendor
        cases below with
        | nil => exact absurd rfl hnil
        | cons name rest =>
          cases h
          exact .below rest fun hname => hvendor rest (by rw [hname])
    · cases h
  · intro h
    unfold importPath?
    cases h with
    | top => simp
    | below rest hname =>
      rw [if_pos (List.isPrefixOf_iff_prefix.mpr (List.prefix_append _ _)), List.drop_left]
      split
      · rename_i heq
        cases heq
      · rename_i heq
        cases heq
        exact absurd rfl hname
      · rename_i heq
        cases heq
        exact absurd rfl hname
      · rfl
    | vendored name rest =>
      rw [if_pos (List.isPrefixOf_iff_prefix.mpr (List.prefix_append _ _)), List.drop_left]
      rfl

theorem exists_importedAs_iff : (∃ importPath vendored, module.ImportedAs dir importPath vendored) ↔
    module.root <+: dir ∧ dir ≠ module.root ++ ["vendor"] := by
  constructor
  · rintro ⟨importPath, vendored, h⟩
    cases h with
    | top => exact ⟨List.prefix_rfl, by simp⟩
    | below rest hname => exact ⟨List.prefix_append _ _, by simp [hname]⟩
    | vendored name rest => exact ⟨List.prefix_append _ _, by simp⟩
  · rintro ⟨⟨below, rfl⟩, hvendor⟩
    cases below with
    | nil =>
      rw [List.append_nil]
      exact ⟨_, _, .top⟩
    | cons name rest =>
      by_cases hname : name = "vendor"
      · subst hname
        cases rest with
        | nil => exact absurd rfl hvendor
        | cons name rest => exact ⟨_, _, .vendored name rest⟩
      · exact ⟨_, _, .below rest hname⟩

/-- The package is the directory with these files: they are sorted by their names, and the first one
gives the package its name. -/
structure Holds (module : Module) (dir : Path) (files : List SourceFile) (pkg : PackageDir) :
    Prop where
  dir_eq : pkg.dir = dir
  files_eq : pkg.files = files.mergeSort (Text.leBy SourceFile.name)
  name_eq : ∃ first, pkg.files.head? = some first ∧ pkg.name = packageName first.text
  imported : module.ImportedAs dir pkg.importPath pkg.vendored

theorem ofFiles?_eq_some_iff {pkg : PackageDir} :
    ofFiles? module dir files = some pkg ↔ Holds module dir files pkg := by
  have hopen : ofFiles? module dir files = some pkg ↔
      ∃ first, (files.mergeSort (Text.leBy SourceFile.name)).head? = some first ∧
        ∃ imported, importPath? module dir = some imported ∧
          { dir, importPath := imported.1, name := packageName first.text,
            files := files.mergeSort (Text.leBy SourceFile.name), vendored :=
              imported.2 } = pkg := by
    simp only [ofFiles?, Option.bind_eq_bind, Option.bind_eq_some_iff, Option.pure_def,
      Option.some.injEq]
    rfl
  rw [hopen]
  constructor
  · rintro ⟨first, hfirst, imported, himported, rfl⟩
    exact ⟨rfl, rfl, ⟨first, hfirst, rfl⟩, importPath?_eq_some_iff.mp himported⟩
  · rintro ⟨hdir, hfiles, ⟨first, hfirst, hname⟩, himported⟩
    refine ⟨first, hfiles ▸ hfirst, (pkg.importPath, pkg.vendored),
      importPath?_eq_some_iff.mpr himported, ?_⟩
    rw [← hdir, ← hname, ← hfiles]

theorem Holds.mem_files {pkg : PackageDir} (h : Holds module dir files pkg) :
    file ∈ pkg.files ↔ file ∈ files := by
  rw [h.files_eq, List.mem_mergeSort]

/-- Files make a package if there is one and the directory can be imported. -/
theorem exists_holds (hfile : file ∈ files) {importPath : String} {vendored : Bool}
    (h : module.ImportedAs dir importPath vendored) : ∃ pkg, Holds module dir files pkg := by
  cases hsorted : files.mergeSort (Text.leBy SourceFile.name) with
  | nil =>
    rw [← List.mem_mergeSort, hsorted] at hfile
    cases hfile
  | cons first rest =>
    exact ⟨{ dir, importPath, name := packageName first.text, files := first :: rest, vendored },
      rfl, hsorted.symm, ⟨first, rfl, rfl⟩, h⟩

theorem Holds.pairwise_files {pkg : PackageDir} (h : Holds module dir files pkg)
    (hnames : (files.map SourceFile.name).Nodup) :
    pkg.files.Pairwise fun a b => a.name < b.name := by
  have hle := Text.pairwise_mergeSort_leBy SourceFile.name files
  have hne : (files.mergeSort (Text.leBy SourceFile.name)).Pairwise fun a b => a.name ≠ b.name :=
    List.pairwise_map.mp (((List.mergeSort_perm files _).map SourceFile.name).nodup_iff.mpr hnames)
  rw [h.files_eq]
  refine (hle.and hne).imp ?_
  rintro a b ⟨hle, hne⟩
  grind

/-- The package does not depend on the order of the files. -/
theorem ofFiles?_eq_of_perm {files' : List SourceFile} (h : files.Perm files')
    (hnames : (files.map SourceFile.name).Nodup) :
    ofFiles? module dir files = ofFiles? module dir files' := by
  have hsorted : files.mergeSort (Text.leBy SourceFile.name) =
      files'.mergeSort (Text.leBy SourceFile.name) := by
    refine Text.mergeSort_eq_of_perm (Text.leBy_trans _) (Text.leBy_total _) h
      fun a ha b hb hab hba => ?_
    exact List.inj_on_of_nodup_map hnames ha hb
      (String.le_antisymm (of_decide_eq_true hab) (of_decide_eq_true hba))
  exact Option.ext fun pkg => by
    rw [ofFiles?_eq_some_iff, ofFiles?_eq_some_iff]
    exact ⟨fun h => ⟨h.dir_eq, h.files_eq.trans hsorted, h.name_eq, h.imported⟩,
      fun h => ⟨h.dir_eq, h.files_eq.trans hsorted.symm, h.name_eq, h.imported⟩⟩

/-! ## What is found -/

theorem found_of_error {e : IoFailure} (h : tree.find root = .error e) :
    found tree module p root = [] := by
  rw [found, h]

theorem found_of_file {text : Option String} (h : tree.find (dir ++ [name]) = .ok (.file text)) :
    found tree module p (dir ++ [name]) = [(dir, (accepted p name text).toList)] := by
  rw [found, h]
  simp

theorem found_of_dir (h : tree.find root = .ok (.dir entries)) :
    found tree module p root = directories module p root (.dir entries) := by
  rw [found, h]

/-- The file stands in the directory `dir`, under the root, and is a text. It is named as a source
file that is no test, and its name and its header allow the platform. No directory on the way down
from the root is left out, and the directory is one of the module but not the one for copied
packages itself. -/
structure Buildable (tree : FileTree) (module : Module) (p : Build.Platform) (root dir : Path)
    (file : SourceFile) : Prop where
  present : tree.find (dir ++ [file.name]) = .ok (.file (some file.text))
  under : root <+: dir ++ [file.name]
  source : ".go".toList <:+ file.name.toList ∧ ¬ "_test.go".toList <:+ file.name.toList
  named : p.allowsName file.name = true
  headed : p.allowsHeader file.text = true
  entered : ∀ above name, root <+: above → above ++ [name] <+: dir → Visible name ∧
    (above ++ [name] = module.root ∨ ¬ ∃ text,
      tree.find (above ++ [name, "go.mod"]) = .ok (.file text))
  inside : module.root <+: dir
  notVendor : dir ≠ module.root ++ ["vendor"]

/-- The way down from the root, in paths from the top of the tree. -/
theorem entered_iff (h : tree.find root = .ok t) (rest : Path) : Entered module root t rest ↔
    ∀ above name, root <+: above → above ++ [name] <+: root ++ rest → Visible name ∧
      (above ++ [name] = module.root ∨
        ¬ ∃ text, tree.find (above ++ [name, "go.mod"]) = .ok (.file text)) := by
  constructor
  · rintro hentered _ name ⟨above, rfl⟩ hprefix
    rw [List.append_assoc, List.prefix_append_right_inj] at hprefix
    have := hentered above name hprefix
    rwa [List.append_assoc _ _ [name, "go.mod"], FileTree.find_append_of_ok h]
  · intro hentered above name hprefix
    have := hentered (root ++ above) name (List.prefix_append _ _) (by
      rwa [List.append_assoc, List.prefix_append_right_inj])
    rwa [List.append_assoc _ _ [name, "go.mod"], FileTree.find_append_of_ok h] at this

/-- If the root is a file, nothing else is found. -/
theorem exists_mem_found_of_file {text : Option String} (hroot : tree.find root = .ok (.file text))
    (hinside : module.root <+: dir) (hvendor : dir ≠ module.root ++ ["vendor"]) :
    (∃ files, (dir, files) ∈ found tree module p root ∧ file ∈ files) ↔
      Buildable tree module p root dir file := by
  have honly (h : Buildable tree module p root dir file) : root = dir ++ [file.name] := by
    obtain ⟨rest, hrest⟩ := h.under
    have hpresent := h.present
    rw [← hrest, FileTree.find_append_of_ok hroot] at hpresent
    cases rest with
    | nil => rw [← hrest, List.append_nil]
    | cons _ _ => cases hpresent
  cases root using List.reverseRecOn with
  | nil =>
    constructor
    · rintro ⟨_, hmem, _⟩
      rw [found, hroot] at hmem
      cases hmem
    · intro h
      simpa using honly h
  | append_singleton above name =>
    rw [found_of_file hroot]
    constructor
    · rintro ⟨files, hmem, hfile⟩
      obtain ⟨rfl, rfl⟩ := Prod.mk.inj (List.mem_singleton.mp hmem)
      obtain ⟨rfl, rfl, hsource, hname, hheader⟩ :=
        accepted_eq_some_iff.mp (Option.mem_toList.mp hfile)
      refine ⟨hroot, List.prefix_rfl, isGoSource_iff.mp hsource, hname, hheader,
        fun above name hroot hdir => ?_, hinside, hvendor⟩
      -- no directory lies between the root and the directory of the file
      have hle := hroot.length_le
      have hle' := hdir.length_le
      simp only [List.length_append, List.length_singleton] at hle hle'
      omega
    · intro h
      obtain ⟨rfl, hname⟩ := List.append_inj' (honly h) rfl
      obtain rfl : name = file.name := by simpa using hname
      obtain rfl : text = some file.text := by simpa using hroot.symm.trans h.present
      exact ⟨_, List.mem_singleton_self _, Option.mem_toList.mpr (accepted_eq_some_iff.mpr
        ⟨rfl, rfl, isGoSource_iff.mpr h.source, h.named, h.headed⟩)⟩

theorem exists_mem_found_of_dir (htree : tree.Distinct)
    (hroot : tree.find root = .ok (.dir entries)) (hinside : module.root <+: dir)
    (hvendor : dir ≠ module.root ++ ["vendor"]) :
    (∃ files, (dir, files) ∈ found tree module p root ∧ file ∈ files) ↔
      Buildable tree module p root dir file := by
  have hdistinct := htree.find hroot
  rw [found_of_dir hroot]
  constructor
  · rintro ⟨files, hmem, hfile⟩
    obtain ⟨rest, entries', rfl, hfind, rfl, hentered⟩ := (mem_directories hdistinct).mp hmem
    obtain _ | ⟨hnames, _⟩ := hdistinct.find hfind
    obtain ⟨hlookup, hsource, hname, hheader⟩ := (mem_ownFiles hnames).mp hfile
    refine ⟨FileTree.find_concat_iff.mpr ⟨entries', ?_, hlookup⟩,
      (List.prefix_append _ _).trans (List.prefix_append _ _), isGoSource_iff.mp hsource,
      hname, hheader, (entered_iff hroot rest).mp hentered, hinside, hvendor⟩
    rw [FileTree.find_append_of_ok hroot, hfind]
  · intro h
    obtain ⟨entries', hfind, hlookup⟩ := FileTree.find_concat_iff.mp h.present
    -- the root is a directory, so it is not the file itself
    have hunder : root <+: dir := by
      rcases List.prefix_concat_iff.mp h.under with rfl | hunder
      · cases hroot.symm.trans h.present
      · exact hunder
    obtain ⟨rest, rfl⟩ := hunder
    rw [FileTree.find_append_of_ok hroot] at hfind
    obtain _ | ⟨hnames, _⟩ := hdistinct.find hfind
    exact ⟨ownFiles p entries', (mem_directories hdistinct).mpr ⟨rest, entries', rfl, hfind, rfl,
      (entered_iff hroot rest).mpr h.entered⟩, (mem_ownFiles hnames).mpr ⟨hlookup,
        isGoSource_iff.mpr h.source, h.named, h.headed⟩⟩

theorem exists_mem_found (htree : tree.Distinct) (hinside : module.root <+: dir)
    (hvendor : dir ≠ module.root ++ ["vendor"]) :
    (∃ files, (dir, files) ∈ found tree module p root ∧ file ∈ files) ↔
      Buildable tree module p root dir file := by
  cases hroot : tree.find root with
  | error e =>
    rw [found_of_error hroot]
    constructor
    · rintro ⟨_, hmem, _⟩
      cases hmem
    · intro h
      obtain ⟨rest, hrest⟩ := h.under
      have hpresent := h.present
      rw [← hrest, FileTree.find_append, hroot] at hpresent
      cases hpresent
  | ok t =>
    cases t with
    | file text => exact exists_mem_found_of_file hroot hinside hvendor
    | dir entries => exact exists_mem_found_of_dir htree hroot hinside hvendor

theorem nodup_found (htree : tree.Distinct) : ((found tree module p root).map Prod.fst).Nodup := by
  unfold found
  split
  · exact List.nodup_nil
  · split
    · exact List.nodup_singleton _
    · exact List.nodup_nil
  · rename_i hfind
    exact nodup_directories (htree.find hfind)

theorem nodup_names_of_mem_found (htree : tree.Distinct)
    (h : (dir, files) ∈ found tree module p root) : (files.map SourceFile.name).Nodup := by
  unfold found at h
  split at h
  · cases h
  · split at h
    · obtain ⟨_, rfl⟩ := Prod.mk.inj (List.mem_singleton.mp h)
      cases accepted p _ _ with
      | none => exact List.nodup_nil
      | some file => exact List.nodup_singleton _
    · cases h
  · rename_i hfind
    obtain ⟨rest, entries, _, hfound, rfl, _⟩ := (mem_directories (htree.find hfind)).mp h
    obtain _ | ⟨hnames, _⟩ := (htree.find hfind).find hfound
    exact (names_ownFiles_sublist p entries).nodup hnames

end PackageDir

end CallAtlas
