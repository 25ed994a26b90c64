import CallAtlas.Proofs.Resolve.Requests

/-!
# Programs that reading can begin with

A program that has been put together is one to which requested functions can be added: a function
literal has a larger number than the function around it, and if no bracket stands in the import
paths none stands in a key.

Main statement: `ground_ofPackages`.
-/

set_option autoImplicit false

namespace CallAtlas

namespace Assembly

/-! ## A function with its literals -/

/-- Functions with their numbers: each comes behind the function around it. -/
def ParentsFirst (block : List (Function × FuncId)) : Prop :=
  ∀ x ∈ block, ∀ q, x.1.parent = some q → q < x.2

theorem ParentsFirst.append {block block' : List (Function × FuncId)} (h : ParentsFirst block)
    (h' : ParentsFirst block') : ParentsFirst (block ++ block') :=
  fun x hx => (List.mem_append.mp hx).elim (h x) (h' x)

mutual

theorem parentsFirst_expand (place : Place) (id : FuncId) (parent : Option FuncId)
    (key name : String) (kind : FunctionKind) (recvType : Option TypeId) (f : Outline.Function)
    (hparent : ∀ q, parent = some q → q < id) :
    ParentsFirst ((expand place id parent key name kind recvType f).zipIdx id) := by
  obtain ⟨_, line, receiver, signature, typeParams, body, closures⟩ := f
  unfold expand
  rw [List.zipIdx_cons]
  intro x hx
  rcases List.mem_cons.mp hx with rfl | hx
  · exact hparent
  · exact parentsFirst_expandClosures place id key name 1 (id + 1) closures
      (Nat.lt_succ_self id) x hx

theorem parentsFirst_expandClosures (place : Place) (parent : FuncId) (key name : String) (n : Nat)
    (next : FuncId) (closures : List Outline.Function) (hparent : parent < next) :
    ParentsFirst ((expandClosures place parent key name n next closures).2.zipIdx next) := by
  cases closures with
  | nil => exact fun x hx => absurd hx List.not_mem_nil
  | cons closure rest =>
    unfold expandClosures
    rw [List.zipIdx_append]
    refine (parentsFirst_expand _ _ _ _ _ _ _ closure fun q hq => ?_).append
      (parentsFirst_expandClosures _ _ _ _ _ _ rest (Nat.lt_add_right _ hparent))
    rwa [← Option.some.inj hq]

end

/-- Functions that are added behind all others keep the order. -/
theorem ParentsFirst.append_expand {fs : List Function} (h : ParentsFirst fs.zipIdx) (place : Place)
    (key name : String) (kind : FunctionKind) (recvType : Option TypeId) (f : Outline.Function) :
    ParentsFirst (fs ++ expand place fs.length none key name kind recvType f).zipIdx := by
  rw [List.zipIdx_append, Nat.zero_add]
  exact h.append (parentsFirst_expand _ _ _ _ _ _ _ f fun q hq => by cases hq)

theorem bracket_not_mem_name {name : String} (h : Text.isIdentifier name = true) :
    '[' ∉ name.toList := by
  intro hmem
  have hchar := Text.isNameChar_of_isIdentifier h hmem
  exact absurd hchar (by decide)

theorem isIdentifier_init : Text.isIdentifier "init" = true := by decide

theorem bracket_not_mem_repr (n : Nat) : '[' ∉ n.repr.toList := by
  intro hmem
  exact absurd (isDigit_of_mem_repr hmem) (by decide)

theorem bracket_not_mem_pathText (path : List Nat) : '[' ∉ Label.pathText path := by
  intro hmem
  obtain ⟨n, _, hmem⟩ := List.mem_flatMap.mp hmem
  rcases List.mem_cons.mp hmem with h | h
  · exact absurd h (by decide)
  · exact bracket_not_mem_repr n h

/-- A bracket in a key would stand in front of the last dot. -/
theorem bracket_not_mem_text {root : Root} (hfront : '[' ∉ root.front)
    (hname : Text.isIdentifier root.name = true) : '[' ∉ root.text.toList := by
  intro hmem
  rw [Root.toList_text] at hmem
  rcases List.mem_append.mp hmem with hmem | hmem
  · exact hfront hmem
  rcases List.mem_cons.mp hmem with hmem | hmem
  · exact absurd hmem (by decide)
  rcases List.mem_append.mp hmem with hmem | hmem
  · exact bracket_not_mem_name hname hmem
  rcases root.number_eq with hnumber | ⟨n, hnumber⟩ <;> rw [hnumber] at hmem
  · cases hmem
  · rcases List.mem_cons.mp hmem with hmem | hmem
    · exact absurd hmem (by decide)
    · exact bracket_not_mem_repr n hmem

/-- The literals of a function have keys without brackets if it has one itself. -/
theorem bracket_not_mem_expand (place : Place) (id : FuncId) {root : Root}
    (hroot : '[' ∉ root.text.toList) (name : String) (kind : FunctionKind)
    (recvType : Option TypeId) (f : Outline.Function) :
    ∀ g ∈ expand place id none root.text name kind recvType f, '[' ∉ g.key.toList := by
  intro g hg
  obtain ⟨inner, hkey⟩ := key_of_mem_expand place id none root [] name kind recvType f hg
  rw [hkey, Label.toList_text, List.mem_append]
  exact not_or.mpr ⟨hroot, bracket_not_mem_pathText _⟩

end Assembly

namespace Assembly.Registration

variable {r r' : Registration} {place : Place} {f : Outline.Function}

/-- A function literal comes behind the function around it, and no bracket stands in a key or in the
name of a type. -/
structure Tidy (r : Registration) : Prop where
  parents : ParentsFirst r.assembly.program.functions.zipIdx
  brackets : ∀ g ∈ r.assembly.program.functions, '[' ∉ g.key.toList
  names : ∀ n ∈ r.assembly.program.decls.names, '[' ∉ n.2.toList

theorem Tidy.append (h : r.Tidy) (place : Place) {root : Root} (hroot : '[' ∉ root.text.toList)
    (name : String) (kind : FunctionKind) (recvType : Option TypeId) (f : Outline.Function) :
    (r.append (expand place r.nextId none root.text name kind recvType f)).Tidy where
  parents := h.parents.append_expand _ _ _ _ _ f
  brackets g hg := (List.mem_append.mp hg).elim (h.brackets g)
    (bracket_not_mem_expand _ _ hroot _ _ _ f g)
  names := h.names

theorem Takes.tidy (h : Takes r place f r') (hr : r.Tidy) (hpackage : '[' ∉ place.package.toList)
    (hf : Text.isIdentifier f.name = true) : r'.Tidy := by
  cases h with
  | nothing => exact hr
  | problem d => exact ⟨hr.parents, hr.brackets, hr.names⟩
  | @method receiver id t _ ht hpkg hnew =>
    have htype : '[' ∉ t.name.toList := hr.names (t.pkg, t.name)
      (List.mem_map_of_mem (f := fun t : NamedType => (t.pkg, t.name)) (List.mem_of_getElem? ht))
    have hfront : '[' ∉ (Root.method receiver.pointer place.package t.name f.name).front := by
      cases receiver.pointer <;> simp [Root.front, hpackage, htype]
    let star := if receiver.pointer then "*" else ""
    have hadded := hr.append place (bracket_not_mem_text hfront hf) s!"({star}{t.name}).{f.name}"
      .method (some id) f
    refine ⟨hadded.parents, hadded.brackets, ?_⟩
    show ∀ n ∈ (r.assembly.program.decls.addMethod id f.name _).names, '[' ∉ n.2.toList
    rw [Universe.names_addMethod]
    exact hr.names
  | init _ _ =>
    have hroot : '[' ∉ (Root.numbered place.package (r.userInits.length + 1)).text.toList :=
      bracket_not_mem_text hpackage isIdentifier_init
    have hadded := hr.append place hroot s!"init#{r.userInits.length + 1}" .function none f
    exact ⟨hadded.parents, hadded.brackets, hadded.names⟩
  | function _ _ _ =>
    have hroot : '[' ∉ (Root.plain place.package f.name).text.toList :=
      bracket_not_mem_text hpackage hf
    have hadded := hr.append place hroot f.name .function none f
    exact ⟨hadded.parents, hadded.brackets, hadded.names⟩

theorem Tidy.checkImport (h : r.Tidy) (file : String) (imp : Outline.Import) :
    (r.checkImport file imp).Tidy := by
  unfold Registration.checkImport
  dsimp only
  split
  · exact ⟨h.parents, h.brackets, h.names⟩
  · exact h

theorem Tidy.addFile (h : r.Tidy) (packageNames : Table String String) {package : String}
    (hpackage : '[' ∉ package.toList) {f : LoadedFile}
    (hf : ∀ g ∈ f.outline.functions, Text.isIdentifier g.name = true) :
    (r.addFile packageNames package f).Tidy := by
  have himports : (f.outline.imports.foldl (fun r imp => r.checkImport f.path imp) r).Tidy :=
    List.foldlRecOn (motive := fun r : Registration => r.Tidy) _ _ h fun r hr imp _ =>
      hr.checkImport f.path imp
  exact List.foldlRecOn (motive := fun r : Registration => r.Tidy) _ _
    ⟨himports.parents, himports.brackets, himports.names⟩
    fun r hr g hg => (takes_addFunction r _ g).tidy hr hpackage (hf g hg)

end Assembly.Registration

namespace Assembly

/-! ## All packages -/

theorem tidy_addFunctions {a : Assembly} (h : Registration.Tidy { assembly := a })
    (packageNames : Table String String) (index : Nat) {pkg : LoadedPackage} (hpkg : pkg.Nameable)
    (hpath : '[' ∉ pkg.importPath.toList) :
    Registration.Tidy { assembly := a.addFunctions packageNames index pkg } := by
  have hfiles := List.foldlRecOn (motive := fun r : Registration => r.Tidy) pkg.files
    (Registration.addFile packageNames pkg.importPath) h fun r hr f hf =>
      hr.addFile packageNames hpath (hpkg.functions f hf)
  have hroot : '[' ∉ (Root.plain pkg.importPath "init").text.toList :=
    bracket_not_mem_text hpath isIdentifier_init
  let r := pkg.files.foldl (Registration.addFile packageNames pkg.importPath) { assembly := a }
  have hadded := hfiles.append
    ⟨pkg.importPath, r.imports, (pkg.files.head?.map LoadedFile.path).getD ""⟩ hroot
    "init" .initializer none (initializer r.stmts r.closures)
  rw [Root.text_init] at hadded
  exact ⟨hadded.parents, hadded.brackets, hadded.names⟩

theorem tidy_ofPackages (module rootPath : String) (diagnostics : List Diagnostic)
    {packages : List LoadedPackage} (hpackages : ∀ pkg ∈ packages, pkg.Nameable)
    (hbrackets : ∀ pkg ∈ packages, '[' ∉ pkg.importPath.toList) :
    Registration.Tidy { assembly := ofPackages module rootPath diagnostics packages } := by
  obtain ⟨hdeclared, _⟩ := declared_initial.foldl_declareType (typeDecls packages) fun d hd =>
    isIdentifier_of_mem_typeDecls hpackages hd
  obtain ⟨hdecls, hfunctions⟩ := foldl_addPackage packages (start module rootPath diagnostics)
  have hstart : Registration.Tidy
      { assembly := packages.foldl addPackage (start module rootPath diagnostics) } := by
    refine ⟨?_, ?_, fun n hn => ?_⟩
    · rw [hfunctions]
      exact fun x hx => absurd hx List.not_mem_nil
    · rw [hfunctions]
      exact fun x hx => absurd hx List.not_mem_nil
    · rw [hdecls] at hn
      exact bracket_not_mem_name (hdeclared.identifiers n hn)
  exact List.foldlRecOn (motive := fun a : Assembly => Registration.Tidy { assembly := a })
    packages.zipIdx _ hstart fun a ha pkg hpkg =>
    tidy_addFunctions ha _ pkg.2 (hpackages pkg.1 (List.fst_mem_of_mem_zipIdx hpkg))
      (hbrackets pkg.1 (List.fst_mem_of_mem_zipIdx hpkg))

end Assembly

theorem Program.lists_of_faces {p : Program} {id : FuncId} (h : p.faces.Lists id) : p.Lists id := by
  cases h with
  | method ht hm => exact .method ht hm
  | packageFunc hq hid => exact .packageFunc hq hid
  | init hq hid => exact .init hq hid
  | userInit hq hid => exact .userInit hq hid
  | literal hf hid =>
    obtain ⟨g, hg, rfl⟩ := List.mem_map.mp hf
    exact .literal hg hid

/-- **Main statement**: requested functions can be added to a program that has been put
together from packages with distinct import paths in which neither brackets nor the signs of a
receiver occur. -/
theorem Resolve.ground_ofPackages (module rootPath : String) (diagnostics : List Diagnostic)
    {packages : List LoadedPackage} (hpackages : ∀ pkg ∈ packages, pkg.Nameable)
    (hpaths : (packages.map LoadedPackage.importPath).Nodup)
    (hbrackets : ∀ pkg ∈ packages, '[' ∉ pkg.importPath.toList) :
    Ground (Assembly.ofPackages module rootPath diagnostics packages).program.faces := by
  have htidy := Assembly.tidy_ofPackages module rootPath diagnostics hpackages hbrackets
  obtain ⟨names, done, hkeyed, _⟩ :=
    Assembly.keyed_ofPackages module rootPath diagnostics hpackages hpaths
  have hassembled := Assembly.assembled_ofPackages module rootPath diagnostics packages
  refine ⟨fun {id} hid => ?_, fun {id} {parent} {f} hf hparent => ?_, ?_, fun f hf => ?_⟩
  · rw [Program.faces, List.length_map]
    exact hassembled.listed (Program.lists_of_faces hid)
  · obtain ⟨g, hg, rfl⟩ := Option.map_eq_some_iff.mp (List.getElem?_map.symm.trans hf)
    exact htidy.parents (g, id) (List.mem_zipIdx_iff_getElem?.mpr hg) parent hparent
  · rw [Program.faces, List.map_map]
    exact (hkeyed "").nodup
  · obtain ⟨g, hg, rfl⟩ := List.mem_map.mp hf
    exact htidy.brackets g hg

end CallAtlas
