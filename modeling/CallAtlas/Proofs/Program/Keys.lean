import CallAtlas.Proofs.Program.Assembled
import CallAtlas.Proofs.Program.Labels
import CallAtlas.Proofs.Resolve.Recorded

/-!
# Keys identify functions

The key of a function is a text, and a graph that is saved knows functions by their keys alone.
While a program is put together, a function is added with its literals, and all their keys have one
root. So it is enough that the roots are new: a function whose key is taken is left out,
initializers are numbered, a type has one method of a name, and a package that has been taken in
does not come again. Which roots may be in the program at each moment is said once
(`Registration.Taken`), and every step keeps to it.

When bodies are read, wrappers and stubs are added, and only under keys that no function has.
-/

set_option autoImplicit false

namespace CallAtlas

/-! ## Finding a function by its key -/

namespace Program

variable {p : Program}

/-- A key that no other function has leads to its function. -/
theorem funcByKey?_of_nodup (h : (p.functions.map Function.key).Nodup) {i : FuncId} {f : Function}
    (hf : p.functions[i]? = some f) : p.funcByKey? f.key = some i := by
  have hkey : f.key ∈ p.functions.map Function.key := List.mem_map_of_mem (List.mem_of_getElem? hf)
  cases hfound : p.funcByKey? f.key with
  | none => exact absurd hkey (funcByKey?_eq_none_iff.mp hfound)
  | some j =>
    obtain ⟨g, hg, hkeys⟩ := of_lastIdx?_eq_some hfound
    have hsame : (p.functions.map Function.key)[i]? = (p.functions.map Function.key)[j]? := by
      rw [List.getElem?_map, List.getElem?_map, hf, hg, Option.map_some, Option.map_some,
        eq_of_beq hkeys]
    have hlt : i < (p.functions.map Function.key).length := by
      rw [List.length_map]
      exact (List.getElem?_eq_some_iff.mp hf).1
    rw [(List.getElem?_inj hlt h).mp hsame]

end Program

namespace Assembly

/-! ## A function with its literals -/

mutual

theorem key_of_mem_expand (place : Place) (id : FuncId) (parent : Option FuncId) (root : Root)
    (path : List Nat) (name : String) (kind : FunctionKind) (recvType : Option TypeId)
    (f : Outline.Function) {g : Function}
    (h : g ∈ expand place id parent (Label.text ⟨root, path⟩) name kind recvType f) :
    ∃ inner, g.key = Label.text ⟨root, path ++ inner⟩ := by
  obtain ⟨_, line, receiver, signature, typeParams, body, closures⟩ := f
  unfold expand at h
  rcases List.mem_cons.mp h with rfl | h
  · exact ⟨[], by rw [List.append_nil]⟩
  · obtain ⟨k, _, inner, hkey⟩ :=
      key_of_mem_expandClosures place id root path name 1 (id + 1) closures h
    exact ⟨k :: inner, hkey⟩

theorem key_of_mem_expandClosures (place : Place) (parent : FuncId) (root : Root) (path : List Nat)
    (name : String) (n : Nat) (next : FuncId) (closures : List Outline.Function) {g : Function}
    (h : g ∈ (expandClosures place parent (Label.text ⟨root, path⟩) name n next closures).2) :
    ∃ k ≥ n, ∃ inner, g.key = Label.text ⟨root, path ++ k :: inner⟩ := by
  cases closures with
  | nil => simp [expandClosures] at h
  | cons closure rest =>
    unfold expandClosures at h
    rcases List.mem_append.mp h with h | h
    · rw [← Label.text_concat] at h
      obtain ⟨inner, hkey⟩ := key_of_mem_expand _ _ _ root (path ++ [n]) _ _ _ closure h
      exact ⟨n, Nat.le_refl n, inner, by rw [hkey, List.append_assoc]; rfl⟩
    · obtain ⟨k, hk, inner, hkey⟩ := key_of_mem_expandClosures _ _ root path _ _ _ rest h
      exact ⟨k, Nat.le_of_succ_le hk, inner, hkey⟩

end

mutual

theorem nodup_keys_expand (place : Place) (id : FuncId) (parent : Option FuncId) {root : Root}
    (hroot : root.Written) (path : List Nat) (name : String) (kind : FunctionKind)
    (recvType : Option TypeId) (f : Outline.Function) :
    ((expand place id parent (Label.text ⟨root, path⟩) name kind recvType f).map
      Function.key).Nodup := by
  obtain ⟨_, line, receiver, signature, typeParams, body, closures⟩ := f
  unfold expand
  rw [List.map_cons, List.nodup_cons]
  refine ⟨fun hmem => ?_, nodup_keys_expandClosures place id hroot path name 1 (id + 1) closures⟩
  obtain ⟨g, hg, hkey⟩ := List.mem_map.mp hmem
  obtain ⟨k, _, inner, hinner⟩ := key_of_mem_expandClosures _ _ _ _ _ _ _ _ hg
  have hpath := congrArg Label.path (Label.text_inj hroot hroot (hinner.symm.trans hkey))
  simp at hpath

theorem nodup_keys_expandClosures (place : Place) (parent : FuncId) {root : Root}
    (hroot : root.Written) (path : List Nat) (name : String) (n : Nat) (next : FuncId)
    (closures : List Outline.Function) :
    ((expandClosures place parent (Label.text ⟨root, path⟩) name n next closures).2.map
      Function.key).Nodup := by
  cases closures with
  | nil => simp [expandClosures]
  | cons closure rest =>
    unfold expandClosures
    rw [List.map_append, List.nodup_append, ← Label.text_concat]
    refine ⟨nodup_keys_expand _ _ _ hroot (path ++ [n]) _ _ _ closure,
      nodup_keys_expandClosures _ _ hroot path _ _ _ rest, fun key hfirst key' hlater heq => ?_⟩
    obtain ⟨g, hg, rfl⟩ := List.mem_map.mp hfirst
    obtain ⟨g', hg', rfl⟩ := List.mem_map.mp hlater
    obtain ⟨inner, hkey⟩ := key_of_mem_expand _ _ _ _ _ _ _ _ _ hg
    obtain ⟨k, hk, inner', hkey'⟩ := key_of_mem_expandClosures _ _ _ _ _ _ _ _ hg'
    -- the literals behind this one have larger numbers
    have hpath := congrArg Label.path
      (Label.text_inj hroot hroot (hkey.symm.trans (heq.trans hkey')))
    simp at hpath
    omega

end

end Assembly

/-! ## Types and their methods -/

/-- The packages and names of the declared types. -/
def Universe.names (u : Universe) : List (String × String) := u.types.map fun t => (t.pkg, t.name)

theorem Universe.names_addMethod (u : Universe) (id : TypeId) (name : String) (m : Method) :
    (u.addMethod id name m).names = u.names := by
  refine List.ext_getElem? fun i => ?_
  rw [names, names, List.getElem?_map, List.getElem?_map, getElem?_types_addMethod, Option.map_map]
  congr 1
  funext t
  rw [Function.comp_apply]
  split <;> rfl

/-- A type keeps its methods, and the type that is given one has it. -/
theorem Universe.exists_mem_types_addMethod (u : Universe) (id : TypeId)
    (name : String) (m : Method) {i : TypeId} {t : NamedType} (ht : u.types[i]? = some t) :
    ∃ t' ∈ (u.addMethod id name m).types, t'.pkg = t.pkg ∧ t'.name = t.name ∧
      t.methods.keys ⊆ t'.methods.keys ∧ (id = i → name ∈ t'.methods.keys) := by
  have ht' := u.getElem?_types_addMethod id name m i
  rw [ht, Option.map_some] at ht'
  refine ⟨_, List.mem_of_getElem? ht', ?_⟩
  by_cases hid : id = i
  · rw [if_pos hid]
    exact ⟨rfl, rfl, fun k hk => Table.mem_keys_insert.mpr (Or.inl hk),
      fun _ => Table.mem_keys_insert.mpr (Or.inr rfl)⟩
  · rw [if_neg hid]
    exact ⟨rfl, rfl, fun k hk => hk, fun h => absurd h hid⟩

/-- A type is known by its package and its name. -/
theorem Universe.eq_of_names {u : Universe} (h : u.names.Nodup) {i j : TypeId} {t t' : NamedType}
    (hi : u.types[i]? = some t) (hj : u.types[j]? = some t') (hpkg : t.pkg = t'.pkg)
    (hname : t.name = t'.name) : i = j := by
  have hlt : i < u.names.length := by
    rw [names, List.length_map]
    exact (List.getElem?_eq_some_iff.mp hi).1
  refine (List.getElem?_inj hlt h).mp ?_
  rw [names, List.getElem?_map, List.getElem?_map, hi, hj, Option.map_some,
    Option.map_some, hpkg, hname]

theorem Universe.declared?_isSome_iff {u : Universe} {pkg name : String} :
    (u.declared? pkg name).isSome = true ↔ (pkg, name) ∈ u.names := by
  rw [declared?, List.findIdx?_isSome, List.any_eq_true, names, List.mem_map]
  simp

/-- A declared name is looked up without following an alias. -/
theorem Universe.exists_lookup_of_mem_names {u : Universe} {pkg name : String}
    (h : (pkg, name) ∈ u.names) :
    ∃ id t, u.lookup pkg name = some id ∧ u.types[id]? = some t ∧ t.pkg = pkg ∧ t.name = name := by
  obtain ⟨id, hid⟩ := Option.isSome_iff_exists.mp (declared?_isSome_iff.mpr h)
  obtain ⟨hlt, hfound, _⟩ := List.findIdx?_eq_some_iff_getElem.mp hid
  obtain ⟨hpkg, hname⟩ := Bool.and_eq_true_iff.mp hfound
  refine ⟨id, u.types[id], ?_, List.getElem?_eq_getElem hlt, eq_of_beq hpkg, eq_of_beq hname⟩
  unfold lookup maxDepth lookupFrom
  rw [hid]

/-! ## The functions of a package -/

namespace Assembly.Registration

variable {names : List (String × String)} {done : List String} {package : String} {r : Registration}

/-- A function with this root may be in the program. The packages of `done` have been taken in, and
`package` is being taken in: its initializer comes last. -/
def Taken (r : Registration) (done : List String) (package : String) : Root → Prop
  | .plain pkg name => pkg ∈ done ∨
      pkg = package ∧ name ≠ "init" ∧
        (Root.plain pkg name).text ∈ r.assembly.program.functions.map Function.key
  | .numbered pkg n => pkg ∈ done ∨ pkg = package ∧ n ≤ r.userInits.length
  | .method _ pkg type name => ∃ t ∈ r.assembly.program.decls.types,
      t.pkg = pkg ∧ t.name = type ∧ name ∈ t.methods.keys

/-- The keys of the functions are distinct, and their roots are those that may be in the program. -/
structure Keyed (names : List (String × String)) (done : List String) (package : String)
    (r : Registration) : Prop where
  names_eq : r.assembly.program.decls.names = names
  methods : r.assembly.program.MethodsOwned
  nodup : (r.assembly.program.functions.map Function.key).Nodup
  labels : ∀ f ∈ r.assembly.program.functions, ∃ l : Label,
    f.key = l.text ∧ l.root.Written ∧ r.Taken done package l.root

/-- A function with a new root is added with its literals. -/
theorem Keyed.add (h : r.Keyed names done package) {done' : List String} {package' : String}
    {r' : Registration} {place : Place} {id : FuncId} {name : String} {kind : FunctionKind}
    {recvType : Option TypeId} {f : Outline.Function} (root : Root) (hroot : root.Written)
    (hfree : ¬ r.Taken done package root)
    (hfunctions : r'.assembly.program.functions =
      r.assembly.program.functions ++ expand place id none root.text name kind recvType f)
    (hnames : r'.assembly.program.decls.names = names) (hmethods : r'.assembly.program.MethodsOwned)
    (hmono : ∀ root', r.Taken done package root' → r'.Taken done' package' root')
    (htaken : r'.Taken done' package' root) : r'.Keyed names done' package' := by
  refine ⟨hnames, hmethods, ?_, fun g hg => ?_⟩
  · rw [hfunctions, List.map_append, List.nodup_append]
    refine ⟨h.nodup, nodup_keys_expand place id none hroot [] name kind recvType f,
      fun key hold key' hnew heq => ?_⟩
    obtain ⟨g, hg, rfl⟩ := List.mem_map.mp hold
    obtain ⟨g', hg', rfl⟩ := List.mem_map.mp hnew
    obtain ⟨l, hkey, hl, hltaken⟩ := h.labels g hg
    obtain ⟨inner, hkey'⟩ := key_of_mem_expand place id none root [] name kind recvType f hg'
    have hsame : l.root = root :=
      congrArg Label.root (Label.text_inj hl hroot (hkey.symm.trans (heq.trans hkey')))
    exact hfree (hsame ▸ hltaken)
  · rw [hfunctions] at hg
    rcases List.mem_append.mp hg with hg | hg
    · obtain ⟨l, hkey, hl, hltaken⟩ := h.labels g hg
      exact ⟨l, hkey, hl, hmono l.root hltaken⟩
    · obtain ⟨inner, hkey⟩ := key_of_mem_expand place id none root [] name kind recvType f hg
      exact ⟨⟨root, inner⟩, hkey, hroot, htaken⟩

/-- What may be in the program may be in a larger one. -/
theorem Taken.mono {root : Root} {r' : Registration} {done' : List String} {package' : String}
    (h : r.Taken done package root)
    (hdone : done ⊆ done')
    (hpackage : package = package' ∧ r.userInits.length ≤ r'.userInits.length ∨ package ∈ done')
    (hfunctions : r.assembly.program.functions ⊆ r'.assembly.program.functions)
    (htypes : ∀ t ∈ r.assembly.program.decls.types, ∃ t' ∈ r'.assembly.program.decls.types,
      t'.pkg = t.pkg ∧ t'.name = t.name ∧ t.methods.keys ⊆ t'.methods.keys) :
    r'.Taken done' package' root := by
  cases root with
  | plain pkg name =>
    rcases h with h | ⟨rfl, hinit, hkey⟩
    · exact Or.inl (hdone h)
    · rcases hpackage with ⟨rfl, _⟩ | hpackage
      · exact Or.inr ⟨rfl, hinit, List.map_subset _ hfunctions hkey⟩
      · exact Or.inl hpackage
  | numbered pkg n =>
    rcases h with h | ⟨rfl, hn⟩
    · exact Or.inl (hdone h)
    · rcases hpackage with ⟨rfl, hinits⟩ | hpackage
      · exact Or.inr ⟨rfl, Nat.le_trans hn hinits⟩
      · exact Or.inl hpackage
  | method pointer pkg type name =>
    obtain ⟨t, ht, rfl, rfl, hname⟩ := h
    obtain ⟨t', ht', hpkg, htype, hkeys⟩ := htypes t ht
    exact ⟨t', ht', hpkg, htype, hkeys hname⟩

/-- The types of the program have distinct names that can stand in a key, and so has the package. -/
structure Nameable (names : List (String × String)) (done : List String) (package : String) :
    Prop where
  distinct : names.Nodup
  identifiers : ∀ n ∈ names, Text.isIdentifier n.2 = true
  path : Text.HasNoReceiver package
  fresh : package ∉ done

theorem Keyed.of_report (h : r.Keyed names done package) (d : Diagnostic) :
    (r.report d).Keyed names done package :=
  ⟨h.names_eq, h.methods, h.nodup, h.labels⟩

theorem exists_same {types : List NamedType} : ∀ t ∈ types, ∃ t' ∈ types,
    t'.pkg = t.pkg ∧ t'.name = t.name ∧ t.methods.keys ⊆ t'.methods.keys :=
  fun t ht => ⟨t, ht, rfl, rfl, fun _ hk => hk⟩

/-- A type has no two methods of one name, so receiver and name are new together. -/
theorem Keyed.withMethod (h : r.Keyed names done package) (hn : Nameable names done package)
    {place : Place} (hplace : place.package = package) {f : Outline.Function}
    (hf : Text.isIdentifier f.name = true) (receiver : Outline.Receiver) {id : TypeId}
    {t : NamedType}
    (ht : r.assembly.program.decls.types[id]? = some t) (hpkg : t.pkg = place.package)
    (hnew : f.name ∉ t.methods.keys) :
    (r.withMethod place f receiver id t).Keyed names done package := by
  have htype : Text.isIdentifier t.name = true := by
    refine hn.identifiers (t.pkg, t.name) ?_
    rw [← h.names_eq]
    exact List.mem_map_of_mem (List.mem_of_getElem? ht)
  have hfree : ¬ r.Taken done package (.method receiver.pointer place.package t.name f.name) := by
    rintro ⟨t', ht', hpkg', hname', hmem⟩
    obtain ⟨i, hi⟩ := List.mem_iff_getElem?.mp ht'
    have hdistinct := hn.distinct
    rw [← h.names_eq] at hdistinct
    obtain rfl := Universe.eq_of_names hdistinct hi ht (hpkg'.trans hpkg.symm) hname'
    obtain rfl : t' = t := Option.some.inj (hi.symm.trans ht)
    exact hnew hmem
  obtain ⟨g, hg, _, hkind, hrecv⟩ : ∃ g,
      (r.withMethod place f receiver id t).assembly.program.functions[r.nextId]? = some g ∧
        g.key = (Root.method receiver.pointer place.package t.name f.name).text ∧
        g.kind = .method ∧ g.recvType = some id :=
    getElem?_append_expand ..
  have hkept : ∀ u ∈ r.assembly.program.decls.types,
      ∃ u' ∈ (r.withMethod place f receiver id t).assembly.program.decls.types,
        u'.pkg = u.pkg ∧ u'.name = u.name ∧ u.methods.keys ⊆ u'.methods.keys := by
    intro u hu
    obtain ⟨i, hi⟩ := List.mem_iff_getElem?.mp hu
    obtain ⟨u', hu', hpkg', hname', hkeys, _⟩ := Universe.exists_mem_types_addMethod _ id f.name
      { func := r.nextId, pointerReceiver := receiver.pointer } hi
    exact ⟨u', hu', hpkg', hname', hkeys⟩
  refine h.add (.method receiver.pointer place.package t.name f.name)
    ⟨hplace ▸ hn.path, htype, hf⟩ hfree rfl ?_ ?_ (fun root hroot => ?_) ?_
  · exact (Universe.names_addMethod ..).trans h.names_eq
  · exact (h.methods.append _).addMethod f.name hg hkind hrecv
  · exact hroot.mono (fun _ hmem => hmem) (Or.inl ⟨rfl, Nat.le_refl _⟩)
      (fun _ hmem => List.mem_append_left _ hmem) hkept
  · obtain ⟨t', ht', hpkg', hname', _, hmem⟩ := Universe.exists_mem_types_addMethod _ id f.name
      { func := r.nextId, pointerReceiver := receiver.pointer } ht
    exact ⟨t', ht', hpkg'.trans hpkg, hname', hmem rfl⟩

/-- Taking in a function keeps the keys distinct. -/
theorem Takes.keyed {r' : Registration} {place : Place} {f : Outline.Function}
    (h : Takes r place f r') (hr : r.Keyed names done package) (hn : Nameable names done package)
    (hplace : place.package = package) (hf : Text.isIdentifier f.name = true) :
    r'.Keyed names done package := by
  subst hplace
  have hkeep : ∀ fs : List Function,
      r.assembly.program.functions ⊆ (r.append fs).assembly.program.functions :=
    fun fs => List.subset_append_left _ fs
  cases h with
  | nothing => exact hr
  | problem d => exact hr.of_report d
  | method _ ht hpkg hnew => exact hr.withMethod hn rfl hf _ ht hpkg hnew
  | init _ _ =>
    have hlength : r.userInits.length ≤ (r.withInit place f).userInits.length := by
      simp [withInit]
    refine hr.add (.numbered place.package (r.userInits.length + 1)) hn.path ?_ rfl hr.names_eq
      (hr.methods.append _) (fun root hroot => ?_) (Or.inr ⟨rfl, by simp [withInit]⟩)
    · rintro (hdone | ⟨_, hle⟩)
      · exact hn.fresh hdone
      · omega
    · exact hroot.mono (fun _ h => h) (Or.inl ⟨rfl, hlength⟩) (hkeep _) exists_same
  | function _ hname hnew =>
    have hfree : (Root.plain place.package f.name).text ∉
        r.assembly.program.functions.map Function.key :=
      Program.funcByKey?_eq_none_iff.mp hnew
    refine hr.add (.plain place.package f.name) ⟨hn.path, hf⟩ ?_ rfl hr.names_eq
      (hr.methods.append _) (fun root hroot => ?_) (Or.inr ⟨rfl, hname, ?_⟩)
    · rintro (hdone | ⟨_, _, hmem⟩)
      · exact hn.fresh hdone
      · exact hfree hmem
    · exact hroot.mono (fun _ h => h) (Or.inl ⟨rfl, Nat.le_refl _⟩) (hkeep _) exists_same
    · obtain ⟨g, hg, hkey, _⟩ := getElem?_append_expand place r.nextId none
        (Root.plain place.package f.name).text f.name .function none f r.assembly.program.functions
      exact List.mem_map.mpr ⟨g, List.mem_of_getElem? hg, hkey⟩

theorem Keyed.checkImport (h : r.Keyed names done package) (file : String) (imp : Outline.Import) :
    (r.checkImport file imp).Keyed names done package := by
  unfold Registration.checkImport
  dsimp only
  split
  · exact h.of_report _
  · exact h

theorem Keyed.addFile (h : r.Keyed names done package) (hn : Nameable names done package)
    (packageNames : Table String String) {f : LoadedFile}
    (hf : ∀ g ∈ f.outline.functions, Text.isIdentifier g.name = true) :
    (r.addFile packageNames package f).Keyed names done package := by
  have himports : (f.outline.imports.foldl (fun r imp => r.checkImport f.path imp)
      r).Keyed names done package :=
    List.foldlRecOn (motive := fun r : Registration => r.Keyed names done package) _ _ h
      fun r hr imp _ => hr.checkImport f.path imp
  exact List.foldlRecOn (motive := fun r : Registration => r.Keyed names done package) _ _
    ⟨himports.names_eq, himports.methods, himports.nodup, himports.labels⟩
    fun r hr g hg => (takes_addFunction r _ g).keyed hr hn rfl (hf g hg)

end Assembly.Registration

/-! ## All packages -/

/-- The import path holds no sign of a receiver, and the names that the files declare for functions
and types are identifiers. -/
structure LoadedPackage.Nameable (pkg : LoadedPackage) : Prop where
  path : Text.HasNoReceiver pkg.importPath
  functions : ∀ file ∈ pkg.files, ∀ f ∈ file.outline.functions, Text.isIdentifier f.name = true
  types : ∀ file ∈ pkg.files, ∀ t ∈ file.outline.types, Text.isIdentifier t.name = true

namespace Assembly

variable {names : List (String × String)} {done : List String}

/-- Between packages no package is being taken in. -/
def Keyed (names : List (String × String)) (done : List String) (a : Assembly) : Prop :=
  ∀ package, Registration.Keyed names done package { assembly := a }

/-- No function of a package is named `init`, so the name is free for its initializer. -/
theorem Keyed.addFunctions {a : Assembly} (h : a.Keyed names done) (hdistinct : names.Nodup)
    (hidentifiers : ∀ n ∈ names, Text.isIdentifier n.2 = true) (packageNames : Table String String)
    (index : Nat)
    {pkg : LoadedPackage} (hpkg : pkg.Nameable) (hfresh : pkg.importPath ∉ done) :
    (a.addFunctions packageNames index pkg).Keyed names (pkg.importPath :: done) := by
  intro package'
  have hfiles := List.foldlRecOn
    (motive := fun r : Registration => r.Keyed names done pkg.importPath) pkg.files
    (Registration.addFile packageNames pkg.importPath) (h pkg.importPath) fun r hr f hf =>
      hr.addFile ⟨hdistinct, hidentifiers, hpkg.path, hfresh⟩ packageNames (hpkg.functions f hf)
  refine hfiles.add (.plain pkg.importPath "init") ⟨hpkg.path, by decide⟩ ?_
    (by rw [Root.text_init]; rfl) hfiles.names_eq (hfiles.methods.append _) (fun root hroot => ?_)
    (Or.inl List.mem_cons_self)
  · rintro (hdone | ⟨_, hne, _⟩)
    · exact hfresh hdone
    · exact hne rfl
  · exact hroot.mono (List.subset_cons_self _ _) (Or.inr List.mem_cons_self)
      (List.subset_append_left _ _) Registration.exists_same

theorem Keyed.foldl_addFunctions (hdistinct : names.Nodup)
    (hidentifiers : ∀ n ∈ names, Text.isIdentifier n.2 = true) (packageNames : Table String String)
    (pkgs : List (LoadedPackage × Nat)) {done : List String} {a : Assembly} (h : a.Keyed names done)
    (hpkgs : ∀ pkg ∈ pkgs, pkg.1.Nameable)
    (hpaths : (done ++ pkgs.map fun pkg => pkg.1.importPath).Nodup) :
    ∃ done', (pkgs.foldl (fun a pkg => a.addFunctions packageNames pkg.2 pkg.1) a).Keyed
      names done' := by
  induction pkgs generalizing done a with
  | nil => exact ⟨done, h⟩
  | cons pkg rest ih =>
    have hfresh : pkg.1.importPath ∉ done := fun hmem =>
      (List.nodup_append.mp hpaths).2.2 _ hmem _ List.mem_cons_self rfl
    refine ih (h.addFunctions hdistinct hidentifiers packageNames pkg.2
      (hpkgs pkg List.mem_cons_self) hfresh) (fun pkg' hpkg' =>
      hpkgs pkg' (List.mem_cons_of_mem _ hpkg')) ?_
    exact (List.perm_middle.nodup_iff).mp hpaths

/-! ## The types of all packages -/

/-- The declared types have distinct names, which are identifiers, and no methods yet. -/
structure Declared (u : Universe) : Prop where
  distinct : u.names.Nodup
  identifiers : ∀ n ∈ u.names, Text.isIdentifier n.2 = true
  bare : ∀ t ∈ u.types, t.methods = ∅

/-- The first declaration of a name counts. -/
theorem Declared.declareType {u : Universe} (h : Declared u) (pkg : String) {t : Outline.TypeDecl}
    (ht : Text.isIdentifier t.name = true) :
    Declared (declareType pkg u t) ∧ u.names ⊆ (declareType pkg u t).names ∧
      (t.isAlias = false → (pkg, t.name) ∈ (declareType pkg u t).names) := by
  unfold Assembly.declareType Universe.declare
  split
  · rename_i halias
    split
    · exact ⟨⟨h.distinct, h.identifiers, h.bare⟩, fun _ hn => hn, by simp [halias]⟩
    · exact ⟨h, fun _ hn => hn, by simp [halias]⟩
  · split
    · rename_i hfound
      exact ⟨h, fun _ hn => hn, fun _ => Universe.declared?_isSome_iff.mp hfound⟩
    · rename_i hnew
      have hnames : Universe.names
          { u with types := u.types ++ [{ pkg, name := t.name, kind := t.kind }] } =
          u.names ++ [(pkg, t.name)] := List.map_append
      rw [hnames]
      refine ⟨⟨?_, ?_, ?_⟩, List.subset_append_left _ _, fun _ => List.mem_append_right _ (by simp)⟩
      · rw [hnames, List.nodup_append]
        refine ⟨h.distinct, List.pairwise_singleton _ _, fun n hn n' hn' heq => ?_⟩
        rw [heq, List.mem_singleton.mp hn'] at hn
        exact hnew (Universe.declared?_isSome_iff.mpr hn)
      · intro n hn
        rw [hnames] at hn
        rcases List.mem_append.mp hn with hn | hn
        · exact h.identifiers n hn
        · rw [List.mem_singleton.mp hn]
          exact ht
      · intro t' ht'
        rcases List.mem_append.mp ht' with ht' | ht'
        · exact h.bare t' ht'
        · rw [List.mem_singleton.mp ht']

/-- The declarations of types with their packages, in the order in which they are taken in. -/
def typeDecls (packages : List LoadedPackage) : List (String × Outline.TypeDecl) :=
  packages.flatMap fun pkg =>
    (pkg.files.flatMap fun f => f.outline.types).map fun t => (pkg.importPath, t)

theorem mem_typeDecls {packages : List LoadedPackage} {pkg : LoadedPackage} {file : LoadedFile}
    {t : Outline.TypeDecl} (hpkg : pkg ∈ packages) (hfile : file ∈ pkg.files)
    (ht : t ∈ file.outline.types) : (pkg.importPath, t) ∈ typeDecls packages :=
  List.mem_flatMap.mpr ⟨pkg, hpkg,
    List.mem_map.mpr ⟨t, List.mem_flatMap.mpr ⟨file, hfile, ht⟩, rfl⟩⟩

theorem isIdentifier_of_mem_typeDecls {packages : List LoadedPackage}
    (hpackages : ∀ pkg ∈ packages, pkg.Nameable) {d : String × Outline.TypeDecl}
    (h : d ∈ typeDecls packages) :
    Text.isIdentifier d.2.name = true := by
  obtain ⟨pkg, hpkg, hd⟩ := List.mem_flatMap.mp h
  obtain ⟨t, ht, rfl⟩ := List.mem_map.mp hd
  obtain ⟨file, hfile, ht⟩ := List.mem_flatMap.mp ht
  exact (hpackages pkg hpkg).types file hfile t ht

theorem foldl_addPackage (packages : List LoadedPackage) (a : Assembly) :
    (packages.foldl addPackage a).program.decls =
        (typeDecls packages).foldl (fun u d => declareType d.1 u d.2) a.program.decls ∧
      (packages.foldl addPackage a).program.functions = a.program.functions := by
  induction packages generalizing a with
  | nil => exact ⟨rfl, rfl⟩
  | cons pkg rest ih =>
    obtain ⟨hdecls, hfunctions⟩ := ih (a.addPackage pkg)
    refine ⟨?_, hfunctions⟩
    rw [List.foldl_cons, hdecls, typeDecls, typeDecls, List.flatMap_cons, List.foldl_append,
      List.foldl_map]
    rfl

theorem Declared.foldl_declareType (ds : List (String × Outline.TypeDecl)) {u : Universe}
    (h : Declared u) (hds : ∀ d ∈ ds, Text.isIdentifier d.2.name = true) :
    Declared (ds.foldl (fun u d => Assembly.declareType d.1 u d.2) u) ∧
      u.names ⊆ (ds.foldl (fun u d => Assembly.declareType d.1 u d.2) u).names ∧
      ∀ d ∈ ds, d.2.isAlias = false →
        (d.1, d.2.name) ∈ (ds.foldl (fun u d => Assembly.declareType d.1 u d.2) u).names := by
  induction ds generalizing u with
  | nil => exact ⟨h, fun _ hn => hn, by simp⟩
  | cons d rest ih =>
    obtain ⟨hd, hkept, hfirst⟩ := h.declareType d.1 (hds d List.mem_cons_self)
    obtain ⟨hend, hkept', hrest⟩ := ih hd fun d' hd' => hds d' (List.mem_cons_of_mem _ hd')
    refine ⟨hend, List.Subset.trans hkept hkept', fun d' hd' hplain => ?_⟩
    rcases List.mem_cons.mp hd' with rfl | hd'
    · exact hkept' (hfirst hplain)
    · exact hrest d' hd' hplain

theorem declared_initial : Declared Universe.initial := by
  refine ⟨by simp [Universe.names, Universe.initial], fun n hn => ?_, fun t ht => ?_⟩
  · rw [List.mem_singleton.mp hn]
    decide
  · rw [List.mem_singleton.mp ht]

theorem keyed_ofPackages (module rootPath : String) (diagnostics : List Diagnostic)
    {packages : List LoadedPackage} (hpackages : ∀ pkg ∈ packages, pkg.Nameable)
    (hpaths : (packages.map LoadedPackage.importPath).Nodup) :
    ∃ names done, (ofPackages module rootPath diagnostics packages).Keyed names done ∧ names.Nodup ∧
      ∀ d ∈ typeDecls packages, d.2.isAlias = false → (d.1, d.2.name) ∈ names := by
  obtain ⟨hdeclared, _, hfound⟩ :=
    declared_initial.foldl_declareType (typeDecls packages) fun d hd =>
    isIdentifier_of_mem_typeDecls hpackages hd
  obtain ⟨hdecls, hfunctions⟩ := foldl_addPackage packages (start module rootPath diagnostics)
  rw [show (start module rootPath diagnostics).program.decls = Universe.initial from rfl] at hdecls
  rw [← hdecls] at hdeclared hfound
  have hstart : (packages.foldl addPackage (start module rootPath diagnostics)).Keyed
      (packages.foldl addPackage (start module rootPath diagnostics)).program.decls.names [] := by
    refine fun package => ⟨rfl, fun id t ht m hm => ?_, ?_, ?_⟩
    · rw [hdeclared.bare t (List.mem_of_getElem? ht)] at hm
      cases hm
    · rw [hfunctions]
      exact List.nodup_nil
    · rw [hfunctions]
      simp [start]
  obtain ⟨done, hkeyed⟩ := hstart.foldl_addFunctions hdeclared.distinct hdeclared.identifiers
    (Table.ofList ((packages.foldl addPackage
      (start module rootPath diagnostics)).program.packages.map fun p => (p.path, p.name)))
    packages.zipIdx (fun pkg hpkg => hpackages pkg.1 (List.fst_mem_of_mem_zipIdx hpkg))
    (by rwa [List.nil_append, ← Function.comp_def, ← List.map_map, List.zipIdx_map_fst])
  exact ⟨_, done, hkeyed, hdeclared.distinct, hfound⟩

end Assembly

/-! ## Wrappers and stubs -/

namespace Resolve

/-- Reading adds functions behind those of the program, each with a new key, and leaves the
types. -/
structure Extends (p : Program) (s : State) : Prop where
  decls : s.program.decls = p.decls
  functions : p.functions <+: s.program.functions
  nodup : (s.program.functions.map Function.key).Nodup

theorem Step.extends {p : Program} {s t : State} (h : Step s t) (hs : Extends p s) :
    Extends p t := by
  cases h with
  | function f facts hnew _ _ =>
    refine ⟨hs.decls, hs.functions.trans (List.prefix_append _ _), ?_⟩
    rw [State.withFunction_functions, List.map_append, List.nodup_append]
    refine ⟨hs.nodup, List.pairwise_singleton _ _, fun key hkey key' hkey' heq => ?_⟩
    rw [heq, List.mem_singleton.mp hkey'] at hkey
    exact Program.funcByKey?_eq_none_iff.mp hnew hkey
  | _ => exact ⟨hs.decls, hs.functions, hs.nodup⟩

theorem run_extends {p : Program} (h : (p.functions.map Function.key).Nodup) :
    (run p).1.decls = p.decls ∧ p.functions <+: (run p).1.functions ∧
      ((run p).1.functions.map Function.key).Nodup := by
  have hstart : Extends p (.start p) := ⟨rfl, List.prefix_rfl, h⟩
  have hend := invariant_foldl_readFunction (I := Extends p) (J := Extends p)
    (fun _ _ hs => ⟨hs.decls, hs.functions, hs.nodup⟩) Step.extends
    (fun hs => ⟨hs.decls, hs.functions, hs.nodup⟩) (readingOrder p) hstart
  exact ⟨hend.decls, hend.functions, hend.nodup⟩

end Resolve

/-- Keys lead to functions and names to types: no two functions have one key, and the key of a
function leads back to it; every method of a type is a method of the program whose receiver is that
type; and the name of every declared type that is no alias stands for the one type with that
package and name. -/
structure Program.Identified (packages : List LoadedPackage) (p : Program) : Prop where
  distinct : (p.functions.map Function.key).Nodup
  byKey : ∀ (i : FuncId) (f : Function), p.functions[i]? = some f → p.funcByKey? f.key = some i
  methods : ∀ (id : TypeId) (t : NamedType), p.decls.types[id]? = some t →
    ∀ name m, t.methods.get? name = some m →
      ∃ f, p.functions[m.func]? = some f ∧ f.kind = .method ∧ f.recvType = some id
  types : ∀ pkg ∈ packages, ∀ file ∈ pkg.files, ∀ decl ∈ file.outline.types, decl.isAlias = false →
    ∃ id, p.decls.lookup pkg.importPath decl.name = some id ∧
      ∀ i, (∃ t, p.decls.types[i]? = some t ∧ t.pkg = pkg.importPath ∧ t.name = decl.name) ↔ i = id

/-- **Keys identify functions.** Packages with distinct import paths, in which the parentheses and
the star of a receiver do not occur, and with identifiers as names are put together and their
bodies are read. In the program that this gives, whatever is wrong with the files, keys lead to
functions and names to types. This goes for the functions written in a file as for those that the
analysis makes. -/
theorem Assembly.keys_identify_functions (module rootPath : String) (diagnostics : List Diagnostic)
    (packages : List LoadedPackage) (hpackages : ∀ pkg ∈ packages, pkg.Nameable)
    (hpaths : (packages.map LoadedPackage.importPath).Nodup) :
    (Resolve.run (ofPackages module rootPath diagnostics packages).program).1.Identified
      packages := by
  obtain ⟨names, done, hkeyed, hdistinct, hfound⟩ :=
    keyed_ofPackages module rootPath diagnostics hpackages hpaths
  have h := hkeyed ""
  obtain ⟨hdecls, hfunctions, hnodup⟩ := Resolve.run_extends h.nodup
  have hnames :
      (Resolve.run (ofPackages module rootPath diagnostics packages).program).1.decls.names =
      names := by
    rw [hdecls]
    exact h.names_eq
  refine ⟨hnodup, fun i f hf => Program.funcByKey?_of_nodup hnodup hf, fun id t ht name m hm => ?_,
    fun pkg hpkg file hfile decl hdecl hplain => ?_⟩
  · rw [hdecls] at ht
    obtain ⟨f, hf, hkind, hrecv⟩ :=
      h.methods id t ht m (List.mem_map_of_mem (Table.mem_entries_of_get? hm))
    exact ⟨f, getElem?_of_extends hfunctions hf, hkind, hrecv⟩
  · have hmem : (pkg.importPath, decl.name) ∈ names :=
      hfound (pkg.importPath, decl) (mem_typeDecls hpkg hfile hdecl) hplain
    rw [← hnames] at hmem hdistinct
    obtain ⟨id, t, hlookup, ht, hpkg', hname'⟩ := Universe.exists_lookup_of_mem_names hmem
    refine ⟨id, hlookup, fun i => ⟨?_, ?_⟩⟩
    · rintro ⟨t', ht', hpkg'', hname''⟩
      exact Universe.eq_of_names hdistinct ht' ht (hpkg''.trans hpkg'.symm)
        (hname''.trans hname'.symm)
    · rintro rfl
      exact ⟨t, ht, hpkg', hname'⟩

/-- A function without a body. -/
def bodiless (name : String) (receiver : Option Outline.Receiver)
    (closures : List Outline.Function) : Outline.Function :=
  ⟨name, 1, receiver, {}, [], none, closures⟩

/-- A package declares a function `f` twice and a type `T` with a method `f`; the path of the other
one is written like that type, and it has a function `f` too. -/
def nearKeys : List LoadedPackage :=
  [{ dir := "/w", importPath := "m", name := "m", vendored := false
     files := [⟨"/w/a.go", "a.go",
       { package := "m", types := [⟨"T", 2, .struct [], false⟩]
         functions :=
           [bodiless "init" none [], bodiless "init" none [],
            bodiless "f" none [bodiless "" none [bodiless "" none []], bodiless "" none []],
            bodiless "f" (some ⟨none, "T", false⟩) [], bodiless "g" (some ⟨none, "T", true⟩) [],
            bodiless "f" none []] }⟩] },
   { dir := "/w/m.T", importPath := "m.T", name := "t", vendored := false
     files := [⟨"/w/m.T/a.go", "a.go",
       { package := "t", functions := [bodiless "f" none [bodiless "" none []]] }⟩] }]

theorem nameable_nearKeys : ∀ pkg ∈ nearKeys, pkg.Nameable := by
  intro pkg hpkg
  rcases List.mem_cons.mp hpkg with rfl | hpkg
  · exact ⟨by decide, by decide, by decide⟩
  · rw [List.mem_singleton.mp hpkg]
    exact ⟨by decide, by decide, by decide⟩

theorem Assembly.keys_identify_functions_nearKeys :
    (ofPackages "m" "m" [] nearKeys).program.functions.map Function.key =
        ["m.init#1", "m.init#2", "m.f", "m.f$1", "m.f$1$1", "m.f$2", "(m.T).f",
          "(*m.T).g", "m.init", "m.T.f", "m.T.f$1", "m.T.init"] ∧
      (Resolve.run (ofPackages "m" "m" [] nearKeys).program).1.Identified nearKeys :=
  ⟨by decide +kernel, keys_identify_functions "m" "m" [] nearKeys nameable_nearKeys (by decide)⟩

end CallAtlas
