import CallAtlas.Program.Assembly
import CallAtlas.Proofs.Resolve.Steps
import CallAtlas.Proofs.Table

/-!
# Programs before their bodies are read

A program that has been put together has only functions that are written in a file or initialize a
package. Wrappers appear when bodies are read. Every number that one of its tables holds is that of
a function: the methods of a type, the functions and initializers of a package, and the literals in
a function, each of which knows the function around it.
-/

set_option autoImplicit false

namespace CallAtlas

/-! ## Functions in functions -/

/-- Functions with their numbers. Each knows its own number. The literals of each are among them and
know it, and each of them that is not on the outermost level is a literal of its parent. On the
outermost level stand the numbers `ids`, and the parent there is `parent`. -/
structure Nested (block : List (Function × FuncId)) (parent : Option FuncId) (ids : List FuncId) :
    Prop where
  numbered : ∀ x ∈ block, x.1.id = x.2
  literals : ∀ x ∈ block, ∀ c ∈ x.1.closures, ∃ g, (g, c) ∈ block ∧ g.parent = some x.2
  outermost : ∀ c ∈ ids, ∃ g, (g, c) ∈ block ∧ g.parent = parent
  parents : ∀ x ∈ block, x.1.parent = parent ∧ x.2 ∈ ids ∨
    ∃ g q, x.1.parent = some q ∧ (g, q) ∈ block ∧ x.2 ∈ g.closures

theorem nested_nil (parent : Option FuncId) : Nested [] parent [] where
  numbered _ h := absurd h List.not_mem_nil
  literals _ h := absurd h List.not_mem_nil
  outermost _ h := absurd h List.not_mem_nil
  parents _ h := absurd h List.not_mem_nil

theorem Nested.append {block block' : List (Function × FuncId)} {parent : Option FuncId}
    {ids ids' : List FuncId} (h : Nested block parent ids) (h' : Nested block' parent ids') :
    Nested (block ++ block') parent (ids ++ ids') where
  numbered x hx := (List.mem_append.mp hx).elim (h.numbered x) (h'.numbered x)
  literals x hx c hc := by
    rcases List.mem_append.mp hx with hx | hx
    · obtain ⟨g, hg, hparent⟩ := h.literals x hx c hc
      exact ⟨g, List.mem_append_left _ hg, hparent⟩
    · obtain ⟨g, hg, hparent⟩ := h'.literals x hx c hc
      exact ⟨g, List.mem_append_right _ hg, hparent⟩
  outermost c hc := by
    rcases List.mem_append.mp hc with hc | hc
    · obtain ⟨g, hg, hparent⟩ := h.outermost c hc
      exact ⟨g, List.mem_append_left _ hg, hparent⟩
    · obtain ⟨g, hg, hparent⟩ := h'.outermost c hc
      exact ⟨g, List.mem_append_right _ hg, hparent⟩
  parents x hx := by
    rcases List.mem_append.mp hx with hx | hx
    · rcases h.parents x hx with ⟨hparent, hid⟩ | ⟨g, q, hparent, hg, hid⟩
      · exact Or.inl ⟨hparent, List.mem_append_left _ hid⟩
      · exact Or.inr ⟨g, q, hparent, List.mem_append_left _ hg, hid⟩
    · rcases h'.parents x hx with ⟨hparent, hid⟩ | ⟨g, q, hparent, hg, hid⟩
      · exact Or.inl ⟨hparent, List.mem_append_right _ hid⟩
      · exact Or.inr ⟨g, q, hparent, List.mem_append_right _ hg, hid⟩

/-- The literals of a function stand one level below it. -/
theorem Nested.cons {block : List (Function × FuncId)} {f : Function}
    (h : Nested block (some f.id) f.closures) : Nested ((f, f.id) :: block) f.parent [f.id] where
  numbered := List.forall_mem_cons.mpr ⟨rfl, h.numbered⟩
  literals x hx c hc := by
    rcases List.mem_cons.mp hx with rfl | hx
    · obtain ⟨g, hg, hparent⟩ := h.outermost c hc
      exact ⟨g, List.mem_cons_of_mem _ hg, hparent⟩
    · obtain ⟨g, hg, hparent⟩ := h.literals x hx c hc
      exact ⟨g, List.mem_cons_of_mem _ hg, hparent⟩
  outermost c hc := by
    rw [List.mem_singleton.mp hc]
    exact ⟨f, List.mem_cons_self, rfl⟩
  parents x hx := by
    rcases List.mem_cons.mp hx with rfl | hx
    · exact Or.inl ⟨rfl, List.mem_cons_self⟩
    · rcases h.parents x hx with ⟨hparent, hid⟩ | ⟨g, q, hparent, hg, hid⟩
      · exact Or.inr ⟨f, f.id, hparent, List.mem_cons_self, hid⟩
      · exact Or.inr ⟨g, q, hparent, List.mem_cons_of_mem _ hg, hid⟩

/-! ## What is kept -/

theorem of_getElem?_concat {α : Type} {xs : List α} {x y : α} {i : Nat}
    (h : (xs ++ [x])[i]? = some y) : xs[i]? = some y ∨ i = xs.length ∧ x = y := by
  rcases Nat.lt_or_ge i xs.length with hlt | hge
  · exact Or.inl ((List.getElem?_append_left hlt).symm.trans h)
  · have hlast := (List.getElem?_eq_some_iff.mp h).1
    rw [List.length_append, List.length_singleton] at hlast
    obtain rfl : i = xs.length := Nat.le_antisymm (Nat.le_of_lt_succ hlast) hge
    exact Or.inr ⟨rfl, Option.some.inj (List.getElem?_concat_length.symm.trans h)⟩

theorem of_mem_modify {α : Type} {xs : List α} {i : Nat} {f : α → α} {y : α}
    (h : y ∈ xs.modify i f) : y ∈ xs ∨ ∃ x ∈ xs, y = f x := by
  obtain ⟨j, hj⟩ := List.mem_iff_getElem?.mp h
  rw [List.getElem?_modify] at hj
  obtain ⟨x, hx, rfl⟩ := Option.map_eq_some_iff.mp hj
  have hmem := List.mem_of_getElem? hx
  split
  · exact Or.inr ⟨x, hmem, rfl⟩
  · exact Or.inl hmem

/-- The package enters numbers below `n` only. -/
structure Package.Entered (n : Nat) (q : Package) : Prop where
  funcs : ∀ id ∈ q.funcs.values, id < n
  init : ∀ id, q.init = some id → id < n
  userInits : ∀ id ∈ q.userInits, id < n

theorem Package.Entered.mono {n n' : Nat} {q : Package} (h : q.Entered n) (hle : n ≤ n') :
    q.Entered n' where
  funcs id hid := Nat.lt_of_lt_of_le (h.funcs id hid) hle
  init id hid := Nat.lt_of_lt_of_le (h.init id hid) hle
  userInits id hid := Nat.lt_of_lt_of_le (h.userInits id hid) hle

theorem Universe.getElem?_types_addMethod (u : Universe) (id : TypeId) (name : String) (m : Method)
    (i : TypeId) : (u.addMethod id name m).types[i]? = (u.types[i]?).map fun t =>
      if id = i then { t with methods := t.methods.insert name m } else t := by
  rw [addMethod, List.getElem?_modify]
  rfl

/-- Every method of a type is a method of the program with this type as its receiver. -/
def Program.MethodsOwned (p : Program) : Prop :=
  ∀ (id : TypeId) (t : NamedType), p.decls.types[id]? = some t → ∀ m ∈ t.methods.values,
    ∃ f, p.functions[m.func]? = some f ∧ f.kind = .method ∧ f.recvType = some id

theorem Program.MethodsOwned.append {p : Program} (h : p.MethodsOwned) (fs : List Function) :
    Program.MethodsOwned { p with functions := p.functions ++ fs } := by
  intro id t ht m hm
  obtain ⟨f, hf, hkind, hrecv⟩ := h id t ht m hm
  exact ⟨f, getElem?_of_extends (List.prefix_append _ _) hf, hkind, hrecv⟩

theorem Program.MethodsOwned.addMethod {p : Program} (h : p.MethodsOwned) {id : TypeId} {m : Method}
    {f : Function} (name : String) (hf : p.functions[m.func]? = some f) (hkind : f.kind = .method)
    (hrecv : f.recvType = some id) :
    Program.MethodsOwned { p with decls := p.decls.addMethod id name m } := by
  intro i t ht m' hm'
  rw [Universe.getElem?_types_addMethod] at ht
  obtain ⟨old, hold, rfl⟩ := Option.map_eq_some_iff.mp ht
  split at hm'
  · rename_i heq
    obtain ⟨e, he, rfl⟩ := List.mem_map.mp hm'
    rcases Table.mem_entries_insert he with rfl | he
    · exact ⟨f, hf, hkind, hrecv.trans (congrArg some heq)⟩
    · exact h i old hold e.2 (List.mem_map_of_mem he)
  · exact h i old hold m' hm'

theorem Program.MethodsOwned.declareType {p : Program} (h : p.MethodsOwned) (pkg : String)
    (decl : Outline.TypeDecl) :
    Program.MethodsOwned { p with decls := Assembly.declareType pkg p.decls decl } := by
  intro id t ht m hm
  unfold Assembly.declareType Universe.declare at ht
  split at ht
  · split at ht
    · exact h id t ht m hm
    · exact h id t ht m hm
  · split at ht
    · exact h id t ht m hm
    · rcases of_getElem?_concat ht with ht | ⟨_, rfl⟩
      · exact h id t ht m hm
      -- a type is declared without methods
      · cases hm

/-- The program has no wrappers yet, and the numbers in its tables are those of functions. -/
structure Program.Assembled (p : Program) : Prop where
  kinds : ∀ f ∈ p.functions, f.kind.isWrapper = false
  methods : p.MethodsOwned
  packages : ∀ q ∈ p.packages, q.Entered p.functions.length
  nested : ∃ roots, Nested p.functions.zipIdx none roots

variable {p : Program}

theorem Program.Assembled.listed (h : p.Assembled) {id : FuncId} (hid : p.Lists id) :
    id < p.functions.length := by
  cases hid with
  | method ht hm =>
    obtain ⟨i, hi⟩ := List.mem_iff_getElem?.mp ht
    obtain ⟨f, hf, _⟩ := h.methods i _ hi _ hm
    exact (List.getElem?_eq_some_iff.mp hf).1
  | packageFunc hq hid => exact (h.packages _ hq).funcs id hid
  | init hq hid => exact (h.packages _ hq).init id hid
  | userInit hq hid => exact (h.packages _ hq).userInits id hid
  | literal hf hid =>
    obtain ⟨roots, hnested⟩ := h.nested
    obtain ⟨i, hi⟩ := List.mem_iff_getElem?.mp hf
    obtain ⟨g, hg, _⟩ := hnested.literals (_, i) (List.mem_zipIdx_iff_getElem?.mpr hi) id hid
    exact (List.getElem?_eq_some_iff.mp (List.mem_zipIdx_iff_getElem?.mp hg)).1

theorem Program.Assembled.append (h : p.Assembled) {fs : List Function} {ids : List FuncId}
    (hfs : ∀ f ∈ fs, f.kind.isWrapper = false)
    (hnested : Nested (fs.zipIdx p.functions.length) none ids) :
    Program.Assembled { p with functions := p.functions ++ fs } where
  kinds f hf := (List.mem_append.mp hf).elim (h.kinds f) (hfs f)
  methods := h.methods.append fs
  packages q hq := (h.packages q hq).mono (by simp)
  nested := by
    obtain ⟨roots, hroots⟩ := h.nested
    refine ⟨roots ++ ids, ?_⟩
    rw [List.zipIdx_append, Nat.zero_add]
    exact hroots.append hnested

theorem Program.Assembled.declareType (h : p.Assembled) (pkg : String) (decl : Outline.TypeDecl) :
    Program.Assembled { p with decls := Assembly.declareType pkg p.decls decl } :=
  ⟨h.kinds, h.methods.declareType pkg decl, h.packages, h.nested⟩

namespace Assembly

/-! ## A function with its literals -/

mutual

theorem kind_of_mem_expand (place : Place) (id : FuncId) (parent : Option FuncId)
    (key name : String) (kind : FunctionKind) (recvType : Option TypeId) (f : Outline.Function)
    {g : Function} (h : g ∈ expand place id parent key name kind recvType f) :
    g.kind = kind ∨ g.kind = .closure := by
  obtain ⟨_, line, receiver, signature, typeParams, body, closures⟩ := f
  unfold expand at h
  rcases List.mem_cons.mp h with rfl | h
  · exact Or.inl rfl
  · exact Or.inr (kind_of_mem_expandClosures place id key name 1 (id + 1) closures h)

theorem kind_of_mem_expandClosures (place : Place) (parent : FuncId) (key name : String) (n : Nat)
    (next : FuncId) (closures : List Outline.Function) {g : Function}
    (h : g ∈ (expandClosures place parent key name n next closures).2) : g.kind = .closure := by
  cases closures with
  | nil => simp [expandClosures] at h
  | cons closure rest =>
    unfold expandClosures at h
    rcases List.mem_append.mp h with h | h
    · exact (kind_of_mem_expand _ _ _ _ _ _ _ closure h).elim id id
    · exact kind_of_mem_expandClosures _ _ _ _ _ _ rest h

end

mutual

theorem nested_expand (place : Place) (id : FuncId) (parent : Option FuncId) (key name : String)
    (kind : FunctionKind) (recvType : Option TypeId) (f : Outline.Function) :
    Nested ((expand place id parent key name kind recvType f).zipIdx id) parent [id] := by
  obtain ⟨_, line, receiver, signature, typeParams, body, closures⟩ := f
  unfold expand
  exact (nested_expandClosures place id key name 1 (id + 1) closures).cons

theorem nested_expandClosures (place : Place) (parent : FuncId) (key name : String) (n : Nat)
    (next : FuncId) (closures : List Outline.Function) :
    Nested ((expandClosures place parent key name n next closures).2.zipIdx next) (some parent)
      (expandClosures place parent key name n next closures).1 := by
  cases closures with
  | nil => exact nested_nil _
  | cons closure rest =>
    unfold expandClosures
    rw [List.zipIdx_append]
    exact (nested_expand _ _ _ _ _ _ _ closure).append (nested_expandClosures _ _ _ _ _ _ rest)

end

/-- The function itself comes before its literals. -/
theorem getElem?_append_expand (place : Place) (id : FuncId) (parent : Option FuncId)
    (key name : String) (kind : FunctionKind) (recvType : Option TypeId) (f : Outline.Function)
    (before : List Function) :
    ∃ g, (before ++ expand place id parent key name kind recvType f)[before.length]? = some g ∧
      g.key = key ∧ g.kind = kind ∧ g.recvType = recvType := by
  obtain ⟨_, line, receiver, signature, typeParams, body, closures⟩ := f
  unfold expand
  rw [List.getElem?_append_right (Nat.le_refl _), Nat.sub_self]
  exact ⟨_, rfl, rfl, rfl, rfl⟩

theorem expand_ne_nil (place : Place) (id : FuncId) (parent : Option FuncId) (key name : String)
    (kind : FunctionKind) (recvType : Option TypeId) (f : Outline.Function) :
    expand place id parent key name kind recvType f ≠ [] := by
  obtain ⟨_, line, receiver, signature, typeParams, body, closures⟩ := f
  simp [expand]

end Assembly

namespace Assembly.Registration

variable {r : Registration}

/-! ## The functions of a file -/

/-- The functions that are entered for the package so far exist too. -/
structure Assembled (r : Registration) : Prop where
  program : r.assembly.program.Assembled
  funcs : ∀ id ∈ r.funcs.values, id < r.assembly.program.functions.length
  userInits : ∀ id ∈ r.userInits, id < r.assembly.program.functions.length

theorem Assembled.append (h : r.Assembled) (place : Place) (key name : String) (kind : FunctionKind)
    (recvType : Option TypeId) (f : Outline.Function) (hkind : kind.isWrapper = false) :
    (r.append (expand place r.nextId none key name kind recvType f)).Assembled ∧
      r.nextId < (r.append (expand place r.nextId none key name kind
        recvType f)).assembly.program.functions.length := by
  have hlt : r.nextId < (r.append (expand place r.nextId none key name kind
      recvType f)).assembly.program.functions.length := by
    have hpos : 0 < (expand place r.nextId none key name kind recvType f).length :=
      List.length_pos_iff.mpr (expand_ne_nil _ _ _ _ _ _ _ _)
    rw [Registration.append, List.length_append]
    exact Nat.lt_add_of_pos_right hpos
  refine ⟨⟨h.program.append (fun g hg => ?_) (nested_expand _ _ _ _ _ _ _ f),
    fun id hid => Nat.lt_trans (h.funcs id hid) hlt,
    fun id hid => Nat.lt_trans (h.userInits id hid) hlt⟩, hlt⟩
  rcases kind_of_mem_expand _ _ _ _ _ _ _ _ hg with hg | hg
  · rw [hg, hkind]
  · rw [hg]
    rfl

/-- What taking in a function can do. -/
inductive Takes (r : Registration) (place : Place) (f : Outline.Function) : Registration → Prop
  | nothing : Takes r place f r
  | problem (d : Diagnostic) : Takes r place f (r.report d)
  | method {receiver : Outline.Receiver} {id : TypeId} {t : NamedType}
      (hreceiver : f.receiver = some receiver)
      (ht : r.assembly.program.decls.types[id]? = some t) (hpkg : t.pkg = place.package)
      (hnew : f.name ∉ t.methods.keys) : Takes r place f (r.withMethod place f receiver id t)
  | init (hreceiver : f.receiver = none) (hname : f.name = "init") :
      Takes r place f (r.withInit place f)
  | function (hreceiver : f.receiver = none) (hname : f.name ≠ "init")
      (hnew : r.assembly.program.funcByKey? s!"{place.package}.{f.name}" = none) :
      Takes r place f (r.withFunction place f)

theorem takes_addMethod (r : Registration) (place : Place) {f : Outline.Function}
    {receiver : Outline.Receiver} (hreceiver : f.receiver = some receiver) :
    Takes r place f (r.addMethod place f receiver) := by
  unfold addMethod
  dsimp only
  split
  · exact .problem _
  · split
    · exact .nothing
    · rename_i t ht
      split
      · exact .problem _
      · rename_i hpkg
        split
        · exact .problem _
        · rename_i hnew
          exact .method hreceiver ht (by simpa using hpkg) (mt Table.contains_iff.mpr hnew)

theorem takes_addFunction (r : Registration) (place : Place) (f : Outline.Function) :
    Takes r place f (r.addFunction place f) := by
  unfold addFunction
  split
  case h_1 receiver hreceiver => exact takes_addMethod r place hreceiver
  case h_2 hreceiver =>
    split
    case isTrue hname => exact .init hreceiver (by simpa using hname)
    case isFalse hname =>
      split
      case isTrue => exact .nothing
      case isFalse hnew => exact .function hreceiver (by simpa using hname) (by simpa using hnew)

theorem Takes.assembled {r' : Registration} {place : Place} {f : Outline.Function}
    (h : Takes r place f r') (hr : r.Assembled) : r'.Assembled := by
  cases h with
  | nothing => exact hr
  | problem d => exact ⟨hr.program, hr.funcs, hr.userInits⟩
  | @method receiver id t _ ht hpkg hnew =>
    obtain ⟨hadded, _⟩ := hr.append place _ _ .method (some id) f rfl
    obtain ⟨g, hg, _, hkind, hrecv⟩ : ∃ g,
        (r.withMethod place f receiver id t).assembly.program.functions[r.nextId]? = some g ∧ _ ∧
          g.kind = .method ∧ g.recvType = some id := getElem?_append_expand ..
    exact ⟨⟨hadded.program.kinds, hadded.program.methods.addMethod f.name hg hkind hrecv,
      hadded.program.packages, hadded.program.nested⟩, hadded.funcs, hadded.userInits⟩
  | init _ _ =>
    obtain ⟨hadded, hlt⟩ := hr.append place _ _ .function none f rfl
    refine ⟨hadded.program, hadded.funcs, fun id hid => ?_⟩
    rcases List.mem_append.mp hid with hid | hid
    · exact hadded.userInits id hid
    · rw [List.mem_singleton.mp hid]
      exact hlt
  | function _ hname hnew =>
    obtain ⟨hadded, hlt⟩ := hr.append place _ _ .function none f rfl
    refine ⟨hadded.program, fun id hid => ?_, hadded.userInits⟩
    obtain ⟨e, he, rfl⟩ := List.mem_map.mp hid
    rcases Table.mem_entries_insert he with rfl | he
    · exact hlt
    · exact hadded.funcs e.2 (List.mem_map_of_mem he)

theorem Assembled.checkImport (h : r.Assembled) (file : String) (imp : Outline.Import) :
    (r.checkImport file imp).Assembled := by
  unfold Registration.checkImport
  dsimp only
  split
  · exact ⟨h.program, h.funcs, h.userInits⟩
  · exact h

theorem Assembled.addFile (h : r.Assembled) (packageNames : Table String String) (package : String)
    (f : LoadedFile) : (r.addFile packageNames package f).Assembled := by
  have himports : (f.outline.imports.foldl (fun r imp => r.checkImport f.path imp) r).Assembled :=
    List.foldlRecOn (motive := fun r : Registration => r.Assembled) _ _ h
      fun r hr imp _ => hr.checkImport f.path imp
  exact List.foldlRecOn (motive := fun r : Registration => r.Assembled) _ _
    ⟨himports.program, himports.funcs, himports.userInits⟩
    fun r hr g _ => (takes_addFunction r _ g).assembled hr

end Assembly.Registration

namespace Assembly

/-! ## All packages -/

theorem assembled_addPackage {a : Assembly} (h : a.program.Assembled) (pkg : LoadedPackage) :
    (a.addPackage pkg).program.Assembled := by
  have hdecls : ∀ types : List Outline.TypeDecl, ∀ {p : Program}, p.Assembled →
      Program.Assembled { p with decls := types.foldl (declareType pkg.importPath) p.decls } := by
    intro types
    induction types with
    | nil => exact fun hp => hp
    | cons decl rest ih => exact fun hp => ih (hp.declareType _ decl)
  have htypes := hdecls (pkg.files.flatMap fun f => f.outline.types) h
  refine ⟨htypes.kinds, htypes.methods, fun q hq => ?_, htypes.nested⟩
  rcases List.mem_append.mp hq with hq | hq
  · exact htypes.packages q hq
  -- the functions of a package are entered when they are taken in
  · rw [List.mem_singleton.mp hq]
    exact ⟨fun id hid => absurd hid List.not_mem_nil, fun id hid => (nomatch hid),
      fun id hid => absurd hid List.not_mem_nil⟩

theorem assembled_addFunctions {a : Assembly} (h : a.program.Assembled)
    (packageNames : Table String String) (index : Nat) (pkg : LoadedPackage) :
    (a.addFunctions packageNames index pkg).program.Assembled := by
  have hstart : Registration.Assembled { assembly := a } :=
    ⟨h, fun id hid => absurd hid List.not_mem_nil, fun id hid => absurd hid List.not_mem_nil⟩
  have hfiles := List.foldlRecOn (motive := fun r : Registration => r.Assembled) pkg.files
    (Registration.addFile packageNames pkg.importPath) hstart fun r hr f _ => hr.addFile _ _ f
  obtain ⟨hadded, hlt⟩ := hfiles.append _ _ _ .initializer none _ rfl
  refine ⟨hadded.program.kinds, hadded.program.methods, fun q hq => ?_, hadded.program.nested⟩
  rcases of_mem_modify hq with hq | ⟨old, _, rfl⟩
  · exact hadded.program.packages q hq
  · refine ⟨hadded.funcs, fun id hid => ?_, hadded.userInits⟩
    rw [← Option.some.inj hid]
    exact hlt

/-- **Main statement**: a program that has been put together has no wrappers, and the numbers in its
tables are those of functions. -/
theorem assembled_ofPackages (module rootPath : String) (diagnostics : List Diagnostic)
    (packages : List LoadedPackage) :
    (ofPackages module rootPath diagnostics packages).program.Assembled := by
  have hstart : (start module rootPath diagnostics).program.Assembled := by
    refine ⟨by simp [start], fun id t ht m hm => ?_, by simp [start], [], nested_nil none⟩
    rw [List.mem_singleton.mp (List.mem_of_getElem? ht)] at hm
    cases hm
  have hpackages : (packages.foldl addPackage
      (start module rootPath diagnostics)).program.Assembled :=
    List.foldlRecOn (motive := fun a : Assembly => a.program.Assembled) _ _ hstart
      fun a ha pkg _ => assembled_addPackage ha pkg
  exact List.foldlRecOn (motive := fun a : Assembly => a.program.Assembled) _ _ hpackages
    fun a ha pkg _ => assembled_addFunctions ha _ pkg.2 pkg.1

end Assembly

end CallAtlas
