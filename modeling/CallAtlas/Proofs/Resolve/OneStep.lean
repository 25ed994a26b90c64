import CallAtlas.Proofs.Program.Literals

/-!
# Wrappers are one step from code

A wrapper calls one function, and that function is never made by the analysis itself. Bound methods
and thunks stand for functions in the method table of a type, and these are methods. An instance
stands for a function with type parameters; a function literal has none, nor has an initializer, a
stub or another wrapper, so it is declared in a file. Both facts hold when the program has been put
together, and no step of reading breaks them.

A wrapper is asked for by its key, which is the key of its target and an ending that says what it is
for. One that is there already is taken again, so no other function has the key of a wrapper.
-/

set_option autoImplicit false

namespace CallAtlas

open Outline (FuncLiteral LoweredFrom)

/-! ## Functions with type parameters -/

/-- Functions with type parameters are declared in files. -/
def GenericDeclared (fs : List Function) : Prop :=
  ∀ f ∈ fs, f.isGeneric = true → f.kind = .function ∨ f.kind = .method

theorem Outline.LoweredFrom.exists_literal {code : Outline.Code} {o c : Outline.Function}
    (h : LoweredFrom code o) (hc : c ∈ o.closures) : ∃ l, FuncLiteral.outline l = c := by
  obtain ⟨_, _, hlowered⟩ := h
  obtain ⟨l, _, hl⟩ := List.mem_map.mp (hlowered.all.mem_iff.mp hc)
  exact ⟨l, hl⟩

namespace Assembly

mutual

theorem isGeneric_of_mem_expand (place : Place) (id : FuncId) (parent : Option FuncId)
    (key name : String) (kind : FunctionKind) (recvType : Option TypeId) (o : Outline.Function)
    (ho : ∃ l, FuncLiteral.outline l = o) {g : Function}
    (hg : g ∈ expand place id parent key name kind recvType o) : g.isGeneric = false := by
  obtain ⟨l, hl⟩ := ho
  have htypeParams : o.typeParams = [] := by rw [← hl]; rfl
  have hclosures : ∀ c ∈ o.closures, ∃ l, FuncLiteral.outline l = c := by
    intro c hc
    rw [← hl] at hc
    exact l.loweredFrom_outline.exists_literal hc
  obtain ⟨_, line, receiver, signature, typeParams, body, closures⟩ := o
  unfold expand at hg
  rcases List.mem_cons.mp hg with rfl | hg
  · simpa [Function.isGeneric] using htypeParams
  · exact isGeneric_of_mem_expandClosures place id key name 1 (id + 1) closures hclosures hg

/-- A function literal has no type parameters, at any depth. -/
theorem isGeneric_of_mem_expandClosures (place : Place) (parent : FuncId)
    (key name : String) (n : Nat) (next : FuncId) (closures : List Outline.Function)
    (hclosures : ∀ o ∈ closures, ∃ l, FuncLiteral.outline l = o) {g : Function}
    (hg : g ∈ (expandClosures place parent key name n next closures).2) : g.isGeneric = false := by
  cases closures with
  | nil => simp [expandClosures] at hg
  | cons closure rest =>
    unfold expandClosures at hg
    rcases List.mem_append.mp hg with hg | hg
    · exact isGeneric_of_mem_expand _ _ _ _ _ _ _ closure (hclosures closure List.mem_cons_self) hg
    · exact isGeneric_of_mem_expandClosures _ _ _ _ _ _ rest
        (fun o ho => hclosures o (List.mem_cons_of_mem _ ho)) hg

end

theorem kept_genericDeclared (packages : List SourcePackage) : Kept packages GenericDeclared := by
  intro fs place key name kind recvType o hfs hkind hsourced f hf hgeneric
  rcases List.mem_append.mp hf with hf | hf
  · exact hfs f hf hgeneric
  · obtain ⟨head, hexpand, henters, _, _, _, _, hhead, _⟩ :=
      expand_cons place fs.length none key name kind recvType o
    rw [hexpand] at hf
    rcases List.mem_cons.mp hf with rfl | hf
    · rw [hhead]
      rcases hkind with h | h | ⟨_, h⟩
      · exact Or.inl h
      · exact Or.inr h
      · simp [Function.isGeneric, henters.typeParams, h] at hgeneric
    · have hclosures : ∀ c ∈ o.closures, ∃ l, FuncLiteral.outline l = c := by
        intro c hc
        rcases hsourced with ⟨_, hnil⟩ | ⟨code, hlowered, _⟩
        · rw [hnil] at hc
          cases hc
        · exact hlowered.exists_literal hc
      rw [isGeneric_of_mem_expandClosures _ _ _ _ _ _ _ hclosures hf] at hgeneric
      cases hgeneric

theorem PutTogether.genericDeclared {packages : List SourcePackage} {a : Assembly}
    (h : a.PutTogether packages) : GenericDeclared a.program.functions :=
  h.functions (kept_genericDeclared packages) fun _ hf => nomatch hf

end Assembly

/-! ## What a wrapper stands for -/

/-- The declared function stands behind a wrapper of this kind, and the key of the wrapper is its
own with this ending. -/
inductive Function.WrappedAs (g : Function) : FunctionKind → String → Prop
  | bound (hmethod : g.kind = .method) : WrappedAs g .bound "$bound"
  | thunk (hmethod : g.kind = .method) : WrappedAs g .thunk "$thunk"
  | instantiation (hgeneric : g.isGeneric = true) (hdeclared : g.kind = .function ∨
      g.kind = .method) (args : String) : WrappedAs g .instantiation ("[" ++ args ++ "]")

/-- The wrapper has no package and is named after its target. -/
structure Program.Wraps (p : Program) (f : Function) (target : FuncId) : Prop where
  package : f.package = none
  declared : ∃ g ending, p.functions[target]? = some g ∧ g.WrappedAs f.kind ending ∧
    f.key = g.key ++ ending

/-- Methods and generic functions are declared, every wrapper stands for what it calls, and its key
leads to nothing else. -/
structure Program.Wrapped (p : Program) : Prop where
  methods : p.MethodsOwned
  generic : GenericDeclared p.functions
  wrappers : ∀ (w : FuncId) (f : Function) (target : FuncId), p.functions[w]? = some f →
    f.kind.isWrapper = true → p.facts[w]? = some (.calling target) → p.Wraps f target
  keys : ∀ (w : FuncId) (f : Function), p.functions[w]? = some f → f.kind.isWrapper = true →
    ∀ (i : FuncId) (g : Function), p.functions[i]? = some g → g.key = f.key → i = w

theorem Program.Wraps.mono {p q : Program} {f : Function} {target : FuncId} (h : p.Wraps f target)
    (hfunctions : p.functions <+: q.functions) : q.Wraps f target := by
  obtain ⟨g, ending, hg, hwrapped, hkey⟩ := h.declared
  exact ⟨h.package, g, ending, getElem?_of_extends hfunctions hg, hwrapped, hkey⟩

namespace Resolve

variable {s t : State}

theorem State.MayWrap.wrappedAs {target : FuncId} {kind : FunctionKind} {ending : String}
    (h : s.MayWrap target kind ending) (hs : s.program.Wrapped) :
    ∃ g, s.program.functions[target]? = some g ∧ g.WrappedAs kind ending := by
  have hmethod (hlisted : s.program.decls.HasMethod target) :
      ∃ g, s.program.functions[target]? = some g ∧ g.kind = .method := by
    obtain ⟨t, ht, m, hm, rfl⟩ := hlisted
    obtain ⟨id, hid⟩ := List.mem_iff_getElem?.mp ht
    obtain ⟨g, hg, hkind, _⟩ := hs.methods id t hid m hm
    exact ⟨g, hg, hkind⟩
  cases h with
  | bound h =>
    obtain ⟨g, hg, hkind⟩ := hmethod h
    exact ⟨g, hg, .bound hkind⟩
  | thunk h =>
    obtain ⟨g, hg, hkind⟩ := hmethod h
    exact ⟨g, hg, .thunk hkind⟩
  | @instantiation g hg hgeneric args =>
    exact ⟨g, hg, .instantiation hgeneric (hs.generic g (List.mem_of_getElem? hg) hgeneric) args⟩

theorem State.Wraps.wraps {f : Function} {target : FuncId} (h : s.Wraps f target)
    (hs : s.program.Wrapped) : s.program.Wraps f target := by
  obtain ⟨ending, hmay, hkey⟩ := h.key
  obtain ⟨g, hg, hwrapped⟩ := hmay.wrappedAs hs
  rw [hg, Option.getD_some] at hkey
  exact ⟨h.package, g, ending, hg, hwrapped, hkey⟩

/-! ## One step -/

theorem Step.wrapped (h : Step s t) (hlength : s.program.facts.length = s.program.functions.length)
    (hs : s.program.Wrapped) : t.program.Wrapped := by
  have hkeep {f : Function} {target : FuncId} (hwraps : s.program.Wraps f target) :
      t.program.Wraps f target := hwraps.mono h.functions_prefix
  cases h with
  | function f facts hnew _ _ hmade =>
    have hfresh : ∀ g ∈ s.program.functions, g.key ≠ f.key := fun g hg heq =>
      Program.funcByKey?_eq_none_iff.mp hnew (heq ▸ List.mem_map_of_mem hg)
    refine ⟨hs.methods.append [_], fun g hg hgeneric => ?_, fun w g target hg hkind hcalls => ?_,
      fun w g hg hkind i g' hg' hkey => ?_⟩
    · rcases List.mem_append.mp hg with hg | hg
      · exact hs.generic g hg hgeneric
      · rw [List.mem_singleton.mp hg] at hgeneric
        exact absurd (hmade.isGeneric.symm.trans hgeneric) Bool.false_ne_true
    · rcases of_getElem?_concat hg with hold | ⟨rfl, rfl⟩
      · have hlt := (List.getElem?_eq_some_iff.mp hold).1
        rw [State.withFunction_facts, List.getElem?_append_left (hlength ▸ hlt)] at hcalls
        exact hkeep (hs.wrappers w g target hold hkind hcalls)
      · rw [State.withFunction_facts, ← hlength, List.getElem?_concat_length] at hcalls
        cases hmade with
        | stub hstub _ => exact absurd (hstub.symm.trans hkind) Bool.false_ne_true
        | wrapper hwraps =>
          obtain rfl : _ = target := by simpa [Facts.calling] using hcalls
          have hwraps := hwraps.wraps hs
          exact hkeep ⟨hwraps.package, hwraps.declared⟩
    · rcases of_getElem?_concat hg with hold | ⟨rfl, rfl⟩
      · rcases of_getElem?_concat hg' with hold' | ⟨_, rfl⟩
        · exact hs.keys w g hold hkind i g' hold' hkey
        · exact absurd hkey.symm (hfresh g (List.mem_of_getElem? hold))
      · rcases of_getElem?_concat hg' with hold' | ⟨hi, _⟩
        · exact absurd hkey (hfresh g' (List.mem_of_getElem? hold'))
        · exact hi
  | _ => exact ⟨hs.methods, hs.generic, fun w f target hf hkind hcalls =>
      hkeep (hs.wrappers w f target hf hkind hcalls), hs.keys⟩

/-- The facts that replace those of the current function are not those of a wrapper. -/
theorem Underway.close_wrapped (hs : Underway s) (hp : s.program.Wrapped) :
    s.close.program.Wrapped := by
  refine ⟨hp.methods, hp.generic, fun w f target hf hkind hcalls => ?_, hp.keys⟩
  have hne : s.frame.id ≠ w := by
    rintro rfl
    obtain ⟨g, hg, hbody⟩ := hs.current
    obtain rfl : g = f := Option.some.inj (hg.symm.trans hf)
    simp [(hs.program.wrapper _ _ hf hkind).1] at hbody
  exact (hp.wrappers w f target hf hkind ((List.getElem?_set_ne hne).symm.trans hcalls)).mono
    List.prefix_rfl

/-! ## All bodies -/

theorem run_wrapped {p : Program} (hp : p.Assembled) (hgeneric : GenericDeclared p.functions) :
    (run p).1.Wrapped := by
  have hstart : (State.start p).program.Wrapped := by
    have hnone {w : FuncId} {f : Function} (hf : p.functions[w]? = some f)
        (hkind : f.kind.isWrapper = true) : False := by
      simp [hp.kinds f (List.mem_of_getElem? hf)] at hkind
    exact ⟨hp.methods, hgeneric, fun w f target hf hkind => (hnone hf hkind).elim,
      fun w f hf hkind => (hnone hf hkind).elim⟩
  exact (invariant_foldl_readFunction (I := fun s => Underway s ∧ s.program.Wrapped)
    (J := fun s => Settled s ∧ s.program.Wrapped) (fun hf hbody hs => ⟨hs.1.open hf hbody, hs.2⟩)
    (fun h hs => ⟨h.underway hs.1, h.wrapped hs.1.program.length hs.2⟩)
    (fun hs => ⟨hs.1.close, hs.1.close_wrapped hs.2⟩) (readingOrder p)
    ⟨settled_start hp, hstart⟩).2

end Resolve

namespace Disk

theorem loadProgram_wrapped {d : Disk} {platform : Build.Platform} {module : Module}
    {start : String} {p : Program} (h : d.loadProgram platform module start = .ok p) :
    p.Wrapped := by
  obtain ⟨_, _, packages, a, _, _, _, hassembly, rfl⟩ := loadProgram_sources h
  refine Resolve.run_wrapped ?_ hassembly.genericDeclared
  obtain ⟨module, rootPath, diagnostics, loaded, _, rfl⟩ := hassembly
  exact Assembly.assembled_ofPackages module rootPath diagnostics loaded

/-- **Wrappers are one step from code.** In a program that loads, a bound method, a thunk or an
instance of a generic function has no package, and all that is recorded of it is one call without a
line, a receiver or arguments. What it calls is declared in a file: a method for a bound method or a
thunk, and a generic function or method for an instance. Its key is the key of that function
followed by the ending for its kind, and no other function of the program has this key, however
often the wrapper is asked for. -/
theorem wrappers_one_step {d : Disk} {platform : Build.Platform} {module : Module}
    {start : String} {p : Program} (h : d.loadProgram platform module start = .ok p) {w : FuncId}
    {f : Function} (hf : p.functions[w]? = some f) (hkind : f.kind.isWrapper = true) :
    f.package = none ∧
      (∃ target g ending,
        p.facts[w]? = some {
          sites := [{ line := 0, target := .static target, recv := none, args := [] }]
          allocations := []
          addressTaken := []
          flows := [] } ∧
        p.functions[target]? = some g ∧ g.WrappedAs f.kind ending ∧ f.key = g.key ++ ending) ∧
      ∀ (i : FuncId) (g : Function), p.functions[i]? = some g → g.key = f.key → i = w := by
  have hp := loadProgram_wrapped h
  obtain ⟨_, target, _, hcalls⟩ := (loadProgram_wrapsOnly h).wrapper w f hf hkind
  have hwraps := hp.wrappers w f target hf hkind hcalls
  obtain ⟨g, ending, hg, hwrapped, hkey⟩ := hwraps.declared
  exact ⟨hwraps.package, ⟨target, g, ending, hcalls, hg, hwrapped, hkey⟩, hp.keys w f hf hkind⟩

/-- A program that asks twice for each kind of wrapper. -/
def asksTwice : Disk where
  top := "/w"
  tree := .dir [("a.go", .file (some (
    "package a\n\ntype T struct \x7b\x7d\n\nfunc (T) Show() \x7b\x7d\n\n" ++
    "func Keep[A any](a A) \x7b\x7d\n\n" ++
    "func use(t T) \x7b\n\tf := t.Show\n\tf = t.Show\n\tf()\n" ++
    "\tT.Show(t)\n\tT.Show(t)\n\tKeep[int](1)\n\tKeep(2)\n\x7d\n")))]

def asksTwiceModule : Module := { path := "example.com/m", root := [] }

def asksTwiceProgram : Program :=
  ((asksTwice.loadProgram .host asksTwiceModule "/w").toOption).getD {}

theorem asksTwice_evaluated :
    (asksTwice.loadProgram .host asksTwiceModule "/w").isOk = true ∧
      asksTwiceProgram.functions.map (fun f => (f.key, f.kind)) =
        [("(example.com/m.T).Show", .method), ("example.com/m.Keep", .function),
          ("example.com/m.use", .function), ("example.com/m.init", .initializer),
          ("(example.com/m.T).Show$bound", .bound), ("(example.com/m.T).Show$thunk", .thunk),
          ("example.com/m.Keep[int]", .instantiation)] := by
  decide +kernel

theorem wrappers_one_step_asksTwice :
    asksTwice.loadProgram .host asksTwiceModule "/w" = .ok asksTwiceProgram ∧
      ∀ w ∈ [4, 5, 6], ∃ f, asksTwiceProgram.functions[w]? = some f ∧ f.kind.isWrapper = true ∧
        f.package = none ∧
        (∃ target g ending, asksTwiceProgram.facts[w]? = some (.calling target) ∧
          asksTwiceProgram.functions[target]? = some g ∧ g.WrappedAs f.kind ending ∧
          f.key = g.key ++ ending) ∧
        ∀ (i : FuncId) (g : Function), asksTwiceProgram.functions[i]? = some g →
          g.key = f.key → i = w := by
  obtain ⟨hloads, hfunctions⟩ := asksTwice_evaluated
  have hload : asksTwice.loadProgram .host asksTwiceModule "/w" = .ok asksTwiceProgram :=
    loadProgram_of_isOk hloads
  refine ⟨hload, fun w hw => ?_⟩
  have hentry : ∃ entry, (asksTwiceProgram.functions.map fun f => (f.key, f.kind))[w]? =
      some entry ∧ entry.2.isWrapper = true := by
    rw [hfunctions]
    simp only [List.mem_cons, List.not_mem_nil, or_false] at hw
    rcases hw with rfl | rfl | rfl
    · exact ⟨_, rfl, rfl⟩
    · exact ⟨_, rfl, rfl⟩
    · exact ⟨_, rfl, rfl⟩
  obtain ⟨_, hfound, hwrapper⟩ := hentry
  rw [List.getElem?_map] at hfound
  obtain ⟨f, hf, rfl⟩ := Option.map_eq_some_iff.mp hfound
  exact ⟨f, hf, hwrapper, wrappers_one_step hload hf hwrapper⟩

end Disk

end CallAtlas
