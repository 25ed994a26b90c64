import CallAtlas.Proofs.Program.Ground

/-!
# The functions around a function

A function literal knows the function around it, its parent, and the reader asks its questions about
names outwards along the parents. Nothing in a program forbids parents that go round in a circle,
and then such a search would not end. In a program that has been put together a parent has the
smaller number (`Program.ParentsBefore`), so every search ends, and the functions that a program
lists for one of its functions are all that are around it.

Main statements: `Assembly.parentsBefore_ofPackages`, `Program.ParentsBefore.climbs_chain`.
-/

set_option autoImplicit false

namespace CallAtlas

namespace Program

/-- The function directly around a function. -/
def parent? (p : Program) (id : FuncId) : Option FuncId := (p.functions[id]?).bind Function.parent

/-- The one function is around the other one, directly or in some steps. -/
def Encloses (p : Program) : FuncId → FuncId → Prop :=
  Relation.TransGen fun outer inner => p.parent? inner = some outer

/-- Every function comes behind the function around it. -/
def ParentsBefore (p : Program) : Prop := ∀ id outer, p.parent? id = some outer → outer < id

/-- A question is asked outwards, first of the function with which the search begins, and
the first answer ends the search. The search ends without an answer if it has gone past the
outermost function. There is no bound on its length; a search that goes round in a circle
has no end at all. -/
inductive Climbs {α : Type} (p : Program) (ask : FuncId → Option α) :
    Option FuncId → Option α → Prop
  | past : Climbs p ask none none
  | answered {id : FuncId} {a : α} (h : ask id = some a) : Climbs p ask (some id) (some a)
  | outwards {id : FuncId} {found : Option α} (h : ask id = none)
      (hup : Climbs p ask (p.parent? id) found) : Climbs p ask (some id) found

variable {α : Type} {p : Program} {id outer : FuncId}

theorem lt_of_parent? (h : p.parent? id = some outer) : id < p.functions.length := by
  obtain ⟨f, hf, _⟩ := Option.bind_eq_some_iff.mp h
  exact (List.getElem?_eq_some_iff.mp hf).1

theorem Encloses.exists_parent? (h : p.Encloses outer id) : ∃ q, p.parent? id = some q := by
  cases h with
  | single h => exact ⟨_, h⟩
  | tail _ h => exact ⟨_, h⟩

theorem ParentsBefore.lt_of_encloses (hp : p.ParentsBefore) (h : p.Encloses outer id) :
    outer < id := by
  induction h with
  | single h => exact hp _ _ h
  | tail _ h ih => exact Nat.lt_trans ih (hp _ _ h)

/-- The list of a function and those around it begins with the function. -/
theorem chainFrom_succ (p : Program) (fuel : Nat) (id : FuncId) :
    p.chainFrom (fuel + 1) id = id :: ((p.parent? id).map (p.chainFrom fuel)).getD [] := by
  rw [chainFrom, parent?]
  cases (p.functions[id]?).bind Function.parent <;> rfl

/-- The bound on the length of the list does not matter, if the number of the function is not above
it. -/
theorem ParentsBefore.climbs_chainFrom (hp : p.ParentsBefore) (ask : FuncId → Option α) {fuel : Nat}
    (hfuel : ∀ {outer : FuncId}, p.parent? id = some outer → id ≤ fuel) :
    p.Climbs ask (p.parent? id) ((p.chainFrom (fuel + 1) id).tail.findSome? ask) := by
  induction fuel generalizing id with
  | zero =>
    cases hparent : p.parent? id with
    | none =>
      rw [chainFrom_succ, hparent]
      exact .past
    | some outer =>
      exact absurd (Nat.lt_of_lt_of_le (hp id outer hparent) (hfuel hparent))
        (Nat.not_lt_zero outer)
  | succ fuel ih =>
    rw [chainFrom_succ, List.tail_cons]
    cases hparent : p.parent? id with
    | none => exact .past
    | some outer =>
      have hlt : outer < fuel + 1 := Nat.lt_of_lt_of_le (hp id outer hparent) (hfuel hparent)
      have hle : ∀ {next : FuncId}, p.parent? outer = some next → outer ≤ fuel :=
        fun _ => Nat.le_of_lt_succ hlt
      have hrest := ih hle
      rw [Option.map_some, Option.getD_some, chainFrom_succ, List.findSome?_cons]
      cases hask : ask outer with
      | some a => exact .answered hask
      | none =>
        rw [chainFrom_succ] at hrest
        exact .outwards hask hrest

/-- A search that begins around a function ends, and finds what is first in the list of the
functions around it. -/
theorem ParentsBefore.climbs_tail_chain (hp : p.ParentsBefore) (ask : FuncId → Option α)
    (id : FuncId) : p.Climbs ask (p.parent? id) ((p.chain id).tail.findSome? ask) :=
  hp.climbs_chainFrom ask fun h => Nat.le_of_lt (lt_of_parent? h)

/-- So does a search that begins with the function itself. -/
theorem ParentsBefore.climbs_chain (hp : p.ParentsBefore) (ask : FuncId → Option α) (id : FuncId) :
    p.Climbs ask (some id) ((p.chain id).findSome? ask) := by
  have hrest := hp.climbs_tail_chain ask id
  rw [chain, chainFrom_succ] at hrest ⊢
  rw [List.findSome?_cons]
  cases hask : ask id with
  | some a => exact .answered hask
  | none => exact .outwards hask hrest

end Program

namespace Assembly

/-! ## Programs that have been put together -/

/-- The property of functions is kept when a function with its literals is added behind all
others. -/
def KeptByExpand (P : List Function → Prop) : Prop :=
  ∀ {fs : List Function} (place : Place) (key
    name : String) (kind : FunctionKind) (recvType : Option TypeId) (f : Outline.Function),
    P fs → P (fs ++ expand place fs.length none key name kind recvType f)

variable {P : List Function → Prop}

theorem Registration.Takes.functions {r r' : Registration} {place : Place} {f : Outline.Function}
    (h : Takes r place f r') (hP : KeptByExpand P) (hr : P r.assembly.program.functions) :
    P r'.assembly.program.functions := by
  cases h with
  | nothing => exact hr
  | problem d => exact hr
  | method _ _ _ _ => exact hP place _ _ _ _ f hr
  | init _ _ => exact hP place _ _ _ _ f hr
  | function _ _ _ => exact hP place _ _ _ _ f hr

theorem KeptByExpand.addFile (hP : KeptByExpand P) (packageNames : Table String String)
    (package : String) (f : LoadedFile) {r : Registration} (hr : P r.assembly.program.functions) :
    P (r.addFile packageNames package f).assembly.program.functions := by
  have himports : P (f.outline.imports.foldl (fun r imp => r.checkImport f.path imp)
      r).assembly.program.functions := by
    refine List.foldlRecOn (motive := fun r : Registration => P r.assembly.program.functions)
      _ _ hr ?_
    intro r hr imp _
    unfold Registration.checkImport
    dsimp only
    split
    · exact hr
    · exact hr
  exact List.foldlRecOn (motive := fun r : Registration => P r.assembly.program.functions) _ _
    himports fun r hr g _ => (Registration.takes_addFunction r _ g).functions hP hr

theorem KeptByExpand.addFunctions (hP : KeptByExpand P)
    (packageNames : Table String String) (index : Nat) (pkg : LoadedPackage) {a : Assembly}
    (ha : P a.program.functions) : P (a.addFunctions packageNames index pkg).program.functions := by
  have hfiles := List.foldlRecOn (motive := fun r : Registration => P r.assembly.program.functions)
    pkg.files (Registration.addFile packageNames pkg.importPath) (b := { assembly := a }) ha
    fun r hr f _ => hP.addFile packageNames pkg.importPath f hr
  exact hP _ _ _ _ _ _ hfiles

/-- What holds of no functions and is kept holds of the functions of every program that
is put together. -/
theorem KeptByExpand.ofPackages (hP : KeptByExpand P) (hnil : P []) (module rootPath : String)
    (diagnostics : List Diagnostic) (packages : List LoadedPackage) :
    P (ofPackages module rootPath diagnostics packages).program.functions := by
  have hstart : P (packages.foldl addPackage
      (start module rootPath diagnostics)).program.functions := by
    rw [(foldl_addPackage packages (start module rootPath diagnostics)).2]
    exact hnil
  exact List.foldlRecOn (motive := fun a : Assembly => P a.program.functions) _ _ hstart
    fun a ha pkg _ => hP.addFunctions _ pkg.2 pkg.1 ha

theorem keptByExpand_parentsFirst : KeptByExpand fun fs => ParentsFirst fs.zipIdx :=
  fun place key name kind recvType f h => h.append_expand place key name kind recvType f

/-- Only function literals have a function around them. -/
def ParentsOfLiterals (fs : List Function) : Prop :=
  ∀ f ∈ fs, ∀ q, f.parent = some q → f.kind = .closure

theorem keptByExpand_parentsOfLiterals : KeptByExpand ParentsOfLiterals := by
  intro fs place key name kind recvType f h g hg q hq
  obtain ⟨_, line, receiver, signature, typeParams, body, closures⟩ := f
  rcases List.mem_append.mp hg with hg | hg
  · exact h g hg q hq
  unfold expand at hg
  rcases List.mem_cons.mp hg with rfl | hg
  · cases hq
  · exact kind_of_mem_expandClosures _ _ _ _ _ _ _ hg

section

variable (module rootPath : String) (diagnostics : List Diagnostic) (packages : List LoadedPackage)

/-- **Main statement**: in a program that has been put together every function comes behind the
function around it, whatever is wrong with the files. -/
theorem parentsBefore_ofPackages :
    (ofPackages module rootPath diagnostics packages).program.ParentsBefore := by
  intro id outer h
  obtain ⟨f, hf, hparent⟩ := Option.bind_eq_some_iff.mp h
  have hfirst := keptByExpand_parentsFirst.ofPackages (fun x hx => absurd hx List.not_mem_nil)
    module rootPath diagnostics packages
  exact hfirst (f, id) (List.mem_zipIdx_iff_getElem?.mpr hf) outer hparent

theorem parentsOfLiterals_ofPackages :
    ParentsOfLiterals (ofPackages module rootPath diagnostics packages).program.functions :=
  keptByExpand_parentsOfLiterals.ofPackages (fun _ hf => absurd hf List.not_mem_nil) module
    rootPath diagnostics packages

end

end Assembly

end CallAtlas
