import CallAtlas.Proofs.Outline.Code
import CallAtlas.Proofs.Program.Keys
import CallAtlas.Proofs.Program.Sources

/-!
# Function literals keep their identity

A number in the body of a function stands for a function literal that is written there. On the way
from the text to the program the literal is lowered and numbered, the numbers in variables are
shifted when files are put together, and the list of literals becomes a list of functions. `HasCode`
says which code a function of the program comes from, without numbers, and `StandsFor` what it means
that a number stands for a literal.

Main statement: in a program that loads, the numbers in the body of a function, in their order,
stand for the function literals of its code, in their order, and no number comes twice.
-/

set_option autoImplicit false

namespace CallAtlas

open Outline (Code FuncLiteral Lowered LoweredFrom stmtsNumbers varsNumbers)

/-! ## Initializers -/

/-- The code of the initializer. -/
def SourcePackage.initCode (pkg : SourcePackage) : Code :=
  pkg.files.flatMap (Outline.initCode pkg.context)

/-- The statements that set the variables of these files, one file after another. -/
def initBody (offset : Nat) : List Outline.File → List Outline.Stmt
  | [] => []
  | file :: rest =>
    Assembly.Registration.initStmts offset file.vars ++
      initBody (offset + file.initClosures.length) rest

theorem stmtsNumbers_initStmts (offset : Nat) (vars : List Outline.GlobalVar) :
    stmtsNumbers (Assembly.Registration.initStmts offset vars) =
      (varsNumbers vars).map (· + offset) := by
  induction vars with
  | nil => rfl
  | cons v rest ih =>
    show Outline.exprsNumbers (Outline.shiftAll offset v.values) ++
      stmtsNumbers (Assembly.Registration.initStmts offset rest) = _
    rw [ih, Outline.exprsNumbers_shift, ← List.map_append]
    rfl

theorem lowered_initBody (importPath : String) (names : Table String String)
    (files : List (List Source.Decl)) {code : Code} {closures : List Outline.Function}
    {ns : List Nat}
    (h : Lowered code closures ns) :
    Lowered (code ++ files.flatMap
      (Outline.initCode { package := importPath, packageNames := names }))
      (closures ++ (files.map (Outline.ofDecls importPath names)).flatMap Outline.File.initClosures)
      (ns ++ stmtsNumbers (initBody closures.length
        (files.map (Outline.ofDecls importPath names)))) := by
  induction files generalizing code closures ns with
  | nil => simpa [initBody, stmtsNumbers] using h
  | cons decls rest ih =>
    have hrest := ih (h.append (Outline.lowered_ofDecls decls importPath names))
    simpa [initBody, Outline.stmtsNumbers_append, stmtsNumbers_initStmts] using hrest

theorem SourcePackage.lowered_initializer (pkg : SourcePackage) :
    LoweredFrom pkg.initCode (Assembly.initializer (initBody 0 pkg.outlines)
      (pkg.outlines.flatMap Outline.File.initClosures)) :=
  ⟨_, rfl, lowered_initBody pkg.importPath pkg.names pkg.files Outline.lowered_nil⟩

/-! ## The code of a function -/

/-- The function is the outline, entered in a program. -/
structure Function.Enters (f : Function) (o : Outline.Function) : Prop where
  line : f.line = o.line
  signature : f.signature = o.signature
  receiver : f.receiver = o.receiver
  typeParams : f.typeParams = o.typeParams
  body : f.body = o.body

/-- What the key of a declared function is written from: a method is known by the declared name
of its type, which its receiver may give another name, and an initializer that is written by the
user by a number. -/
inductive Outline.Function.HasRoot (package : String) (o : Outline.Function) : Root → Prop
  | plain (hreceiver : o.receiver = none) (hname : o.name ≠ "init") :
      HasRoot package o (.plain package o.name)
  | numbered (n : Nat) (hreceiver : o.receiver = none) (hname : o.name = "init") :
      HasRoot package o (.numbered package n)
  | method (type : String) {receiver : Outline.Receiver} (hreceiver : o.receiver = some receiver) :
      HasRoot package o (.method receiver.pointer package type o.name)

/-- The function with this number comes from this code: from the body of a function that is declared
in a file, from the variables of all files of a package, or from a function literal in the code of
the function around it. Each is named after what it comes from. -/
inductive HasCode (packages : List SourcePackage) (fs : List Function) : FuncId → Code → Prop
  | declared {pkg : SourcePackage} {decls : List Source.Decl} {c : Outline.Context}
      {d : Source.FuncDecl} {o : Outline.Function} {stmts : List Source.Stmt} {root : Root}
      {id : FuncId} {f : Function} (hpkg : pkg ∈ packages) (hfile : decls ∈ pkg.files)
      (hdecl : (c, .func d) ∈ Outline.inScope pkg.context decls)
      (ho : Outline.declaredFunction? (c, .func d) = some o) (hstmts : d.body = some stmts)
      (hf : fs[id]? = some f) (henters : f.Enters o) (hpackage : f.package = some pkg.importPath)
      (hroot : o.HasRoot pkg.importPath root) (hkey : f.key = root.text)
        (hname : f.name = root.shown) :
      HasCode packages fs id [⟨{ c with typeParams := o.typeParams }, stmts⟩]
  | initializer {pkg : SourcePackage} {id : FuncId} {f : Function} (hpkg : pkg ∈ packages)
      (hf : fs[id]? = some f) (hkind : f.kind = .initializer)
        (hbody : f.body = some (initBody 0 pkg.outlines))
      (hpackage : f.package = some pkg.importPath) (hkey : f.key = s!"{pkg.importPath}.init")
      (hname : f.name = "init") : HasCode packages fs id pkg.initCode
  | literal {id : FuncId} {code : Code} {f : Function} {l : FuncLiteral} {all : Bool} {i : Nat}
      {cid : FuncId} {g : Function} (h : HasCode packages fs id code) (hf : fs[id]? = some f)
      (hl : l ∈ code.literals all) (hcid : f.closures[i]? = some cid) (hg : fs[cid]? = some g)
      (henters : g.Enters l.outline) (hkey : g.key = s!"{f.key}${i + 1}")
      (hname : g.name = s!"{f.name}${i + 1}") : HasCode packages fs cid [⟨l.context, l.body⟩]

/-- The number stands for the literal in the function with the number `id`: the function that it
leads to is what the literal is lowered to, knows the function around it, and is named after it. -/
structure StandsFor (packages : List SourcePackage) (fs : List Function) (id : FuncId)
    (f : Function) (i : Nat) (l : FuncLiteral) : Prop where
  lt : i < f.closures.length
  closure : ∃ cid g, f.closures[i]? = some cid ∧ fs[cid]? = some g ∧ g.Enters l.outline ∧
    g.parent = some id ∧ g.key = s!"{f.key}${i + 1}" ∧ g.name = s!"{f.name}${i + 1}" ∧
    HasCode packages fs cid [⟨l.context, l.body⟩]

/-- The numbers in the body of the function stand for the literals of its code, each for another. -/
def KeepsLiterals (packages : List SourcePackage) (fs : List Function) (id : FuncId)
    (f : Function) : Prop :=
  ∀ body, f.body = some body → ∃ code, HasCode packages fs id code ∧ (stmtsNumbers body).Nodup ∧
    List.Forall₂ (StandsFor packages fs id f) (stmtsNumbers body) (code.literals false)

section Mono

variable {packages : List SourcePackage} {fs fs' : List Function} {id : FuncId}

theorem HasCode.mono {code : Code} (h : HasCode packages fs id code) (hfs : fs <+: fs') :
    HasCode packages fs' id code := by
  induction h with
  | declared hpkg hfile hdecl ho hstmts hf henters hpackage hroot hkey hname =>
    exact .declared hpkg hfile hdecl ho hstmts (getElem?_of_extends hfs hf) henters hpackage
      hroot hkey hname
  | initializer hpkg hf hkind hbody hpackage hkey hname =>
    exact .initializer hpkg (getElem?_of_extends hfs hf) hkind hbody hpackage hkey hname
  | literal h hf hl hcid hg henters hkey hname ih =>
    exact .literal ih (getElem?_of_extends hfs hf) hl hcid (getElem?_of_extends hfs hg)
      henters hkey hname

theorem StandsFor.mono {f : Function} {i : Nat} {l : FuncLiteral}
    (h : StandsFor packages fs id f i l) (hfs : fs <+: fs') : StandsFor packages fs' id f i l := by
  obtain ⟨cid, g, hcid, hg, henters, hparent, hkey, hname, hcode⟩ := h.closure
  exact ⟨h.lt, cid, g, hcid, getElem?_of_extends hfs hg, henters, hparent, hkey, hname,
    hcode.mono hfs⟩

theorem KeepsLiterals.mono {f : Function} (h : KeepsLiterals packages fs id f) (hfs : fs <+: fs') :
    KeepsLiterals packages fs' id f := by
  intro body hbody
  obtain ⟨code, hcode, hnodup, hstands⟩ := h body hbody
  exact ⟨code, hcode.mono hfs, hnodup, hstands.imp fun _ _ hi => hi.mono hfs⟩

end Mono

/-! ## A function with its literals -/

theorem forall₂_and_mem {α β : Type} {R : α → β → Prop} {xs : List α} {ys : List β}
    (h : List.Forall₂ R xs ys) : List.Forall₂ (fun a b => R a b ∧ b ∈ ys) xs ys := by
  induction h with
  | nil => exact .nil
  | cons hab _ ih =>
    exact .cons ⟨hab, List.mem_cons_self⟩ (ih.imp fun _ _ h => ⟨h.1, List.mem_cons_of_mem _ h.2⟩)

namespace Assembly

theorem expand_cons (place : Place) (id : FuncId) (parent : Option FuncId) (key name : String)
    (kind : FunctionKind) (recvType : Option TypeId) (o : Outline.Function) :
    ∃ f, expand place id parent key name kind recvType o =
        f :: (expandClosures place id key name 1 (id + 1) o.closures).2 ∧ f.Enters o ∧
      f.closures = (expandClosures place id key name 1 (id + 1) o.closures).1 ∧
      f.parent = parent ∧ f.key = key ∧ f.name = name ∧ f.kind = kind ∧
        f.package = some place.package := by
  obtain ⟨_, line, receiver, signature, typeParams, body, closures⟩ := o
  exact ⟨_, rfl, ⟨rfl, rfl, rfl, rfl, rfl⟩, rfl, rfl, rfl, rfl, rfl, rfl⟩

/-- The list of numbers and the list of functions agree. -/
theorem getElem?_expandClosures (place : Place) (parent : FuncId) (key name : String)
    (closures : List Outline.Function) (n : Nat) (next : FuncId) {i : Nat} {o : Outline.Function}
    (h : closures[i]? = some o) :
    ∃ k g, (expandClosures place parent key name n next closures).1[i]? = some (next + k) ∧
      (expandClosures place parent key name n next closures).2[k]? = some g ∧ g.Enters o ∧
      g.parent = some parent ∧ g.key = s!"{key}${n + i}" ∧ g.name = s!"{name}${n + i}" := by
  induction closures generalizing n next i with
  | nil => cases h
  | cons closure rest ih =>
    obtain ⟨f, hexpand, henters, _, hparent, hkey, hname, _⟩ :=
      expand_cons place next (some parent) s!"{key}${n}" s!"{name}${n}" .closure none closure
    simp only [expandClosures]
    generalize expand place next (some parent) s!"{key}${n}" s!"{name}${n}" .closure none
      closure = first at hexpand ⊢
    cases i with
    | zero =>
      obtain rfl : closure = o := Option.some.inj h
      exact ⟨0, f, rfl, by rw [hexpand]; rfl, henters, hparent, hkey, hname⟩
    | succ i =>
      obtain ⟨k, g, hid, hg, henters, hparent, hkey, hname⟩ := ih (n + 1) (next + first.length) h
      refine ⟨first.length + k, g, ?_, ?_, henters, hparent, ?_, ?_⟩
      · rw [List.getElem?_cons_succ, hid, Nat.add_assoc]
      · rw [List.getElem?_append_right (Nat.le_add_right ..), Nat.add_sub_cancel_left, hg]
      · rw [hkey, Nat.add_right_comm, Nat.add_assoc]
      · rw [hname, Nat.add_right_comm, Nat.add_assoc]

section Keeps

variable {packages : List SourcePackage} {fs : List Function}

/-- The outline has a body that is lowered from the code of the function, or it has none. -/
def Sourced (packages : List SourcePackage) (fs : List Function) (id : FuncId)
    (o : Outline.Function) : Prop :=
  (o.body = none ∧ o.closures = []) ∨ ∃ code, LoweredFrom code o ∧ HasCode packages fs id code

/-- The numbers in a body lead to the functions behind it. -/
theorem keepsLiterals_head {id : FuncId} {f : Function} {o : Outline.Function}
    (henters : f.Enters o)
    (hclosures : ∀ (i : Nat) l, o.closures[i]? = some (FuncLiteral.outline l) → ∃ cid g,
      f.closures[i]? = some cid ∧ fs[cid]? = some g ∧ g.Enters l.outline ∧ g.parent = some id ∧
      g.key = s!"{f.key}${i + 1}" ∧ g.name = s!"{f.name}${i + 1}")
    (hf : fs[id]? = some f) (hsourced : Sourced packages fs id o) :
    KeepsLiterals packages fs id f := by
  intro body hbody
  rw [henters.body] at hbody
  rcases hsourced with ⟨hnone, _⟩ | ⟨code, ⟨body', hbody', hlowered⟩, hcode⟩
  · rw [hnone] at hbody
    cases hbody
  · obtain rfl : body' = body := Option.some.inj (hbody'.symm.trans hbody)
    refine ⟨code, hcode, hlowered.numbers.nodup, ?_⟩
    apply (forall₂_and_mem hlowered.numbers.outlines).imp
    rintro i l ⟨hi, hl⟩
    obtain ⟨cid, g, hcid, hg, henters, hparent, hkey, hname⟩ := hclosures i l hi
    refine ⟨(List.getElem?_eq_some_iff.mp hcid).1, cid, g, hcid, hg, henters, hparent,
      hkey, hname, ?_⟩
    exact .literal hcode hf hl hcid hg henters hkey hname

mutual

theorem keepsLiterals_expand (place : Place) (id : FuncId) (parent : Option FuncId)
    (key name : String) (kind : FunctionKind) (recvType : Option TypeId) (o : Outline.Function)
    (hfs : ∀ (j : Nat) g, (expand place id parent key name kind recvType o)[j]? = some g →
      fs[id + j]? = some g)
    (hsourced : Sourced packages fs id o) {j : Nat} {g : Function}
    (hg : (expand place id parent key name kind recvType o)[j]? = some g) :
    KeepsLiterals packages fs (id + j) g := by
  obtain ⟨_, line, receiver, signature, typeParams, body, closures⟩ := o
  obtain ⟨f, hexpand, henters, hids, _, rfl, rfl, _⟩ :=
    expand_cons place id parent key name kind recvType ⟨_, line, receiver, signature, typeParams,
      body, closures⟩
  rw [hexpand] at hfs hg
  have hf : fs[id]? = some f := hfs 0 f rfl
  have hinner : ∀ (k : Nat) g,
      (expandClosures place id f.key f.name 1 (id + 1) closures).2[k]? = some g →
      fs[id + 1 + k]? = some g := by
    intro k g hk
    rw [Nat.add_assoc, Nat.add_comm 1 k]
    exact hfs (k + 1) g hk
  cases j with
  | zero =>
    obtain rfl : f = g := Option.some.inj hg
    refine keepsLiterals_head henters ?_ hf hsourced
    intro i l hl
    obtain ⟨k, g, hid, hk, henters, hparent, hkey, hname⟩ :=
      getElem?_expandClosures place id f.key f.name closures 1 (id + 1) hl
    rw [hids, Nat.add_comm i 1]
    exact ⟨id + 1 + k, g, hid, hinner k g hk, henters, hparent, hkey, hname⟩
  | succ j =>
    rw [← Nat.add_assoc, Nat.add_right_comm]
    refine keepsLiterals_expandClosures place id f.key f.name 1 (id + 1) closures hinner ?_ hg
    intro i o ho cid hcid
    rcases hsourced with ⟨_, hnone⟩ | ⟨code, ⟨_, _, hlowered⟩, hcode⟩
    · rw [show closures = [] from hnone] at ho
      cases ho
    · obtain ⟨l, hl, rfl⟩ := List.mem_map.mp (hlowered.all.mem_iff.mp (List.mem_of_getElem? ho))
      obtain ⟨k, g, hid, hk, henters, _, hkey, hname⟩ :=
        getElem?_expandClosures place id f.key f.name closures 1 (id + 1) ho
      obtain rfl : id + 1 + k = cid := Option.some.inj (hid.symm.trans hcid)
      rw [Nat.add_comm 1 i] at hkey hname
      exact Or.inr ⟨_, l.loweredFrom_outline,
        .literal hcode hf hl (hids ▸ hid) (hinner k g hk) henters hkey hname⟩

theorem keepsLiterals_expandClosures (place : Place) (parent : FuncId) (key name : String) (n : Nat)
    (next : FuncId) (closures : List Outline.Function)
    (hfs : ∀ (j : Nat) g, (expandClosures place parent key name n next closures).2[j]? = some g →
      fs[next + j]? = some g)
    (hsourced : ∀ (i : Nat) o, closures[i]? = some o →
      ∀ cid, (expandClosures place parent key name n next closures).1[i]? = some cid →
        Sourced packages fs cid o) {j : Nat} {g : Function}
    (hg : (expandClosures place parent key name n next closures).2[j]? = some g) :
    KeepsLiterals packages fs (next + j) g := by
  cases closures with
  | nil => cases hg
  | cons closure rest =>
    simp only [expandClosures] at hfs hsourced hg
    by_cases hj : j < (expand place next (some parent) s!"{key}${n}" s!"{name}${n}"
      .closure none closure).length
    · rw [List.getElem?_append_left hj] at hg
      refine keepsLiterals_expand place next _ _ _ _ _ closure ?_
        (hsourced 0 closure rfl next rfl) hg
      intro k g hk
      exact hfs k g (getElem?_of_extends (List.prefix_append _ _) hk)
    · rw [List.getElem?_append_right (Nat.le_of_not_lt hj)] at hg
      have hrest := keepsLiterals_expandClosures place parent key name (n + 1) _ rest ?_ ?_ hg
      · rwa [Nat.add_assoc, Nat.add_sub_cancel' (Nat.le_of_not_lt hj)] at hrest
      · intro k g hk
        rw [Nat.add_assoc]
        exact hfs _ g (by rw [List.getElem?_append_right (Nat.le_add_right ..),
          Nat.add_sub_cancel_left, hk])
      · intro i o ho cid hcid
        exact hsourced (i + 1) o ho cid hcid

end

/-- All functions keep their literals. -/
def Keeps (packages : List SourcePackage) (fs : List Function) : Prop :=
  ∀ (id : FuncId) (f : Function), fs[id]? = some f → KeepsLiterals packages fs id f

theorem Keeps.append (h : Keeps packages fs) (place : Place) (key name : String)
    (kind : FunctionKind) (recvType : Option TypeId) {o : Outline.Function}
    (hsourced : Sourced packages (fs ++ expand place fs.length none key name kind recvType o)
      fs.length o) :
    Keeps packages (fs ++ expand place fs.length none key name kind recvType o) := by
  intro id f hf
  by_cases hid : id < fs.length
  · rw [List.getElem?_append_left hid] at hf
    exact (h id f hf).mono (List.prefix_append _ _)
  · rw [List.getElem?_append_right (Nat.le_of_not_lt hid)] at hf
    have hkeeps := keepsLiterals_expand place fs.length none key name kind recvType o ?_ hsourced hf
    · rwa [Nat.add_sub_cancel' (Nat.le_of_not_lt hid)] at hkeeps
    · intro j g hg
      rw [List.getElem?_append_right (Nat.le_add_right ..), Nat.add_sub_cancel_left, hg]

/-- A declared function that is added comes from its declaration. -/
theorem sourced_declared {pkg : SourcePackage} (hpkg : pkg ∈ packages) {decls : List Source.Decl}
    (hfile : decls ∈ pkg.files) {x : Outline.Context × Source.Decl}
    (hx : x ∈ Outline.inScope pkg.context decls) {o : Outline.Function}
    (ho : Outline.declaredFunction? x = some o) (place : Place)
    (hplace : place.package = pkg.importPath)
    {root : Root} (hroot : o.HasRoot place.package root) (kind : FunctionKind)
    (recvType : Option TypeId) :
    Sourced packages (fs ++ expand place fs.length none root.text root.shown kind recvType o)
      fs.length o := by
  obtain ⟨c, d⟩ := x
  obtain ⟨d, receiver, rfl, rfl⟩ := Outline.declaredFunction?_eq_some ho
  cases hbody : d.body with
  | none => exact Or.inl (Outline.functionOf_of_none c receiver hbody)
  | some stmts =>
    obtain ⟨f, hexpand, henters, _, _, hkey, hname, _, hpackage⟩ :=
      expand_cons place fs.length none root.text root.shown kind recvType
      (Outline.functionOf c d receiver)
    refine Or.inr ⟨_, Outline.loweredFrom_functionOf c receiver hbody, ?_⟩
    refine .declared hpkg hfile hx ho hbody ?_ henters (hplace ▸ hpackage)
      (hplace ▸ hroot) hkey hname
    simp [hexpand]

/-- The initializer of a package comes from the variables of its files. -/
theorem sourced_initializer {pkg : SourcePackage} (hpkg : pkg ∈ packages) (place : Place)
    (hplace : place.package = pkg.importPath) {o : Outline.Function}
    (ho : o = initializer (initBody 0 pkg.outlines)
      (pkg.outlines.flatMap Outline.File.initClosures)) :
    Sourced packages (fs ++ expand place fs.length none s!"{pkg.importPath}.init" "init"
      .initializer none o) fs.length o := by
  obtain ⟨f, hexpand, henters, _, _, hkey, hname, hkind, hpackage⟩ :=
    expand_cons place fs.length none s!"{pkg.importPath}.init" "init" .initializer none o
  subst ho
  refine Or.inr ⟨_, pkg.lowered_initializer, ?_⟩
  exact .initializer hpkg (by simp [hexpand]) hkind henters.body (hplace ▸ hpackage) hkey hname

end Keeps

/-! ## The files of a package -/

/-- A function of this kind may stand outside of all others: a declared function, a method, or an
initializer, which has no type parameters. -/
def Outermost (kind : FunctionKind) (o : Outline.Function) : Prop :=
  kind = .function ∨ kind = .method ∨ kind = .initializer ∧ o.typeParams = []

/-- The property is kept when a function with its literals is added that comes from the packages. -/
def Kept (packages : List SourcePackage) (P : List Function → Prop) : Prop :=
  ∀ {fs : List Function} (place : Place) (key name : String) (kind : FunctionKind)
    (recvType : Option TypeId) {o : Outline.Function}, P fs → Outermost kind o →
      Sourced packages (fs ++ expand place fs.length none key name kind recvType o) fs.length o →
        P (fs ++ expand place fs.length none key name kind recvType o)

theorem kept_keeps (packages : List SourcePackage) : Kept packages (Keeps packages) :=
  fun place key name kind recvType _ h _ hsourced => h.append place key name kind recvType hsourced

namespace Registration

variable {packages : List SourcePackage} {P : List Function → Prop} {r r' : Registration}
  {stmts : List Outline.Stmt} {closures : List Outline.Function}

/-- The functions so far have the property, and the initializer has these statements and
literals. -/
structure Follows (P : List Function → Prop) (stmts : List Outline.Stmt)
    (closures : List Outline.Function) (r : Registration) : Prop where
  functions : P r.assembly.program.functions
  stmts : r.stmts = stmts
  closures : r.closures = closures

theorem Takes.follows (hP : Kept packages P) {place : Place} {o : Outline.Function}
    (h : Takes r place o r') (hr : r.Follows P stmts closures)
    (hsourced : ∀ {root : Root}, o.HasRoot place.package root → ∀ kind recvType,
      Sourced packages (r.assembly.program.functions ++
        expand place r.nextId none root.text root.shown kind recvType o) r.nextId o) :
    r'.Follows P stmts closures := by
  cases h with
  | nothing => exact hr
  | problem d => exact ⟨hr.functions, hr.stmts, hr.closures⟩
  | @method receiver id t hreceiver _ _ _ =>
    exact ⟨hP place _ _ .method (some id) hr.functions (by simp [Outermost])
      (hsourced (.method t.name hreceiver) ..), hr.stmts, hr.closures⟩
  | init hreceiver hname =>
    exact ⟨hP place _ _ .function none hr.functions (by simp [Outermost])
      (hsourced (.numbered (r.userInits.length + 1) hreceiver hname) ..), hr.stmts, hr.closures⟩
  | function hreceiver hname _ =>
    exact ⟨hP place _ _ .function none hr.functions (by simp [Outermost])
      (hsourced (.plain hreceiver hname) ..), hr.stmts, hr.closures⟩

theorem Follows.checkImport (h : r.Follows P stmts closures) (file : String)
    (imp : Outline.Import) : (r.checkImport file imp).Follows P stmts closures := by
  unfold Registration.checkImport
  dsimp only
  split
  · exact ⟨h.functions, h.stmts, h.closures⟩
  · exact h

theorem Follows.addFile (hP : Kept packages P) (h : r.Follows P stmts closures)
    (packageNames : Table String String)
    {pkg : SourcePackage} (hpkg : pkg ∈ packages) {decls : List Source.Decl}
    (hfile : decls ∈ pkg.files)
    {f : LoadedFile} (hf : f.outline = Outline.ofDecls pkg.importPath pkg.names decls) :
    (r.addFile packageNames pkg.importPath f).Follows P
      (stmts ++ initStmts closures.length f.outline.vars) (closures ++ f.outline.initClosures) := by
  have himports : (f.outline.imports.foldl (fun r imp => r.checkImport f.path imp) r).Follows P
      stmts closures :=
    List.foldlRecOn (motive := fun r : Registration => r.Follows P stmts closures) _ _ h
      fun r hr imp _ => hr.checkImport f.path imp
  refine List.foldlRecOn (motive := fun r : Registration => r.Follows P
    (stmts ++ initStmts closures.length f.outline.vars) (closures ++ f.outline.initClosures))
    _ _ ?_ ?_
  · exact ⟨himports.functions, by rw [himports.stmts, himports.closures], by rw [himports.closures]⟩
  · intro r hr o ho
    rw [hf, Outline.functions_ofDecls] at ho
    obtain ⟨x, hx, hxo⟩ := List.mem_filterMap.mp ho
    exact (takes_addFunction r _ o).follows hP hr fun hroot kind recvType =>
      sourced_declared hpkg hfile hx hxo _ rfl hroot kind recvType

theorem Follows.foldl_addFile (hP : Kept packages P) (packageNames : Table String String)
    {pkg : SourcePackage} (hpkg : pkg ∈ packages) {loaded : List LoadedFile}
    {files : List (List Source.Decl)} (hfiles : files ⊆ pkg.files)
    (hloaded : loaded.map LoadedFile.outline = files.map (Outline.ofDecls pkg.importPath pkg.names))
    (h : r.Follows P stmts closures) :
    (loaded.foldl (Registration.addFile packageNames pkg.importPath) r).Follows P
      (stmts ++ initBody closures.length (files.map (Outline.ofDecls pkg.importPath pkg.names)))
      (closures ++ (files.map (Outline.ofDecls pkg.importPath pkg.names)).flatMap
        Outline.File.initClosures) := by
  induction files generalizing loaded r stmts closures with
  | nil =>
    obtain rfl : loaded = [] := List.map_eq_nil_iff.mp hloaded
    simpa [initBody] using h
  | cons decls rest ih =>
    obtain ⟨f, more, rfl, hf, hmore⟩ := List.map_eq_cons_iff.mp hloaded
    have hrest := ih (List.Subset.trans (List.subset_cons_self ..) hfiles) hmore
      (h.addFile hP packageNames hpkg (hfiles List.mem_cons_self) hf)
    simpa [initBody, hf] using hrest

end Registration

/-! ## All packages -/

theorem Kept.addFunctions {packages : List SourcePackage} {P : List Function → Prop}
    (hP : Kept packages P) {a : Assembly} (h : P a.program.functions)
    (packageNames : Table String String) (index : Nat)
    {loaded : LoadedPackage} {pkg : SourcePackage} (hpkg : pkg ∈ packages)
    (hloaded : loaded.From pkg) :
    P (a.addFunctions packageNames index loaded).program.functions := by
  have hstart : Registration.Follows P [] [] { assembly := a } := ⟨h, rfl, rfl⟩
  have hfiles := hstart.foldl_addFile hP packageNames hpkg (List.Subset.refl _) hloaded.outlines
  unfold Assembly.addFunctions Registration.ofFiles
  rw [hloaded.importPath]
  generalize loaded.files.foldl (Registration.addFile packageNames pkg.importPath)
    { assembly := a } = r at hfiles ⊢
  unfold Registration.close
  rw [hfiles.stmts, hfiles.closures]
  exact hP _ _ _ _ _ hfiles.functions (by simp [Outermost, initializer])
    (sourced_initializer hpkg _ rfl rfl)

/-- What is kept holds of the functions of packages that have been put together. -/
theorem PutTogether.functions {packages : List SourcePackage} {P : List Function → Prop}
    {a : Assembly} (h : a.PutTogether packages) (hP : Kept packages P) (hnil : P []) :
    P a.program.functions := by
  obtain ⟨module, rootPath, diagnostics, loaded, hloaded, rfl⟩ := h
  have hstart : P (loaded.foldl addPackage
      (start module rootPath diagnostics)).program.functions := by
    rw [(foldl_addPackage loaded (start module rootPath diagnostics)).2]
    exact hnil
  refine List.foldlRecOn (motive := fun a : Assembly => P a.program.functions) _ _ hstart ?_
  intro a ha l hl
  obtain ⟨pkg, hpkg, hfrom⟩ := hloaded l.1 (List.fst_mem_of_mem_zipIdx hl)
  exact hP.addFunctions ha _ l.2 hpkg hfrom

theorem PutTogether.keeps {packages : List SourcePackage} {a : Assembly}
    (h : a.PutTogether packages) : Keeps packages a.program.functions :=
  h.functions (kept_keeps packages) fun _ _ hf => nomatch hf

end Assembly

/-! ## Programs that load -/

namespace Disk

/-- **Function literals keep their identity.** In a program that loads, the numbers in the body of a
function stand for the function literals of its code, one after another: each is the number of a
closure of the function, and that closure is what the literal is lowered to, has the function as its
parent and a key made from the key of the function and the number. No number comes twice. This goes
for functions, methods and literals, whose code is a body in a file, and for initializers, whose
code is all variables of a package. -/
theorem literals_keep_identity {d : Disk} {platform : Build.Platform} {module : Module}
    {start : String} {p : Program} (h : d.loadProgram platform module start = .ok p) :
    ∃ root dirs packages, d.locate start = .ok root ∧
      dirs = PackageDir.scan d.tree module platform root ∧
      List.Forall₂ (SourcePackage.Parses (PackageDir.namesByPath dirs)) dirs packages ∧
      ∀ (id : FuncId) (f : Function) (body : List Outline.Stmt), p.functions[id]? = some f →
        f.body = some body → ∃ code, HasCode packages p.functions id code ∧
          (stmtsNumbers body).Nodup ∧ List.Forall₂ (StandsFor packages p.functions id f)
            (stmtsNumbers body) (code.literals false) := by
  obtain ⟨root, dirs, packages, a, hroot, hdirs, hparses, hassembly, rfl⟩ := loadProgram_sources h
  refine ⟨root, dirs, packages, hroot, hdirs, hparses, ?_⟩
  intro id f body hf hbody
  obtain ⟨hfunctions, hbare⟩ := Resolve.run_bare a.program
  rcases hbare id f hf with hf | hnone
  · exact (hassembly.keeps id f hf).mono hfunctions body hbody
  · rw [hnone] at hbody
    cases hbody

/-- `main` calls a literal that has a literal inside, with a literal as its argument, and a variable
is set to a literal. -/
def nestedLiterals : Disk where
  top := "/w"
  tree := .dir [("main.go", .file (some (
    "package main\n\nvar _ = func() \x7b\x7d\n\nfunc main() \x7b\n" ++
    "\tfunc(g func()) \x7b\n\t\tfunc() \x7b\x7d()\n\t\x7d(func() \x7b\x7d)\n\x7d\n")))]

def nestedLiteralsModule : Module := { path := "example.com/m", root := [] }

def nestedLiteralsProgram : Program :=
  ((nestedLiterals.loadProgram .host nestedLiteralsModule "/w").toOption).getD {}

theorem nestedLiterals_evaluated :
    (nestedLiterals.loadProgram .host nestedLiteralsModule "/w").isOk = true ∧
      nestedLiteralsProgram.functions.map Function.key =
        ["example.com/m.main", "example.com/m.main$1", "example.com/m.main$2",
          "example.com/m.main$2$1", "example.com/m.init", "example.com/m.init$1"] ∧
      ((nestedLiteralsProgram.functions[0]?).bind fun f => f.body.map stmtsNumbers) = some [1, 0] ∧
      ((nestedLiteralsProgram.functions[4]?).bind fun f => f.body.map stmtsNumbers) = some [0] := by
  decide +kernel

/-- The literal that is called has the number 1 and its argument the number 0, because arguments
are lowered first. -/
theorem literals_keep_identity_nestedLiterals :
    nestedLiterals.loadProgram .host nestedLiteralsModule "/w" = .ok nestedLiteralsProgram ∧
      ∃ packages f g code code', nestedLiteralsProgram.functions[0]? = some f ∧
        nestedLiteralsProgram.functions[4]? = some g ∧
        HasCode packages nestedLiteralsProgram.functions 0 code ∧
        List.Forall₂ (StandsFor packages nestedLiteralsProgram.functions 0 f) [1, 0]
          (code.literals false) ∧
        HasCode packages nestedLiteralsProgram.functions 4 code' ∧
        List.Forall₂ (StandsFor packages nestedLiteralsProgram.functions 4 g) [0]
          (code'.literals false) := by
  obtain ⟨hok, _, hmain, hinit⟩ := nestedLiterals_evaluated
  have hloads := loadProgram_of_isOk hok
  obtain ⟨_, _, packages, _, _, _, hkeeps⟩ := literals_keep_identity hloads
  obtain ⟨f, hf, hnumbers⟩ := Option.bind_eq_some_iff.mp hmain
  obtain ⟨g, hg, hnumbers'⟩ := Option.bind_eq_some_iff.mp hinit
  obtain ⟨body, hbody, hones⟩ := Option.map_eq_some_iff.mp hnumbers
  obtain ⟨body', hbody', hzero⟩ := Option.map_eq_some_iff.mp hnumbers'
  obtain ⟨code, hcode, _, hstands⟩ := hkeeps 0 f body hf hbody
  obtain ⟨code', hcode', _, hstands'⟩ := hkeeps 4 g body' hg hbody'
  rw [hones] at hstands
  rw [hzero] at hstands'
  exact ⟨hloads, packages, f, g, code, code', hf, hg, hcode, hstands, hcode', hstands'⟩

end Disk

end CallAtlas
