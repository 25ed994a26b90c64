import CallAtlas.Proofs.Distinct
import CallAtlas.Proofs.Program.Assembled
import Mathlib.Data.List.Nodup

/-!
# Initializers are different functions

Every package that has been taken in enters an initializer and the initializers that the user has
written. Functions are numbered in the order in which they are added, so no two packages enter one
initializer, and a package enters every initializer of the user once.

Main statements: `Assembly.initializers_ofPackages`, `Program.Initializers.nodup_inits`.
-/

set_option autoImplicit false

namespace CallAtlas

/-- No package imports a path twice, no two packages have one initializer, and no package calls an
initializer of the user twice. -/
structure Program.Initializers (p : Program) : Prop where
  imports : ∀ q ∈ p.packages, q.imports.Nodup
  init : ∀ (i j : Nat) (q q' : Package) (id : FuncId), p.packages[i]? = some q →
    p.packages[j]? = some q' → q.init = some id → q'.init = some id → i = j
  userInits : ∀ q ∈ p.packages, q.userInits.Nodup

namespace Program

variable {p : Program}

/-- The package with a path is one of the packages and has the path. -/
theorem exists_of_package? {path : String} {q : Package} (h : p.package? path = some q) :
    ∃ i : Nat, p.packages[i]? = some q ∧ q.path = path := by
  obtain ⟨i, hi⟩ := List.mem_iff_getElem?.mp (List.mem_reverse.mp (List.mem_of_find?_eq_some h))
  exact ⟨i, hi, eq_of_beq (List.find?_some h :)⟩

/-- What a package lists has no repetitions, if no package repeats anything in it. -/
theorem nodup_of_package? {α : Type} {list : Package → List α}
    (h : ∀ q ∈ p.packages, (list q).Nodup) (path : String) :
    (((p.package? path).map list).getD []).Nodup := by
  cases hq : p.package? path with
  | none => exact List.nodup_nil
  | some q =>
    obtain ⟨i, hi, _⟩ := exists_of_package? hq
    exact h q (List.mem_of_getElem? hi)

/-- The packages that a package imports have different initializers. -/
theorem Initializers.nodup_inits (h : p.Initializers) (path : String) :
    ((((p.package? path).map Package.imports).getD []).filterMap fun path =>
      (p.package? path).bind Package.init).Nodup := by
  refine List.Nodup.filterMap (fun path path' id hid hid' => ?_) (nodup_of_package? h.imports path)
  obtain ⟨q, hq, hinit⟩ := Option.bind_eq_some_iff.mp hid
  obtain ⟨q', hq', hinit'⟩ := Option.bind_eq_some_iff.mp hid'
  obtain ⟨i, hi, rfl⟩ := exists_of_package? hq
  obtain ⟨j, hj, rfl⟩ := exists_of_package? hq'
  obtain rfl := h.init i j q q' id hi hj hinit hinit'
  rw [Option.some.inj (hi.symm.trans hj)]

end Program

namespace Assembly

/-- What is kept while the functions of a package are taken in behind those of `a`. -/
structure Registration.Behind (a : Assembly) (r : Registration) : Prop where
  assembled : r.Assembled
  packages : r.assembly.program.packages = a.program.packages
  length : a.program.functions.length ≤ r.assembly.program.functions.length
  nodup : r.userInits.Nodup

namespace Registration

variable {a : Assembly} {r r' : Registration}

theorem Takes.behind {place : Place} {f : Outline.Function} (h : Takes r place f r')
    (hr : Behind a r) : Behind a r' := by
  refine ⟨h.assembled hr.assembled, ?_, ?_, ?_⟩
  · cases h <;> exact hr.packages
  · cases h with
    | nothing => exact hr.length
    | problem d => exact hr.length
    | _ => exact Nat.le_trans hr.length (List.prefix_append ..).length_le
  · cases h with
    | init _ _ =>
      refine List.nodup_append.mpr ⟨hr.nodup, List.nodup_singleton _, fun id hid next hnext => ?_⟩
      rw [List.mem_singleton.mp hnext]
      exact Nat.ne_of_lt (hr.assembled.userInits id hid)
    | _ => exact hr.nodup

theorem Behind.addFile (hr : Behind a r) (packageNames : Table String String) (package : String)
    (f : LoadedFile) : Behind a (r.addFile packageNames package f) := by
  have himports : Behind a (f.outline.imports.foldl (fun r imp => r.checkImport f.path imp) r) := by
    refine List.foldlRecOn (motive := Behind a) _ _ hr fun r hr imp _ => ?_
    refine ⟨hr.assembled.checkImport f.path imp, ?_, ?_, ?_⟩ <;> unfold checkImport <;>
      dsimp only <;> split
    · exact hr.packages
    · exact hr.packages
    · exact hr.length
    · exact hr.length
    · exact hr.nodup
    · exact hr.nodup
  have hassembled := himports.assembled
  exact List.foldlRecOn (motive := Behind a) _ _
    ⟨⟨hassembled.program, hassembled.funcs, hassembled.userInits⟩, himports.packages,
      himports.length, himports.nodup⟩
    fun r hr g _ => (takes_addFunction r _ g).behind hr

end Registration

theorem initializers_addFunctions {a : Assembly} (ha : a.program.Assembled)
    (h : a.program.Initializers) (packageNames : Table String String) (index : Nat)
    (pkg : LoadedPackage) : (a.addFunctions packageNames index pkg).program.Initializers := by
  have hstart : Registration.Behind a { assembly := a } :=
    ⟨⟨ha, fun id hid => absurd hid List.not_mem_nil, fun id hid => absurd hid List.not_mem_nil⟩,
      rfl, Nat.le_refl _, List.nodup_nil⟩
  have hfiles := List.foldlRecOn (motive := Registration.Behind a) pkg.files
    (Registration.addFile packageNames pkg.importPath) hstart fun r hr f _ => hr.addFile _ _ f
  generalize hr : pkg.files.foldl (Registration.addFile packageNames pkg.importPath)
    { assembly := a } = r at hfiles
  -- only the package with the number is changed, and its initializer is new
  have hpackages : (a.addFunctions packageNames index pkg).program.packages =
      a.program.packages.modify index fun p =>
        { p with funcs := r.funcs, userInits := r.userInits, init := some r.nextId } := by
    rw [← hfiles.packages, ← hr]
    rfl
  have hentry : ∀ (i : Nat) (q : Package),
      (a.addFunctions packageNames index pkg).program.packages[i]? = some q →
      (index = i ∧ (∃ old ∈ a.program.packages, q.imports = old.imports) ∧
        q.userInits = r.userInits ∧ q.init = some r.nextId) ∨ a.program.packages[i]? = some q := by
    intro i q hq
    rw [hpackages, List.getElem?_modify] at hq
    split at hq
    · obtain ⟨old, hold, rfl⟩ := Option.map_eq_some_iff.mp hq
      exact Or.inl ⟨‹_›, ⟨old, List.mem_of_getElem? hold, rfl⟩, rfl, rfl⟩
    · exact Or.inr (by simpa using hq)
  have hnew : ∀ {i : Nat} {q : Package}, a.program.packages[i]? = some q →
      q.init ≠ some r.nextId := by
    intro i q hq hinit
    have hlt := (ha.packages q (List.mem_of_getElem? hq)).init _ hinit
    exact Nat.lt_irrefl _ (Nat.lt_of_lt_of_le hlt hfiles.length)
  refine ⟨fun q hq => ?_, fun i j q q' id hq hq' hinit hinit' => ?_, fun q hq => ?_⟩
  · obtain ⟨i, hi⟩ := List.mem_iff_getElem?.mp hq
    rcases hentry i q hi with ⟨_, ⟨old, hold, himports⟩, _⟩ | hold
    · rw [himports]
      exact h.imports old hold
    · exact h.imports q (List.mem_of_getElem? hold)
  · rcases hentry i q hq with ⟨rfl, _, _, hid⟩ | hold
    · rcases hentry j q' hq' with ⟨rfl, _⟩ | hold'
      · rfl
      · exact absurd (hinit'.trans (hinit.symm.trans hid)) (hnew hold')
    · rcases hentry j q' hq' with ⟨rfl, _, _, hid'⟩ | hold'
      · exact absurd (hinit.trans (hinit'.symm.trans hid')) (hnew hold)
      · exact h.init i j q q' id hold hold' hinit hinit'
  · obtain ⟨i, hi⟩ := List.mem_iff_getElem?.mp hq
    rcases hentry i q hi with ⟨_, _, huser, _⟩ | hold
    · rw [huser]
      exact hfiles.nodup
    · exact h.userInits q (List.mem_of_getElem? hold)

/-- **Main statement**: in a program that has been put together the initializers are
different functions. -/
theorem initializers_ofPackages (module rootPath : String) (diagnostics : List Diagnostic)
    (packages : List LoadedPackage) :
    (ofPackages module rootPath diagnostics packages).program.Initializers := by
  let Kept (a : Assembly) : Prop := a.program.Assembled ∧ a.program.Initializers
  -- a package is registered without initializers
  let Bare (a : Assembly) : Prop := a.program.Assembled ∧
    ∀ q ∈ a.program.packages, q.imports.Nodup ∧ q.init = none ∧ q.userInits = []
  have hstart : Bare (start module rootPath diagnostics) :=
    ⟨assembled_ofPackages module rootPath diagnostics [], by simp [start]⟩
  have hpackages : Bare (packages.foldl addPackage (start module rootPath diagnostics)) := by
    refine List.foldlRecOn (motive := Bare) _ _ hstart fun a ha pkg _ => ?_
    refine ⟨assembled_addPackage ha.1 pkg, fun q hq => ?_⟩
    rcases List.mem_append.mp hq with hq | hq
    · exact ha.2 q hq
    · rw [List.mem_singleton.mp hq]
      exact ⟨nodup_eraseDups _, rfl, rfl⟩
  have hbare : Kept (packages.foldl addPackage (start module rootPath diagnostics)) := by
    refine ⟨hpackages.1, fun q hq => (hpackages.2 q hq).1, fun i j q q' id hq _ hinit _ => ?_,
      fun q hq => ?_⟩
    · rw [(hpackages.2 q (List.mem_of_getElem? hq)).2.1] at hinit
      cases hinit
    · rw [(hpackages.2 q hq).2.2]
      exact List.nodup_nil
  exact (List.foldlRecOn (motive := Kept) _ _ hbare fun a ha pkg _ =>
    ⟨assembled_addFunctions ha.1 _ pkg.2 pkg.1,
      initializers_addFunctions ha.1 ha.2 _ pkg.2 pkg.1⟩).2

end Assembly

end CallAtlas
