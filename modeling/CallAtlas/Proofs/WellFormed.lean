import CallAtlas.Analysis.Hierarchy
import CallAtlas.Proofs.Table

/-!
# Programs whose calls lead somewhere

Functions are numbers, and a graph is built from numbers alone. Three places name a function that a
call can reach: a static site, the methods declared on a type, and the table in which a package
keeps its `main` function. A function value needs no fourth clause, because `acceptsArgs` is false
of a number that no function has.
-/

set_option autoImplicit false

namespace CallAtlas

/-- Every function that a call can reach exists. -/
structure Program.CalleesExist (p : Program) : Prop where
  static : ∀ facts ∈ p.facts, ∀ site ∈ facts.sites, ∀ callee ∈ namedTargets site,
    callee < p.functions.length
  method : ∀ t ∈ p.decls.types, ∀ m ∈ t.methods.values, m.func < p.functions.length
  main : ∀ f ∈ p.mainFunctions, f < p.functions.length

instance (p : Program) : Decidable p.CalleesExist :=
  decidable_of_iff
    ((∀ facts ∈ p.facts, ∀ site ∈ facts.sites, ∀ callee ∈ Program.namedTargets site,
        callee < p.functions.length) ∧
      (∀ t ∈ p.decls.types, ∀ m ∈ t.methods.values, m.func < p.functions.length) ∧
      ∀ f ∈ p.mainFunctions, f < p.functions.length)
    ⟨fun h => ⟨h.1, h.2.1, h.2.2⟩, fun h => ⟨h.static, h.method, h.main⟩⟩

/-- The number is entered in a table of the program as that of a function: as a method of a type, as
a function or an initializer of a package, or as a literal in a function. -/
inductive Program.Lists (p : Program) : FuncId → Prop
  | method {t : NamedType} {m : Method} (ht : t ∈ p.decls.types) (hm : m ∈ t.methods.values) :
      Lists p m.func
  | packageFunc {q : Package} {id : FuncId} (hq : q ∈ p.packages) (hid : id ∈ q.funcs.values) :
      Lists p id
  | init {q : Package} {id : FuncId} (hq : q ∈ p.packages) (hid : q.init = some id) : Lists p id
  | userInit {q : Package} {id : FuncId} (hq : q ∈ p.packages) (hid : id ∈ q.userInits) : Lists p id
  | literal {f : Function} {id : FuncId} (hf : f ∈ p.functions) (hid : id ∈ f.closures) : Lists p id

theorem Program.Lists.mono {p q : Program} {id : FuncId} (h : p.Lists id)
    (hdecls : q.decls = p.decls) (hpackages : q.packages = p.packages)
    (hfunctions : p.functions ⊆ q.functions) : q.Lists id := by
  cases h with
  | method ht hm => exact .method (hdecls ▸ ht) hm
  | packageFunc hq hid => exact .packageFunc (hpackages ▸ hq) hid
  | init hq hid => exact .init (hpackages ▸ hq) hid
  | userInit hq hid => exact .userInit (hpackages ▸ hq) hid
  | literal hf hid => exact .literal (hfunctions hf) hid

/-! ## Functions by their keys -/

namespace Program

theorem lastIdx?_eq_none_iff {α : Type} {q : α → Bool} {xs : List α} :
    lastIdx? q xs = none ↔ ∀ x ∈ xs, q x = false := by
  simp [lastIdx?, List.findIdx?_eq_none_iff]

theorem of_lastIdx?_eq_some {α : Type} {q : α → Bool} {xs : List α} {i : Nat}
    (h : lastIdx? q xs = some i) : ∃ x, xs[i]? = some x ∧ q x = true := by
  obtain ⟨j, hj, rfl⟩ := Option.map_eq_some_iff.mp h
  obtain ⟨hlt, hq, _⟩ := List.findIdx?_eq_some_iff_getElem.mp hj
  rw [List.length_reverse] at hlt
  refine ⟨xs[xs.length - 1 - j], List.getElem?_eq_getElem (by omega), ?_⟩
  rwa [List.getElem_reverse] at hq

variable {p : Program}

theorem funcByKey?_eq_none_iff {key : String} :
    p.funcByKey? key = none ↔ key ∉ p.functions.map Function.key := by
  rw [funcByKey?, lastIdx?_eq_none_iff, List.mem_map]
  simp

theorem lt_of_funcByKey? {key : String} {id : FuncId} (h : p.funcByKey? key = some id) :
    id < p.functions.length := by
  obtain ⟨f, hf, _⟩ := of_lastIdx?_eq_some h
  exact (List.getElem?_eq_some_iff.mp hf).1

end Program

/-- What holds of all facts and of none holds of those of any number. -/
theorem Program.factsOf_of_forall {p : Program} {P : Facts → Prop} (h : ∀ facts ∈ p.facts, P facts)
    (hempty : P {}) (func : FuncId) : P (p.factsOf func) := by
  unfold Program.factsOf
  cases hf : p.facts[func]? with
  | none => exact hempty
  | some facts => exact h facts (List.mem_of_getElem? hf)

theorem Program.factsOf_mem {p : Program} {func : FuncId} {site : CallSite}
    (h : site ∈ (p.factsOf func).sites) : p.factsOf func ∈ p.facts := by
  unfold Program.factsOf at h ⊢
  cases hf : p.facts[func]? with
  | none => rw [hf] at h; exact absurd h (by simp)
  | some facts => exact List.mem_of_getElem? hf

theorem Program.CalleesExist.static_lt {p : Program} (hp : p.CalleesExist) {func callee : FuncId}
    {site : CallSite} (hs : site ∈ (p.factsOf func).sites) (ht : site.target = .static callee) :
    callee < p.functions.length := by
  refine hp.static _ (Program.factsOf_mem hs) site hs callee ?_
  rw [Program.namedTargets, ht]
  exact List.mem_singleton_self callee

theorem Program.acceptsArgs_lt {p : Program} {count : Nat} {func : FuncId}
    (h : p.acceptsArgs count func = true) : func < p.functions.length := by
  unfold Program.acceptsArgs at h
  split at h
  · rename_i f hf
    exact (List.getElem?_eq_some_iff.mp hf).1
  · exact absurd h (by simp)

/-- The type that has a field, or the interface that asks for a method. -/
def Member.owner? : Member → Option TypeId
  | .field owner _ => some owner
  | .method _ => none
  | .interfaceMethod iface => some iface

namespace Universe

variable {u : Universe}

/-- The number is that of a method of some type. -/
def HasMethod (u : Universe) (func : FuncId) : Prop :=
  ∃ t ∈ u.types, ∃ m ∈ t.methods.values, m.func = func

/-- A method of a type, promoted or not, is declared on some type. -/
theorem exists_method_of_mem_methodEntriesFrom {name : String} {func : FuncId} :
    ∀ {fuel : Nat} {id : TypeId}, (name, func) ∈ u.methodEntriesFrom fuel id →
      u.HasMethod func := by
  intro fuel
  induction fuel with
  | zero => intro id h; exact absurd h (by simp [methodEntriesFrom])
  | succ fuel ih =>
    intro id h
    cases ht : u.types[id]? with
    | none => simp [methodEntriesFrom, ht] at h
    | some t =>
      have hown : (name, func) ∈ t.methods.entries.map (fun e => (e.1, e.2.func)) →
          u.HasMethod func := by
        intro hm
        obtain ⟨e, he, heq⟩ := List.mem_map.mp hm
        exact ⟨t, List.mem_of_getElem? ht, e.2, List.mem_map.mpr ⟨e, he, rfl⟩,
          (Prod.mk.inj heq).2⟩
      simp only [methodEntriesFrom, ht] at h
      split at h
      · rcases List.mem_append.mp h with h | h
        · exact hown h
        · obtain ⟨e, _, he⟩ := List.mem_flatMap.mp h
          exact ih he
      · exact hown h

theorem exists_method_of_methodOf {id : TypeId} {name : String} {func : FuncId}
    (h : u.methodOf id name = some func) : u.HasMethod func := by
  obtain ⟨before, after, heq, _⟩ := List.lookup_eq_some_iff.mp h
  have hmem : (name, func) ∈ u.methodEntries id := by
    rw [heq]
    exact List.mem_append_right _ List.mem_cons_self
  exact exists_method_of_mem_methodEntriesFrom hmem

theorem exists_method_of_memberFrom {name : String} {func : FuncId} {fuel : Nat} {id : TypeId}
    (h : u.memberFrom name fuel id = some (.method func)) : u.HasMethod func := by
  induction fuel generalizing id with
  | zero => simp [memberFrom] at h
  | succ fuel ih =>
    unfold memberFrom at h
    split at h
    · simp at h
    · rename_i t ht
      split at h
      · rename_i m hm
        have hfunc : m.func = func := by simpa using h
        exact ⟨t, List.mem_of_getElem? ht, m,
          List.mem_map.mpr ⟨(name, m), Table.mem_entries_of_get? hm, rfl⟩, hfunc⟩
      · split at h
        · simp [interfaceMember] at h
        · split at h
          · simp at h
          · obtain ⟨inner, _, hinner⟩ := List.exists_of_findSome?_eq_some h
            exact ih hinner
        · split at h
          · simp at h
          · split at h
            · simp [interfaceMember] at h
            · split at h <;> simp at h

/-! ## Types that exist -/

theorem lt_of_lookupFrom {fuel : Nat} {pkg name : String} {id : TypeId}
    (h : u.lookupFrom fuel pkg name = some id) : id < u.types.length := by
  induction fuel generalizing pkg name with
  | zero => simp [lookupFrom] at h
  | succ fuel ih =>
    unfold lookupFrom at h
    split at h
    · rename_i found hfound
      obtain rfl : found = id := Option.some.inj h
      exact (List.findIdx?_eq_some_iff_getElem.mp hfound).1
    · split at h
      · exact ih h
      · cases h

theorem lt_of_lookup {pkg name : String} {id : TypeId} (h : u.lookup pkg name = some id) :
    id < u.types.length := lt_of_lookupFrom h

theorem lt_of_idOf {ty : Ty} {id : TypeId} (h : u.idOf ty = some id) : id < u.types.length := by
  unfold idOf at h
  split at h
  · exact lt_of_lookup h
  · cases h

theorem lt_of_interfaceMember {id owner : TypeId} {name : String} {found : Member}
    (hid : id < u.types.length) (h : u.interfaceMember id name = some found)
    (howner : found.owner? = some owner) : owner < u.types.length := by
  unfold interfaceMember at h
  split at h
  · obtain rfl := Option.some.inj h
    obtain rfl := Option.some.inj howner
    exact hid
  · cases h

theorem lt_of_memberFrom {name : String} {fuel : Nat} {id owner : TypeId} {found : Member}
    (h : u.memberFrom name fuel id = some found) (howner : found.owner? = some owner) :
    owner < u.types.length := by
  induction fuel generalizing id found with
  | zero => simp [memberFrom] at h
  | succ fuel ih =>
    unfold memberFrom at h
    split at h
    · cases h
    · rename_i t ht
      have hid := (List.getElem?_eq_some_iff.mp ht).1
      split at h
      · obtain rfl := Option.some.inj h
        cases howner
      · split at h
        · exact lt_of_interfaceMember hid h howner
        · split at h
          · obtain rfl := Option.some.inj h
            obtain rfl := Option.some.inj howner
            exact hid
          · obtain ⟨inner, _, hinner⟩ := List.exists_of_findSome?_eq_some h
            exact ih hinner howner
        · split at h
          · cases h
          · split at h
            · exact lt_of_interfaceMember hid h howner
            · split at h
              · rename_i hinner
                obtain rfl := Option.some.inj h
                exact ih hinner howner
              · cases h

theorem lt_of_member {ty : Ty} {name : String} {found : Member} {owner : TypeId}
    (h : u.member ty name = some found) (howner : found.owner? = some owner) :
    owner < u.types.length := by
  obtain ⟨id, _, hmember⟩ := Option.bind_eq_some_iff.mp h
  exact lt_of_memberFrom hmember howner

/-- An interface that asks for a method is declared. -/
theorem lt_of_mem_interfaceMethods {id : TypeId} {name : String}
    (h : name ∈ u.interfaceMethods id) : id < u.types.length := by
  rcases Nat.lt_or_ge id u.types.length with hlt | hge
  · exact hlt
  · simp [interfaceMethods, interfaceMethodsFrom, kind?, List.getElem?_eq_none hge] at h

theorem of_interfaceMember {id iface : TypeId} {name : String}
    (h : u.interfaceMember id name = some (.interfaceMethod iface)) :
    name ∈ u.interfaceMethods iface := by
  unfold interfaceMember at h
  split at h
  · rename_i hasks
    obtain rfl : id = iface := Member.interfaceMethod.inj (Option.some.inj h)
    exact List.contains_iff_mem.mp hasks
  · cases h

/-- A method is selected on an interface only if the interface asks for it. -/
theorem mem_interfaceMethods_of_memberFrom {name : String} {fuel : Nat} {id iface : TypeId}
    (h : u.memberFrom name fuel id = some (.interfaceMethod iface)) :
    name ∈ u.interfaceMethods iface := by
  induction fuel generalizing id with
  | zero => simp [memberFrom] at h
  | succ fuel ih =>
    unfold memberFrom at h
    split at h
    · cases h
    · split at h
      · cases h
      · split at h
        · exact of_interfaceMember h
        · split at h
          · cases h
          · obtain ⟨inner, _, hinner⟩ := List.exists_of_findSome?_eq_some h
            exact ih hinner
        · split at h
          · cases h
          · split at h
            · exact of_interfaceMember h
            · split at h <;> cases h

theorem mem_interfaceMethods_of_member {ty : Ty} {name : String} {iface : TypeId}
    (h : u.member ty name = some (.interfaceMethod iface)) : name ∈ u.interfaceMethods iface := by
  obtain ⟨id, _, hmember⟩ := Option.bind_eq_some_iff.mp h
  exact mem_interfaceMethods_of_memberFrom hmember

/-- A type that has a method is declared. -/
theorem lt_of_methodOf {id : TypeId} {name : String} {func : FuncId}
    (h : u.methodOf id name = some func) : id < u.types.length := by
  rcases Nat.lt_or_ge id u.types.length with hlt | hge
  · exact hlt
  · simp [methodOf, methodEntries, methodEntriesFrom, List.getElem?_eq_none hge] at h

end Universe

end CallAtlas
