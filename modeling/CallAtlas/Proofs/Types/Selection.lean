import CallAtlas.Program.Types
import Mathlib.Logic.Relation

/-!
# What Go lets a program select

The searches in `Program/Types` follow aliases, definitions and embedded fields to a fixed depth.
Here the same questions are answered by the rules of the language, to any depth and without an
order: which declared type a name denotes, which type a defined type has underneath, what an
interface asks for, and which names can be selected on a type.

A type has a name if it declares a method of that name. Everything else it has by its underlying
type: the fields of a struct, an embedded field under the name of its type, whatever can be
selected on an embedded field, and the methods that an interface asks for. A type that is defined
by another one shares its underlying type, and not the methods that the other one declares. That
two embedded fields can offer one name at the same depth, which makes it ambiguous, is left out:
the name is there.
-/

set_option autoImplicit false

namespace CallAtlas

/-- The name of an embedded field, which is that of its type. -/
def Ty.embeddedName? (ty : Ty) : Option String :=
  match ty.deref with
  | .named _ name => some name
  | .basic name => some name
  | .interface => some "any"
  | _ => none

namespace Universe

/-! ## Names and definitions -/

/-- A name of a package denotes a declared type, through any number of aliases. -/
inductive Denotes (u : Universe) : String → String → TypeId → Prop
  | declared {pkg name : String} {id : TypeId} (h : u.declared? pkg name = some id) :
      Denotes u pkg name id
  | renamed {pkg name pkg' name' : String} {id : TypeId} (hnone : u.declared? pkg name = none)
      (halias : u.aliases.get? (pkg, name) = some (.named pkg' name'))
        (h : Denotes u pkg' name' id) :
      Denotes u pkg name id

/-- The type, or what it points to, is a name that denotes a declared type. -/
def Stands (u : Universe) (ty : Ty) (id : TypeId) : Prop :=
  ∃ pkg name, ty.deref = .named pkg name ∧ u.Denotes pkg name id

/-- The type is defined by a name that denotes the other one. -/
def DefinedBy (u : Universe) (id inner : TypeId) : Prop :=
  ∃ pkg name, u.kind? id = some (.defined (.named pkg name)) ∧ u.Denotes pkg name inner

/-- The type is the other one, or defined by it in some steps. -/
abbrev Underlying (u : Universe) : TypeId → TypeId → Prop := Relation.ReflTransGen u.DefinedBy

/-- The type is a struct with this field, or is defined by one. -/
def HasField (u : Universe) (id : TypeId) (f : Field) : Prop :=
  ∃ base fields, u.Underlying id base ∧ u.kind? base = some (.struct fields) ∧ f ∈ fields

/-- The type is an interface with these methods and embedded types, or is defined by one. -/
def HasSpec (u : Universe) (id : TypeId) (methods : List InterfaceMethod) (embedded : List Ty) :
    Prop :=
  ∃ base, u.Underlying id base ∧ u.kind? base = some (.interface methods embedded)

/-! ## Selection -/

/-- An interface asks for a method of this name, itself or through one that it embeds. -/
inductive Asks (u : Universe) (name : String) : TypeId → Prop
  | own {id : TypeId} {methods : List InterfaceMethod} {embedded : List Ty} {m : InterfaceMethod}
      (h : u.HasSpec id methods embedded) (hm : m ∈ methods) (hname : m.name = name) :
      Asks u name id
  | inherited {id inner : TypeId} {methods : List InterfaceMethod} {embedded : List Ty} {ty : Ty}
      (h : u.HasSpec id methods embedded) (hty : ty ∈ embedded) (hinner : u.Stands ty inner)
      (hasks : Asks u name inner) : Asks u name id

/-- The name can be selected on the type. -/
inductive Selectable (u : Universe) (name : String) : TypeId → Prop
  | method {id : TypeId} {t : NamedType} {m : Method} (ht : u.types[id]? = some t)
      (hm : t.methods.get? name = some m) : Selectable u name id
  | field {id : TypeId} {f : Field} (hf : u.HasField id f) (hname : f.name = some name) :
      Selectable u name id
  | embedded {id : TypeId} {f : Field} (hf : u.HasField id f) (hnone : f.name = none)
      (hname : f.ty.embeddedName? = some name) : Selectable u name id
  | promoted {id inner : TypeId} {f : Field} (hf : u.HasField id f) (hnone : f.name = none)
      (hinner : u.Stands f.ty inner) (h : Selectable u name inner) : Selectable u name id
  | asked {id : TypeId} (h : u.Asks name id) : Selectable u name id

/-- What can be selected on the one type can be selected on the other, which has a field of it. -/
def Promotes (u : Universe) (id inner : TypeId) : Prop :=
  ∃ f, u.HasField id f ∧ f.name = none ∧ u.Stands f.ty inner

variable {u : Universe} {name : String} {id inner other : TypeId}

/-! ## A name denotes one type -/

theorem Denotes.unique {pkg name : String} (h : u.Denotes pkg name id)
    (h' : u.Denotes pkg name other) : id = other := by
  induction h with
  | declared h =>
    cases h' with
    | declared h' => exact Option.some.inj (h.symm.trans h')
    | renamed hnone halias h' => simp [h] at hnone
  | renamed hnone halias h ih =>
    cases h' with
    | declared h' => simp [h'] at hnone
    | renamed hnone' halias' h' =>
      rw [halias] at halias'
      obtain ⟨rfl, rfl⟩ := Ty.named.inj (Option.some.inj halias')
      exact ih h'

theorem denotes_of_lookupFrom {fuel : Nat} {pkg name : String}
    (h : u.lookupFrom fuel pkg name = some id) : u.Denotes pkg name id := by
  induction fuel generalizing pkg name with
  | zero => simp [lookupFrom] at h
  | succ fuel ih =>
    unfold lookupFrom at h
    cases hd : u.declared? pkg name with
    | some found =>
      simp only [hd, Option.some.injEq] at h
      exact h ▸ .declared hd
    | none =>
      simp only [hd] at h
      split at h
      · rename_i halias
        exact .renamed hd halias (ih h)
      · simp at h

theorem denotes_of_lookup {pkg name : String} (h : u.lookup pkg name = some id) :
    u.Denotes pkg name id :=
  denotes_of_lookupFrom h

theorem stands_of_idOf {ty : Ty} (h : u.idOf ty = some id) : u.Stands ty id := by
  unfold idOf at h
  split at h
  · rename_i pkg name hty
    exact ⟨pkg, name, hty, denotes_of_lookup h⟩
  · simp at h

theorem Stands.unique {ty : Ty} (h : u.Stands ty id) (h' : u.Stands ty other) : id = other := by
  obtain ⟨pkg, name, hty, hid⟩ := h
  obtain ⟨pkg', name', hty', hother⟩ := h'
  obtain ⟨rfl, rfl⟩ := Ty.named.inj (hty.symm.trans hty')
  exact hid.unique hother

theorem DefinedBy.unique (h : u.DefinedBy id inner) (h' : u.DefinedBy id other) :
    inner = other := by
  obtain ⟨pkg, name, hkind, hinner⟩ := h
  obtain ⟨pkg', name', hkind', hother⟩ := h'
  rw [hkind, Option.some.injEq, TypeKind.defined.injEq, Ty.named.injEq] at hkind'
  obtain ⟨rfl, rfl⟩ := hkind'
  exact hinner.unique hother

/-! ## The underlying type is shared -/

/-- A type that is no other name for a declared type is its own underlying type. -/
theorem Underlying.eq_of_kind {base : TypeId} (h : u.Underlying id base)
    (hkind : ∀ pkg name, u.kind? id ≠ some (.defined (.named pkg name))) : base = id := by
  rcases Relation.ReflTransGen.cases_head h with rfl | ⟨inner, hdefined, _⟩
  · rfl
  · obtain ⟨pkg, name, hname, _⟩ := hdefined
    exact absurd hname (hkind pkg name)

/-- A type that is defined by another one has its underlying types through that one. -/
theorem Underlying.tail_of_definedBy {base : TypeId} (h : u.Underlying id base)
    (hdefined : u.DefinedBy id inner)
    (hbase : ∀ pkg name, u.kind? base ≠ some (.defined (.named pkg name))) :
    u.Underlying inner base := by
  rcases Relation.ReflTransGen.cases_head h with rfl | ⟨next, hnext, hrest⟩
  · obtain ⟨pkg, name, hname, _⟩ := hdefined
    exact absurd hname (hbase pkg name)
  · rw [hdefined.unique hnext]
    exact hrest

theorem DefinedBy.hasField_iff (h : u.DefinedBy id inner) {f : Field} :
    u.HasField id f ↔ u.HasField inner f := by
  constructor
  · rintro ⟨base, fields, hunder, hkind, hf⟩
    exact ⟨base, fields, hunder.tail_of_definedBy h (by simp [hkind]), hkind, hf⟩
  · rintro ⟨base, fields, hunder, hkind, hf⟩
    exact ⟨base, fields, .head h hunder, hkind, hf⟩

theorem DefinedBy.hasSpec_iff (h : u.DefinedBy id inner) {methods : List InterfaceMethod}
    {embedded : List Ty} : u.HasSpec id methods embedded ↔ u.HasSpec inner methods embedded := by
  constructor
  · rintro ⟨base, hunder, hkind⟩
    exact ⟨base, hunder.tail_of_definedBy h (by simp [hkind]), hkind⟩
  · rintro ⟨base, hunder, hkind⟩
    exact ⟨base, .head h hunder, hkind⟩

theorem DefinedBy.asks_iff (h : u.DefinedBy id inner) : u.Asks name id ↔ u.Asks name inner := by
  constructor
  · intro hasks
    cases hasks with
    | own hspec hm hname => exact .own (h.hasSpec_iff.mp hspec) hm hname
    | inherited hspec hty hinner hasks => exact .inherited (h.hasSpec_iff.mp hspec) hty hinner hasks
  · intro hasks
    cases hasks with
    | own hspec hm hname => exact .own (h.hasSpec_iff.mpr hspec) hm hname
    | inherited hspec hty hinner hasks =>
      exact .inherited (h.hasSpec_iff.mpr hspec) hty hinner hasks

/-- What a type does not declare itself it shares with the types that are defined by it. -/
theorem Selectable.outward (h : u.Selectable name inner) (hdefined : u.DefinedBy id inner)
    (hnone : ∀ t, u.types[inner]? = some t → t.methods.get? name = none) :
    u.Selectable name id := by
  cases h with
  | method ht hm => simp [hnone _ ht] at hm
  | field hf hname => exact .field (hdefined.hasField_iff.mpr hf) hname
  | embedded hf hnone hname => exact .embedded (hdefined.hasField_iff.mpr hf) hnone hname
  | promoted hf hnone hinner h => exact .promoted (hdefined.hasField_iff.mpr hf) hnone hinner h
  | asked h => exact .asked (hdefined.asks_iff.mpr h)

/-- What a defined type does not declare itself it has from the type that it is defined by. -/
theorem Selectable.inward (h : u.Selectable name id) (hdefined : u.DefinedBy id inner)
    (hnone : ∀ t, u.types[id]? = some t → t.methods.get? name = none) :
    u.Selectable name inner := by
  cases h with
  | method ht hm => simp [hnone _ ht] at hm
  | field hf hname => exact .field (hdefined.hasField_iff.mp hf) hname
  | embedded hf hnone hname => exact .embedded (hdefined.hasField_iff.mp hf) hnone hname
  | promoted hf hnone hinner h => exact .promoted (hdefined.hasField_iff.mp hf) hnone hinner h
  | asked h => exact .asked (hdefined.asks_iff.mp h)

theorem Selectable.of_promotes (h : Relation.ReflTransGen u.Promotes id inner)
    (hinner : u.Selectable name inner) : u.Selectable name id := by
  induction h using Relation.ReflTransGen.head_induction_on with
  | refl => exact hinner
  | head hstep _ ih =>
    obtain ⟨f, hf, hnone, hty⟩ := hstep
    exact .promoted hf hnone hty ih

end Universe

end CallAtlas
