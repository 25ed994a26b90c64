import CallAtlas.Analysis.Rapid
import CallAtlas.Proofs.Refinement
import CallAtlas.Proofs.Resolve.Parts
import CallAtlas.Proofs.Types.Depth

/-!
# Selection and dispatch

There are two ways to call a method of a declared type. A call on a value of the type selects a
member of it, and a call through an interface looks the name up among the methods of the type. Both
searches go through embedded fields, and they do not see the same: a selection stops at a field and
at a method that an embedded interface asks for, and the methods of a type leave both out.

What a selection passes over offers no method either, so when it ends at a method, the look-up has
come to the same place. The one exception is a method that is declared on an interface, which Go
does not allow: a selection finds it and the look-up never enters its type.
-/

set_option autoImplicit false

namespace CallAtlas.Universe

/-- No interface, and no type that is defined by one, has a method declared on it. -/
def BareInterfaces (u : Universe) : Prop :=
  ∀ t ∈ u.types.zipIdx, u.isInterface t.2 = true → t.1.methods.entries = []

instance (u : Universe) : Decidable u.BareInterfaces :=
  inferInstanceAs (Decidable (∀ t ∈ u.types.zipIdx, u.isInterface t.2 = true →
    t.1.methods.entries = []))

variable {u : Universe} {id : TypeId} {name : String} {func : FuncId} {n : Nat}

/-! ## Types that promote nothing -/

theorem not_struct_of_isInterface (h : u.isInterface id = true) (fields : List Field) :
    u.kind? id ≠ some (.struct fields) := by
  intro hkind
  simp [isInterface, maxDepth, isInterfaceFrom, hkind] at h

theorem interfaceMember_ne_method : u.interfaceMember id name ≠ some (.method func) := by
  unfold interfaceMember
  split <;> simp

/-- Only a struct promotes methods; on any other type a method that is found is its own. -/
theorem declaredMethod_of_memberFrom (hother : ∀ fields, u.kind? id ≠ some (.struct fields))
    (h : u.memberFrom name n id = some (.method func)) :
    u.declaredMethod name id = some (.method func) := by
  cases n with
  | zero => cases h
  | succ n =>
    cases ht : u.types[id]? with
    | none => simp [memberFrom, ht] at h
    | some t =>
      rw [declaredMethod_of_get ht]
      cases hm : (t.methods.get? name).map fun m => Member.method m.func with
      | some own =>
        obtain ⟨m, hget, rfl⟩ := Option.map_eq_some_iff.mp hm
        simpa [memberFrom, ht, hget] using h
      | none =>
        cases hk : t.kind with
        | struct fields => exact absurd (by rw [kind?, ht, Option.map_some, hk]) (hother fields)
        | interface methods embedded =>
          rw [memberFrom_interface ht hk, hm, Option.none_or] at h
          exact absurd h interfaceMember_ne_method
        | defined ty =>
          cases hid : u.idOf ty with
          | none =>
            rw [memberFrom_other ht hk hid, hm] at h
            cases h
          | some inner =>
            rw [memberFrom_defined ht hk hid, hm, Option.none_or] at h
            split at h
            · exact absurd h interfaceMember_ne_method
            · obtain ⟨found, _, hinherited⟩ := Option.bind_eq_some_iff.mp h
              cases found <;> simp [Member.inherited?] at hinherited

theorem BareInterfaces.declaredMethod_eq_none (h : u.BareInterfaces)
    (hid : u.isInterface id = true) : u.declaredMethod name id = none := by
  cases ht : u.types[id]? with
  | none => simp [declaredMethod, ht]
  | some t =>
    have hnone := h (t, id) (List.mem_zipIdx_iff_getElem?.mpr ht) hid
    rw [declaredMethod_of_get ht, Table.get?, hnone]
    rfl

/-- A selection finds no method on an interface. -/
theorem BareInterfaces.isInterface_eq_false (h : u.BareInterfaces)
    (hfound : u.memberFrom name n id = some (.method func)) : u.isInterface id = false := by
  cases hid : u.isInterface id with
  | false => rfl
  | true =>
    have hown := declaredMethod_of_memberFrom (not_struct_of_isInterface hid) hfound
    rw [h.declaredMethod_eq_none hid] at hown
    cases hown

/-! ## The two searches side by side -/

/-- The first hit is the same for another search that leaves some places out, if those that it
visits give it nothing before. -/
theorem findSome?_filter_of_findSome? {α β : Type} {p : α → Bool} {f g : α → Option β}
    {xs : List α} {b : β} (hhit : ∀ x ∈ xs, f x = some b → p x = true ∧ g x = some b)
    (hmiss : ∀ x ∈ xs, f x = none → g x = none) (h : xs.findSome? f = some b) :
    (xs.filter p).findSome? g = some b := by
  induction xs with
  | nil => cases h
  | cons x xs ih =>
    have hrest := ih (fun y hy => hhit y (List.mem_cons_of_mem _ hy))
      (fun y hy => hmiss y (List.mem_cons_of_mem _ hy))
    rw [List.findSome?_cons] at h
    cases hx : f x with
    | some found =>
      rw [hx] at h
      obtain rfl : found = b := Option.some.inj h
      obtain ⟨hp, hg⟩ := hhit x List.mem_cons_self hx
      rw [List.filter_cons_of_pos hp, List.findSome?_cons, hg]
    | none =>
      rw [hx] at h
      by_cases hp : p x = true
      · rw [List.filter_cons_of_pos hp, List.findSome?_cons, hmiss x List.mem_cons_self hx]
        exact hrest h
      · rw [List.filter_cons_of_neg hp]
        exact hrest h

/-- Where a selection finds nothing, there is no method. -/
theorem methodSearch_eq_none_of_memberFrom (h : u.memberFrom name n id = none) :
    (u.methodSearch name).find u n id = none := by
  induction n generalizing id with
  | zero => rfl
  | succ n ih =>
    have hown : u.declaredMethod name id = none := by
      cases hdecl : u.declaredMethod name id with
      | none => rfl
      | some found =>
        rw [memberFrom_of_declaredMethod hdecl] at h
        cases h
    unfold Search.find
    rw [Option.or_eq_none_iff]
    refine ⟨hown, ?_⟩
    rw [List.findSome?_eq_none_iff]
    intro inner hmem
    rw [memberFrom_eq_find, Search.find, Option.or_eq_none_iff, List.findSome?_eq_none_iff] at h
    refine ih ?_
    rw [memberFrom_eq_find]
    exact h.2 inner (List.mem_filter.mpr ⟨(List.mem_filter.mp hmem).1, rfl⟩)

/-- Where a selection ends at a method, the look-up ends at the same one. -/
theorem BareInterfaces.methodSearch_of_memberFrom (hbare : u.BareInterfaces)
    (h : u.memberFrom name n id = some (.method func)) :
    (u.methodSearch name).find u n id = some (.method func) := by
  induction n generalizing id with
  | zero => cases h
  | succ n ih =>
    unfold Search.find
    show (u.declaredMethod name id).or _ = _
    by_cases hstruct : ∃ fields, u.kind? id = some (.struct fields)
    · obtain ⟨fields, hkind⟩ := hstruct
      obtain ⟨t, ht, hk⟩ := exists_of_kind? hkind
      rw [memberFrom_struct ht hk, ← declaredMethod_of_get ht] at h
      cases hown : u.declaredMethod name id with
      | some found =>
        rw [hown] at h
        exact h
      | none =>
        rw [hown, Option.none_or] at h
        rw [Option.none_or, embedded, fieldsOf_struct hkind]
        -- a field would have ended the selection, so it goes on with the embedded types
        cases hfield : fields.find? fun f => f.name == some name with
        | some f => simp [hfield] at h
        | none =>
          rw [hfield, Option.map_none, Option.none_or] at h
          refine findSome?_filter_of_findSome? (fun inner _ hinner => ⟨?_, ih hinner⟩)
            (fun inner _ hinner => methodSearch_eq_none_of_memberFrom hinner) h
          show (!u.isInterface inner) = true
          rw [hbare.isInterface_eq_false hinner]
          rfl
    · rw [declaredMethod_of_memberFrom (not_exists.mp hstruct) h]
      rfl

theorem BareInterfaces.methodOf_of_memberOf (hbare : u.BareInterfaces)
    (h : u.memberOf id name = some (.method func)) : u.methodOf id name = some func :=
  methodOf_eq_some_iff.mpr (hbare.methodSearch_of_memberFrom h)

end CallAtlas.Universe

namespace CallAtlas.Resolve

variable {s : State} {operand : Outline.Expr} {value : Value} {name : String} {func : FuncId}
  {recv : Origin}

/-- A call on a value calls the method that is selected on its type. -/
theorem memberCallee_eq_method_iff :
    ((memberCallee operand value name).run s).1 = .method func recv ↔
      s.program.decls.member value.ty name = some (.method func) ∧ value.origin = recv := by
  unfold memberCallee
  rw [run_get_bind]
  cases s.program.decls.member value.ty name with
  | none => exact iff_of_false (fun h => by cases h) (by simp)
  | some found =>
    cases found with
    | field owner ty => exact iff_of_false (fun h => by cases h) (by simp)
    | interfaceMethod iface => exact iff_of_false (fun h => by cases h) (by simp)
    | method id =>
      constructor
      · intro h
        cases h
        exact ⟨rfl, rfl⟩
      · rintro ⟨h, rfl⟩
        cases h
        rfl

end CallAtlas.Resolve

namespace CallAtlas.Universe

/-- **Main statement**: what a selection finds is what dispatch reaches. If no method is declared
on an interface, a method that is selected on a type is the method of that name of the type. So if
a call on a value calls a method, a call through any interface that the type of the value
implements reaches the same function on that type, and it is among the functions that the call can
reach in the whole program. -/
theorem dispatch_reaches_selection {u : Universe} (hbare : u.BareInterfaces) :
    (∀ (id : TypeId) (name : String) (func : FuncId),
      u.memberOf id name = some (.method func) → u.methodOf id name = some func) ∧
    ∀ (s : Resolve.State) (operand : Outline.Expr) (value : Resolve.Value) (name : String)
      (func : FuncId) (recv : Origin), s.program.decls = u →
      ((Resolve.memberCallee operand value name).run s).1 = .method func recv →
      ∃ id, u.idOf value.ty = some id ∧ u.methodOf id name = some func ∧
        ∀ iface, u.implements id iface = true →
          Rapid.dispatch s.program iface name id = some func ∧
          func ∈ s.program.invokeTargets iface name := by
  refine ⟨fun id name func h => hbare.methodOf_of_memberOf h, ?_⟩
  rintro s operand value name func recv rfl hcallee
  have hselected := (Resolve.memberCallee_eq_method_iff.mp hcallee).1
  obtain ⟨id, hid, hmember⟩ := Option.bind_eq_some_iff.mp hselected
  have hmethod := hbare.methodOf_of_memberOf hmember
  refine ⟨id, hid, hmethod, fun iface himplements => ⟨?_, ?_⟩⟩
  · rw [Rapid.dispatch, if_pos himplements, hmethod]
  · exact Program.mem_invokeTargets himplements hmethod

/-- `Loop` embeds a pointer to itself, an interface, and `Base`, which has the method. -/
def embedsItself : Universe where
  types := [
    { pkg := "m", name := "Base", kind := .struct [], methods := ⟨[("Run", ⟨0, false⟩)]⟩ },
    { pkg := "m", name := "Closer", kind := .interface [⟨"Close", 0, []⟩] [] },
    { pkg := "m", name := "Runner", kind := .interface [⟨"Run", 0, []⟩] [] },
    { pkg := "m", name := "Loop", kind := .struct [
        ⟨none, .pointer (.named "m" "Loop")⟩, ⟨none, .named "m" "Closer"⟩,
          ⟨none, .named "m" "Basis"⟩] },
    { pkg := "m", name := "Again", kind := .defined (.named "m" "Runner") }]
  aliases := ⟨[(("m", "Basis"), .named "m" "Base")]⟩

def embedsItselfState : Resolve.State where
  program := { decls := embedsItself }
  frame := default

theorem dispatch_reaches_selection_embedsItself :
    embedsItself.BareInterfaces ∧
      ((Resolve.memberCallee (.ident "x") { ty := .pointer (.named "m" "Loop") } "Run").run
        embedsItselfState).1 = .method 0 {} ∧
      embedsItself.implements 3 2 = true ∧
      embedsItself.methodOf 3 "Run" = some 0 ∧
      Rapid.dispatch embedsItselfState.program 2 "Run" 3 = some 0 := by
  have hbare : embedsItself.BareInterfaces := by decide +kernel
  have himplements : embedsItself.implements 3 2 = true := by decide +kernel
  have hmember : embedsItself.memberOf 3 "Run" = some (.method 0) := by decide +kernel
  have hloop : embedsItself.idOf (.pointer (.named "m" "Loop")) = some 3 := by decide +kernel
  have hcallee :
      ((Resolve.memberCallee (.ident "x") { ty := .pointer (.named "m" "Loop") } "Run").run
        embedsItselfState).1 = .method 0 {} :=
    Resolve.memberCallee_eq_method_iff.mpr ⟨by decide +kernel, rfl⟩
  obtain ⟨hselection, hcall⟩ := dispatch_reaches_selection hbare
  obtain ⟨id, hid, _, hreach⟩ := hcall embedsItselfState _ _ _ _ _ rfl hcallee
  rw [hloop] at hid
  obtain rfl := Option.some.inj hid
  exact ⟨hbare, hcallee, himplements, hselection 3 "Run" 0 hmember, (hreach 2 himplements).1⟩

end CallAtlas.Universe
