import CallAtlas.Proofs.Types.Selection

/-!
# Closed types

A type is closed to some depth if every type that it embeds or is defined by is known, and closed to
one less. To that depth the searches see all there is: a deeper search for a member finds nothing
else, and the searches through interfaces agree with what the interface is and what it asks for.

What is found on a closed type can be selected (`Closed.selectable`). The converse fails, and
`Proofs/Types/Missing` says where.
-/

set_option autoImplicit false

namespace CallAtlas

/-- What a defined type takes from the type that it is defined by: the fields. -/
def Member.inherited? : Member → Option Member
  | .field owner ty => some (.field owner ty)
  | .method _ => none
  | .interfaceMethod _ => none

namespace Universe

/-- Everything that can be selected on the type is known, to a depth. -/
inductive Closed (u : Universe) : Nat → TypeId → Prop
  | struct {n : Nat} {id : TypeId} {fields : List Field}
      (hkind : u.kind? id = some (.struct fields)) (hknown : ∀ f ∈ fields, f.name = none → ∃ inner,
        u.idOf f.ty = some inner)
      (hinner : ∀ f ∈ fields, f.name = none → ∀ inner, u.idOf f.ty = some inner →
        Closed u n inner) :
      Closed u (n + 1) id
  | interface {n : Nat} {id : TypeId} {methods : List InterfaceMethod} {embedded : List Ty}
      (hkind : u.kind? id = some (.interface methods embedded))
      (hknown : ∀ ty ∈ embedded, ∃ inner, u.idOf ty = some inner)
      (hinner : ∀ ty ∈ embedded, ∀ inner, u.idOf ty = some inner → Closed u n inner) :
      Closed u (n + 1) id
  | defined {n : Nat} {id inner : TypeId} {ty : Ty} (hkind : u.kind? id = some (.defined ty))
      (hdefined : u.DefinedBy id inner) (hid : u.idOf ty = some inner) (hinner : Closed u n inner) :
      Closed u (n + 1) id
  | other {n : Nat} {id : TypeId} {ty : Ty} (hkind : u.kind? id = some (.defined ty))
      (hid : u.idOf ty = none) (hty : ∀ pkg name, ty ≠ .named pkg name) : Closed u (n + 1) id

variable {u : Universe} {name : String} {id inner : TypeId} {n k : Nat}

theorem closed_of_isClosedFrom (h : u.isClosedFrom n id = true) : u.Closed n id := by
  induction n generalizing id with
  | zero => simp [isClosedFrom] at h
  | succ n ih =>
    unfold isClosedFrom at h
    dsimp only at h
    cases hkind : u.kind? id with
    | none => simp [hkind] at h
    | some kind =>
      cases kind with
      | struct fields =>
        simp only [hkind, List.all_eq_true, List.mem_filter] at h
        refine .struct hkind (fun f hf hnone => ?_) (fun f hf hnone inner hid => ih ?_)
        · have hclosed := h f ⟨hf, by simp [hnone]⟩
          cases hid : u.idOf f.ty with
          | none => simp [hid] at hclosed
          | some inner => exact ⟨inner, rfl⟩
        · simpa [hid] using h f ⟨hf, by simp [hnone]⟩
      | interface methods embedded =>
        simp only [hkind, List.all_eq_true] at h
        refine .interface hkind (fun ty hty => ?_) (fun ty hty inner hid => ih ?_)
        · have hclosed := h ty hty
          cases hid : u.idOf ty with
          | none => simp [hid] at hclosed
          | some inner => exact ⟨inner, rfl⟩
        · simpa [hid] using h ty hty
      | defined ty =>
        cases ty with
        | named pkg name =>
          cases hid : u.idOf (.named pkg name) with
          | none => simp [hkind, hid] at h
          | some inner =>
            have hclosed : u.isClosedFrom n inner = true := by simpa [hkind, hid] using h
            exact .defined hkind ⟨pkg, name, hkind, denotes_of_lookup hid⟩ hid (ih hclosed)
        | pointer ty => simp [hkind] at h
        | param name => simp [hkind] at h
        | unknown => simp [hkind] at h
        | slice ty => exact .other hkind rfl (by simp)
        | map ty => exact .other hkind rfl (by simp)
        | chan ty => exact .other hkind rfl (by simp)
        | func params results => exact .other hkind rfl (by simp)
        | interface => exact .other hkind rfl (by simp)
        | basic name => exact .other hkind rfl (by simp)

theorem Closed.add (h : u.Closed n id) (k : Nat) : u.Closed (k + n) id := by
  induction h with
  | struct hkind hknown _ ih => exact .struct hkind hknown ih
  | interface hkind hknown _ ih => exact .interface hkind hknown ih
  | defined hkind hdefined hid _ ih => exact .defined hkind hdefined hid ih
  | other hkind hid hty => exact .other hkind hid hty

theorem Closed.mono (h : u.Closed n id) (hle : n ≤ k) : u.Closed k id := by
  obtain ⟨m, rfl⟩ := Nat.exists_eq_add_of_le' hle
  exact h.add m

/-! ## What a closed type is -/

section Kinds

variable {kind : TypeKind} {methods : List InterfaceMethod} {embedded : List Ty} {f : Field}

theorem HasSpec.kind_eq (h : u.HasSpec id methods embedded) (hkind : u.kind? id = some kind)
    (hnamed : ∀ pkg name, kind ≠ .defined (.named pkg name)) :
    kind = .interface methods embedded := by
  obtain ⟨base, hunder, hbase⟩ := h
  rw [hunder.eq_of_kind (by simpa [hkind] using hnamed), hkind] at hbase
  exact Option.some.inj hbase

theorem HasField.kind_eq (h : u.HasField id f) (hkind : u.kind? id = some kind)
    (hnamed : ∀ pkg name, kind ≠ .defined (.named pkg name)) :
    ∃ fields, kind = .struct fields ∧ f ∈ fields := by
  obtain ⟨base, fields, hunder, hbase, hf⟩ := h
  rw [hunder.eq_of_kind (by simpa [hkind] using hnamed), hkind] at hbase
  exact ⟨fields, Option.some.inj hbase, hf⟩

theorem HasField.mem_of_kind? {fields : List Field} (h : u.HasField id f)
    (hkind : u.kind? id = some (.struct fields)) : f ∈ fields := by
  obtain ⟨_, hfields, hf⟩ := h.kind_eq hkind (by simp)
  exact TypeKind.struct.inj hfields ▸ hf

/-- No type is both a struct and an interface. -/
theorem HasField.not_hasSpec (h : u.HasField id f) : ¬ u.HasSpec id methods embedded := by
  obtain ⟨base, fields, hunder, hkind, hf⟩ := h
  intro hspec
  induction hunder using Relation.ReflTransGen.head_induction_on with
  | refl => nomatch hspec.kind_eq hkind (by simp)
  | head hdefined _ ih => exact ih (hdefined.hasSpec_iff.mp hspec)

end Kinds

theorem Asks.hasSpec (h : u.Asks name id) : ∃ methods embedded, u.HasSpec id methods embedded := by
  cases h with
  | own hspec _ _ => exact ⟨_, _, hspec⟩
  | inherited hspec _ _ _ => exact ⟨_, _, hspec⟩

/-- Whatever a closed type embeds, itself or by its definition, is known and closed. -/
theorem Closed.of_hasField {f : Field} (h : u.Closed (n + 1) id) (hf : u.HasField id f)
    (hnone : f.name = none) : ∃ inner, u.idOf f.ty = some inner ∧ u.Closed n inner := by
  -- A definition passes the question on to a type one level down, so the induction is
  -- for every depth.
  generalize hm : n + 1 = m at h
  induction h generalizing n with
  | @struct n' id fields hkind hknown hinner _ =>
    obtain rfl : n = n' := Nat.succ.inj hm
    have hmem := hf.mem_of_kind? hkind
    obtain ⟨inner, hid⟩ := hknown f hmem hnone
    exact ⟨inner, hid, hinner f hmem hnone inner hid⟩
  | interface hkind _ _ _ => exact absurd ⟨_, .refl, hkind⟩ hf.not_hasSpec
  | @defined n' id inner ty hkind hdefined hid hinner ih =>
    obtain rfl : n = n' := Nat.succ.inj hm
    cases n with
    | zero => nomatch hinner
    | succ n =>
      obtain ⟨x, hx, hclosed⟩ := ih (hdefined.hasField_iff.mp hf) rfl
      exact ⟨x, hx, hclosed.mono (Nat.le_succ n)⟩
  | other hkind _ hty =>
    obtain ⟨fields, hfields, _⟩ := hf.kind_eq hkind (by simp [hty])
    nomatch hfields

theorem Closed.of_promotes (h : u.Closed (n + 1) id) (hp : u.Promotes id inner) :
    u.Closed n inner := by
  obtain ⟨f, hf, hnone, hstands⟩ := hp
  obtain ⟨inner', hid, hclosed⟩ := h.of_hasField hf hnone
  rw [hstands.unique (stands_of_idOf hid)]
  exact hclosed

/-! ## The searches through interfaces -/

theorem Closed.isInterfaceFrom_iff (h : u.Closed n id) :
    u.isInterfaceFrom n id = true ↔ ∃ methods embedded, u.HasSpec id methods embedded := by
  induction h with
  | struct hkind _ _ _ =>
    refine iff_of_false (by simp [isInterfaceFrom, hkind]) ?_
    rintro ⟨_, _, hspec⟩
    nomatch hspec.kind_eq hkind (by simp)
  | interface hkind _ _ _ =>
    exact iff_of_true (by simp [isInterfaceFrom, hkind]) ⟨_, _, _, .refl, hkind⟩
  | defined hkind hdefined hid _ ih =>
    have hnamed := hdefined
    obtain ⟨pkg, name, hnamed, _⟩ := hnamed
    rw [hkind, Option.some.injEq, TypeKind.defined.injEq] at hnamed
    subst hnamed
    have hlookup : u.lookup pkg name = some _ := hid
    simp only [isInterfaceFrom, hkind, hlookup, ih, hdefined.hasSpec_iff]
  | @other n id ty hkind _ hty =>
    refine iff_of_false ?_ ?_
    · unfold isInterfaceFrom
      rw [hkind]
      cases ty with
      | named pkg name => exact absurd rfl (hty pkg name)
      | _ => simp
    · rintro ⟨_, _, hspec⟩
      nomatch hspec.kind_eq hkind (by simp [hty])

/-- The methods collected from a closed type are those that it asks for. -/
theorem Closed.mem_interfaceMethodsFrom_iff (h : u.Closed n id) :
    name ∈ u.interfaceMethodsFrom n id ↔ u.Asks name id := by
  induction h with
  | struct hkind _ _ _ =>
    refine iff_of_false (by simp [interfaceMethodsFrom, hkind]) fun hasks => ?_
    obtain ⟨_, _, hspec⟩ := hasks.hasSpec
    nomatch hspec.kind_eq hkind (by simp)
  | @interface n id methods embedded hkind hknown _ ih =>
    have hspec : u.HasSpec id methods embedded := ⟨id, .refl, hkind⟩
    simp only [interfaceMethodsFrom, hkind, List.mem_append, List.mem_map, List.mem_flatMap,
      List.mem_filterMap]
    constructor
    · rintro (⟨m, hm, hname⟩ | ⟨inner, ⟨ty, hty, hid⟩, hmem⟩)
      · exact .own hspec hm hname
      · exact .inherited hspec hty (stands_of_idOf hid) ((ih ty hty inner hid).mp hmem)
    · intro hasks
      cases hasks with
      | own hspec' hm hname =>
        obtain ⟨rfl, rfl⟩ := TypeKind.interface.inj (hspec'.kind_eq hkind (by simp))
        exact Or.inl ⟨_, hm, hname⟩
      | inherited hspec' hty hstands hasks =>
        obtain ⟨rfl, rfl⟩ := TypeKind.interface.inj (hspec'.kind_eq hkind (by simp))
        obtain ⟨inner, hid⟩ := hknown _ hty
        obtain rfl := hstands.unique (stands_of_idOf hid)
        exact Or.inr ⟨_, ⟨_, hty, hid⟩, (ih _ hty _ hid).mpr hasks⟩
  | defined hkind hdefined hid _ ih =>
    simp only [interfaceMethodsFrom, hkind, hid, ih, hdefined.asks_iff]
  | other hkind hid hty =>
    refine iff_of_false (by simp [interfaceMethodsFrom, hkind, hid]) fun hasks => ?_
    obtain ⟨_, _, hspec⟩ := hasks.hasSpec
    nomatch hspec.kind_eq hkind (by simp [hty])

theorem Closed.isSome_interfaceMember_iff (h : u.Closed n id) (hle : n ≤ maxDepth + 1) :
    (u.interfaceMember id name).isSome ↔ u.Asks name id := by
  rw [← (h.mono hle).mem_interfaceMethodsFrom_iff]
  simp [interfaceMember, interfaceMethods]

/-! ## The search for a member -/

section Search

variable {t : NamedType} (ht : u.types[id]? = some t)
include ht

theorem memberFrom_struct {fields : List Field} (hk : t.kind = .struct fields) (n : Nat) :
    u.memberFrom name (n + 1) id =
      ((t.methods.get? name).map fun m => Member.method m.func).or
        (((fields.find? fun f => f.name == some name).map fun f => Member.field id f.ty).or
          ((u.embeddedIds fields).findSome? (u.memberFrom name n))) := by
  simp only [memberFrom, ht, hk]
  cases t.methods.get? name <;> cases fields.find? fun f => f.name == some name <;> rfl

theorem memberFrom_interface {methods : List InterfaceMethod} {embedded : List Ty}
    (hk : t.kind = .interface methods embedded) (n : Nat) :
    u.memberFrom name (n + 1) id =
      ((t.methods.get? name).map fun m => Member.method m.func).or (u.interfaceMember id name) := by
  simp only [memberFrom, ht, hk]
  cases t.methods.get? name <;> rfl

theorem memberFrom_defined {ty : Ty} (hk : t.kind = .defined ty) (hid : u.idOf ty = some inner)
    (n : Nat) :
    u.memberFrom name (n + 1) id =
      ((t.methods.get? name).map fun m => Member.method m.func).or
        (if u.isInterface inner then u.interfaceMember id name
          else (u.memberFrom name n inner).bind Member.inherited?) := by
  simp only [memberFrom, ht, hk, hid]
  cases t.methods.get? name with
  | some m => rfl
  | none => rcases u.memberFrom name n inner with _ | (⟨owner, ty⟩ | func | iface) <;> rfl

theorem memberFrom_other {ty : Ty} (hk : t.kind = .defined ty) (hid : u.idOf ty = none) (n : Nat) :
    u.memberFrom name (n + 1) id = (t.methods.get? name).map fun m => Member.method m.func := by
  simp only [memberFrom, ht, hk, hid]
  cases t.methods.get? name <;> rfl

end Search

theorem exists_of_kind? {kind : TypeKind} (h : u.kind? id = some kind) :
    ∃ t, u.types[id]? = some t ∧ t.kind = kind :=
  Option.map_eq_some_iff.mp h

theorem mem_embeddedIds {fields : List Field} :
    inner ∈ u.embeddedIds fields ↔ ∃ f ∈ fields, f.name = none ∧ u.idOf f.ty = some inner := by
  simp [embeddedIds, and_assoc]

theorem findSome?_congr {α β : Type} {f g : α → Option β} {xs : List α} (h : ∀ x ∈ xs, f x = g x) :
    xs.findSome? f = xs.findSome? g := by
  induction xs with
  | nil => rfl
  | cons x rest ih =>
    rw [List.findSome?_cons, List.findSome?_cons, h x List.mem_cons_self,
      ih fun y hy => h y (List.mem_cons_of_mem _ hy)]

/-- A search that goes deeper than the type is closed finds nothing else. -/
theorem Closed.memberFrom_add (h : u.Closed n id) (k : Nat) :
    u.memberFrom name (k + n) id = u.memberFrom name n id := by
  induction h with
  | @struct n id fields hkind _ _ ih =>
    obtain ⟨t, ht, hk⟩ := exists_of_kind? hkind
    have hembedded : (u.embeddedIds fields).findSome? (u.memberFrom name (k + n)) =
        (u.embeddedIds fields).findSome? (u.memberFrom name n) := by
      refine findSome?_congr fun inner hmem => ?_
      obtain ⟨f, hf, hnone, hid⟩ := mem_embeddedIds.mp hmem
      exact ih f hf hnone inner hid
    rw [← Nat.add_assoc, memberFrom_struct ht hk, memberFrom_struct ht hk, hembedded]
  | interface hkind _ _ _ =>
    obtain ⟨t, ht, hk⟩ := exists_of_kind? hkind
    rw [← Nat.add_assoc, memberFrom_interface ht hk, memberFrom_interface ht hk]
  | defined hkind _ hid _ ih =>
    obtain ⟨t, ht, hk⟩ := exists_of_kind? hkind
    rw [← Nat.add_assoc, memberFrom_defined ht hk hid, memberFrom_defined ht hk hid, ih]
  | other hkind hid _ =>
    obtain ⟨t, ht, hk⟩ := exists_of_kind? hkind
    rw [← Nat.add_assoc, memberFrom_other ht hk hid, memberFrom_other ht hk hid]

theorem Closed.memberOf_eq (h : u.Closed n id) (hle : n ≤ maxDepth + 1) :
    u.memberOf id name = u.memberFrom name n id := by
  obtain ⟨k, hk⟩ := Nat.exists_eq_add_of_le' hle
  rw [memberOf, hk, h.memberFrom_add]

/-- A declared method is all that the search finds under its name, so a type on which it finds a
field declares none. -/
theorem get?_eq_none_of_field {t : NamedType} {owner : TypeId} {ty : Ty}
    (ht : u.types[id]? = some t) (h : u.memberFrom name n id = some (.field owner ty)) :
    t.methods.get? name = none := by
  cases n with
  | zero => simp [memberFrom] at h
  | succ n =>
    cases hm : t.methods.get? name with
    | none => rfl
    | some m => simp [memberFrom, ht, hm] at h

/-- What the search finds on a closed type can be selected. -/
theorem Closed.selectable (h : u.Closed n id) (hle : n ≤ maxDepth + 1)
    (hfound : (u.memberFrom name n id).isSome) : u.Selectable name id := by
  induction h with
  | @struct n id fields hkind hknown hinner ih =>
    obtain ⟨t, ht, hk⟩ := exists_of_kind? hkind
    rw [memberFrom_struct ht hk, Option.isSome_or, Option.isSome_or, Bool.or_eq_true,
      Bool.or_eq_true, Option.isSome_map, Option.isSome_map] at hfound
    have hasField {f : Field} (hf : f ∈ fields) : u.HasField id f := ⟨id, fields, .refl, hkind, hf⟩
    rcases hfound with hmethod | hfield | hembedded
    · obtain ⟨m, hm⟩ := Option.isSome_iff_exists.mp hmethod
      exact .method ht hm
    · obtain ⟨f, hf, hname⟩ := List.find?_isSome.mp hfield
      exact .field (hasField hf) (by simpa using hname)
    · obtain ⟨inner, hmem, hsome⟩ := List.findSome?_isSome_iff.mp hembedded
      obtain ⟨f, hf, hnone, hid⟩ := mem_embeddedIds.mp hmem
      exact .promoted (hasField hf) hnone (stands_of_idOf hid)
        (ih f hf hnone inner hid (Nat.le_of_succ_le hle) hsome)
  | @interface n id methods embedded hkind hknown hinner ih =>
    obtain ⟨t, ht, hk⟩ := exists_of_kind? hkind
    have hclosed : u.Closed (n + 1) id := .interface hkind hknown hinner
    rw [memberFrom_interface ht hk, Option.isSome_or, Bool.or_eq_true, Option.isSome_map,
      hclosed.isSome_interfaceMember_iff hle] at hfound
    rcases hfound with hmethod | hasks
    · obtain ⟨m, hm⟩ := Option.isSome_iff_exists.mp hmethod
      exact .method ht hm
    · exact .asked hasks
  | @defined n id inner ty hkind hdefined hid hinner ih =>
    obtain ⟨t, ht, hk⟩ := exists_of_kind? hkind
    have hclosed : u.Closed (n + 1) id := .defined hkind hdefined hid hinner
    rw [memberFrom_defined ht hk hid, Option.isSome_or, Bool.or_eq_true,
      Option.isSome_map] at hfound
    rcases hfound with hmethod | hunder
    · obtain ⟨m, hm⟩ := Option.isSome_iff_exists.mp hmethod
      exact .method ht hm
    · split at hunder
      · exact .asked ((hclosed.isSome_interfaceMember_iff hle).mp hunder)
      · obtain ⟨found, hsome⟩ := Option.isSome_iff_exists.mp hunder
        obtain ⟨member, hmember, hinherited⟩ := Option.bind_eq_some_iff.mp hsome
        cases member with
        | field owner ty =>
          have hsel := ih (Nat.le_of_succ_le hle) (by simp [hmember])
          exact hsel.outward hdefined fun t' ht' => get?_eq_none_of_field ht' hmember
        | method func => simp [Member.inherited?] at hinherited
        | interfaceMethod iface => simp [Member.inherited?] at hinherited
  | other hkind hid _ =>
    obtain ⟨t, ht, hk⟩ := exists_of_kind? hkind
    rw [memberFrom_other ht hk hid, Option.isSome_map] at hfound
    obtain ⟨m, hm⟩ := Option.isSome_iff_exists.mp hfound
    exact .method ht hm

end Universe

end CallAtlas
