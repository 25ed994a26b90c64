import CallAtlas.Program.Types

/-!
# Two views of an interface

What an interface asks for is looked at in two ways. Which types a call through it can reach is
decided by the names of all its methods, which are collected in every type that it embeds or is
defined by. What such a call gives back is decided by one method, and the search for it ends at the
first method of that name. Types can embed one another in circles, so both stop at a depth.

They stop at the same places, because both are views of one list: the methods in the order in which
they are met (`asked`). A method is in that list exactly if it is declared by an interface that is
reached in fewer steps than the depth (`mem_asked_iff`).
-/

set_option autoImplicit false

namespace CallAtlas.Universe

/-! ## Steps to other types -/

/-- The type is an interface that embeds the other one, or it is defined by the other one. In both
places the other one may be written as a pointer, and a type that is not known leads nowhere. -/
inductive TakesOver (u : Universe) (id inner : TypeId) : Prop
  | embeds {methods : List InterfaceMethod} {embedded : List Ty} {ty : Ty}
      (hkind : u.kind? id = some (.interface methods embedded)) (hty : ty ∈ embedded)
      (hinner : u.idOf ty = some inner) : TakesOver u id inner
  | defined {ty : Ty} (hkind : u.kind? id = some (.defined ty)) (hinner : u.idOf ty = some inner) :
      TakesOver u id inner

/-- The type takes over what the other one asks for, in so many steps. -/
inductive Reaches (u : Universe) : Nat → TypeId → TypeId → Prop
  | here (id : TypeId) : Reaches u 0 id id
  | there {n : Nat} {id inner iface : TypeId} (hstep : u.TakesOver id inner)
      (h : Reaches u n inner iface) : Reaches u (n + 1) id iface

/-- The type is declared as an interface with this method. -/
def DeclaresMethod (u : Universe) (iface : TypeId) (m : InterfaceMethod) : Prop :=
  ∃ methods embedded, u.kind? iface = some (.interface methods embedded) ∧ m ∈ methods

/-! ## The methods in the order in which they are met -/

section

variable (u : Universe)

/-- The methods that a type is declared with as an interface. -/
def ownMethods (id : TypeId) : List InterfaceMethod :=
  match u.kind? id with
  | some (.interface methods _) => methods
  | _ => []

/-- The types that a type takes methods over from. -/
def takenOver (id : TypeId) : List TypeId :=
  match u.kind? id with
  | some (.interface _ embedded) => embedded.filterMap u.idOf
  | some (.defined ty) => (u.idOf ty).toList
  | _ => []

/-- The methods that are met in fewer than `n` steps, those of the type itself first. -/
def asked : (n : Nat) → TypeId → List InterfaceMethod
  | 0, _ => []
  | n + 1, id => u.ownMethods id ++ (u.takenOver id).flatMap (asked n)

end

variable {u : Universe} {n : Nat} {id inner : TypeId} {m : InterfaceMethod} {name : String}

theorem mem_ownMethods_iff : m ∈ u.ownMethods id ↔ u.DeclaresMethod id m := by
  unfold ownMethods DeclaresMethod
  cases hkind : u.kind? id with
  | none => simp
  | some kind => cases kind <;> simp

theorem mem_takenOver_iff : inner ∈ u.takenOver id ↔ u.TakesOver id inner := by
  unfold takenOver
  constructor
  · intro h
    split at h
    · rename_i hkind
      obtain ⟨ty, hty, hinner⟩ := List.mem_filterMap.mp h
      exact .embeds hkind hty hinner
    · rename_i hkind
      exact .defined hkind (Option.mem_toList.mp h)
    · cases h
  · intro h
    cases h with
    | embeds hkind hty hinner =>
      rw [hkind]
      exact List.mem_filterMap.mpr ⟨_, hty, hinner⟩
    | defined hkind hinner =>
      rw [hkind]
      exact Option.mem_toList.mpr hinner

/-- A method is met exactly if an interface that is near enough declares it. -/
theorem mem_asked_iff :
    m ∈ u.asked n id ↔ ∃ k < n, ∃ iface, u.Reaches k id iface ∧ u.DeclaresMethod iface m := by
  induction n generalizing id with
  | zero => simp [asked]
  | succ n ih =>
    rw [asked, List.mem_append, mem_ownMethods_iff, List.mem_flatMap]
    constructor
    · rintro (hown | ⟨inner, hinner, hm⟩)
      · exact ⟨0, Nat.zero_lt_succ n, id, .here id, hown⟩
      · obtain ⟨k, hk, iface, hreaches, hdeclares⟩ := ih.mp hm
        exact ⟨k + 1, Nat.succ_lt_succ hk, iface,
          .there (mem_takenOver_iff.mp hinner) hreaches, hdeclares⟩
    · rintro ⟨k, hk, iface, hreaches, hdeclares⟩
      cases hreaches with
      | here => exact Or.inl hdeclares
      | there hstep hrest =>
        exact Or.inr ⟨_, mem_takenOver_iff.mpr hstep,
          ih.mpr ⟨_, Nat.lt_of_succ_lt_succ hk, iface, hrest, hdeclares⟩⟩

/-! ## The two views -/

/-- The names that are collected are those of the methods that are met. -/
theorem interfaceMethodsFrom_eq_map_asked (n : Nat) (id : TypeId) :
    u.interfaceMethodsFrom n id = (u.asked n id).map InterfaceMethod.name := by
  induction n generalizing id with
  | zero => rfl
  | succ n ih =>
    have hnext : u.interfaceMethodsFrom n = fun inner =>
        (u.asked n inner).map InterfaceMethod.name := funext ih
    rw [asked, List.map_append, List.map_flatMap, ← hnext]
    unfold interfaceMethodsFrom ownMethods takenOver
    cases hkind : u.kind? id with
    | none => rfl
    | some kind =>
      cases kind with
      | struct fields => rfl
      | interface methods embedded => rfl
      | defined ty =>
        dsimp only
        cases u.idOf ty with
        | none => rfl
        | some inner => exact (List.append_nil _).symm

/-- The search ends at the first method of the name that is met. -/
theorem findInterfaceMethodFrom_eq_find?_asked (name : String) (n : Nat) (id : TypeId) :
    u.findInterfaceMethodFrom name n id = (u.asked n id).find? fun m => m.name == name := by
  induction n generalizing id with
  | zero => rfl
  | succ n ih =>
    have hnext : u.findInterfaceMethodFrom name n =
        fun inner => (u.asked n inner).find? fun m => m.name == name :=
      funext ih
    rw [asked, List.find?_append, List.find?_flatMap, ← hnext]
    unfold findInterfaceMethodFrom ownMethods takenOver
    cases hkind : u.kind? id with
    | none => rfl
    | some kind =>
      cases kind with
      | struct fields => rfl
      | interface methods embedded =>
        dsimp only
        cases methods.find? fun m => m.name == name <;> rfl
      | defined ty =>
        dsimp only
        cases u.idOf ty with
        | none => rfl
        | some inner => exact List.findSome?_singleton.symm

/-- **The names and the search agree.** However types embed and define one another, in circles,
through pointers or through types that are not known: a name is among those that a type asks for
exactly if the search finds a method of that name, and this is so exactly if one is declared by an
interface that the type reaches in at most `maxDepth` steps. The method that is found has the name
and is declared by such an interface. -/
theorem asked_names_eq_found (u : Universe) (id : TypeId) (name : String) :
    (name ∈ u.interfaceMethods id ↔ (u.findInterfaceMethod id name).isSome) ∧
      (∀ m, u.findInterfaceMethod id name = some m →
        m.name = name ∧ ∃ n ≤ maxDepth, ∃ iface, u.Reaches n id iface ∧ u.DeclaresMethod iface m) ∧
      (name ∈ u.interfaceMethods id ↔
        ∃ n ≤ maxDepth, ∃ iface m, u.Reaches n id iface ∧ u.DeclaresMethod iface m ∧
          m.name = name) := by
  have hnames : u.interfaceMethods id = (u.asked (maxDepth + 1) id).map InterfaceMethod.name :=
    interfaceMethodsFrom_eq_map_asked _ id
  have hfinds : u.findInterfaceMethod id name =
      (u.asked (maxDepth + 1) id).find? fun m => m.name == name :=
    findInterfaceMethodFrom_eq_find?_asked name _ id
  refine ⟨?_, ?_, ?_⟩
  · rw [hnames, hfinds, List.find?_isSome, List.mem_map]
    simp only [beq_iff_eq]
  · intro m hm
    rw [hfinds] at hm
    obtain ⟨n, hn, iface, hreaches, hdeclares⟩ := mem_asked_iff.mp (List.mem_of_find?_eq_some hm)
    have hname := List.find?_some hm
    exact ⟨beq_iff_eq.mp hname, n, Nat.le_of_lt_succ hn, iface, hreaches, hdeclares⟩
  · rw [hnames, List.mem_map]
    constructor
    · rintro ⟨m, hm, hname⟩
      obtain ⟨n, hn, iface, hreaches, hdeclares⟩ := mem_asked_iff.mp hm
      exact ⟨n, Nat.le_of_lt_succ hn, iface, m, hreaches, hdeclares, hname⟩
    · rintro ⟨n, hn, iface, m, hreaches, hdeclares, hname⟩
      exact ⟨m, mem_asked_iff.mpr ⟨n, Nat.lt_succ_of_le hn, iface, hreaches, hdeclares⟩, hname⟩

/-- A reader embeds a writer and something that is not known, the writer embeds a pointer to a
reader, and a file is defined by the writer. -/
def embedsInCircle : Universe where
  types := [
    { pkg := "m", name := "Reader"
      kind := .interface [⟨"Read", 1, [.basic "int"]⟩]
        [.named "m" "Missing", .named "m" "Writer"] },
    { pkg := "m", name := "Writer"
      kind := .interface [⟨"Write", 1, []⟩] [.pointer (.named "m" "Reader")] },
    { pkg := "m", name := "File", kind := .defined (.named "m" "Writer") }]

/-- A file asks for both methods, that of the reader in two steps, and for no other one. -/
theorem asked_names_eq_found_embedsInCircle :
    embedsInCircle.findInterfaceMethod 2 "Read" = some ⟨"Read", 1, [.basic "int"]⟩ ∧
      "Read" ∈ embedsInCircle.interfaceMethods 2 ∧ "Write" ∈ embedsInCircle.interfaceMethods 2 ∧
      embedsInCircle.findInterfaceMethod 2 "Close" = none ∧
        "Close" ∉ embedsInCircle.interfaceMethods 2 ∧
      ∃ n ≤ maxDepth, ∃ iface, embedsInCircle.Reaches n 2 iface ∧
        embedsInCircle.DeclaresMethod iface ⟨"Read", 1, [.basic "int"]⟩ := by
  have hread : embedsInCircle.findInterfaceMethod 2 "Read" =
      some ⟨"Read", 1, [.basic "int"]⟩ := by decide +kernel
  have hwrite : (embedsInCircle.findInterfaceMethod 2 "Write").isSome := by decide +kernel
  have hclose : embedsInCircle.findInterfaceMethod 2 "Close" = none := by decide +kernel
  obtain ⟨hnames, hfound, _⟩ := asked_names_eq_found embedsInCircle 2 "Read"
  refine ⟨hread, hnames.mpr (by rw [hread]; rfl),
    (asked_names_eq_found _ 2 "Write").1.mpr hwrite, hclose, ?_, (hfound _ hread).2⟩
  rw [(asked_names_eq_found _ 2 "Close").1, hclose]
  exact Bool.false_ne_true

end CallAtlas.Universe
