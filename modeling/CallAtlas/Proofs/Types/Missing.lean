import CallAtlas.Proofs.Resolve.Recorded
import CallAtlas.Proofs.Types.Closed

/-!
# Selections that find nothing

A selection that finds nothing on a closed type is reported as an error, because everything
that can be selected on such a type is known. Two names that Go lets a program select are
missed all the same.

The search looks into an embedded field and never asks for the name of the field itself
(`NamesEmbedded`). And of what it finds on the type that another one is defined by it takes fields
only, because a declared method is not inherited. A method that is promoted from an embedded field
is inherited, and it is dropped with the others (`DropsMethod`).

Main statement: on a closed type there is no third way. What can be selected is found or is one of
these.
-/

set_option autoImplicit false

namespace CallAtlas.Universe

/-- An embedded field of the type is called by the name. -/
def NamesEmbedded (u : Universe) (name : String) (id : TypeId) : Prop :=
  ∃ f, u.HasField id f ∧ f.name = none ∧ f.ty.embeddedName? = some name

/-- The type is defined by one on which the search finds a method of that name, and has the name all
the same: the struct underneath has a field of that name, or one is found on an embedded field. -/
def DropsMethod (u : Universe) (name : String) (id : TypeId) : Prop :=
  (∃ base found, Relation.TransGen u.DefinedBy id base ∧ u.memberOf base name = some found ∧
    found.inherited? = none) ∧
  ((∃ f, u.HasField id f ∧ f.name = some name) ∨
    ∃ inner, u.Promotes id inner ∧ (u.memberOf inner name).isSome)

/-- The type, or one from which it promotes, has the name in one of the two ways. -/
def Overlooked (u : Universe) (name : String) (id : TypeId) : Prop :=
  ∃ t, Relation.ReflTransGen u.Promotes id t ∧ (u.NamesEmbedded name t ∨ u.DropsMethod name t)

variable {u : Universe} {name : String} {id inner : TypeId} {n : Nat}

/-! ## What is overlooked on a part is overlooked on the whole -/

theorem DefinedBy.promotes (h : u.DefinedBy id inner) {t : TypeId} (hp : u.Promotes inner t) :
    u.Promotes id t := by
  obtain ⟨f, hf, hnone, hstands⟩ := hp
  exact ⟨f, h.hasField_iff.mpr hf, hnone, hstands⟩

theorem NamesEmbedded.outward (h : u.NamesEmbedded name inner) (hdefined : u.DefinedBy id inner) :
    u.NamesEmbedded name id := by
  obtain ⟨f, hf, hnone, hname⟩ := h
  exact ⟨f, hdefined.hasField_iff.mpr hf, hnone, hname⟩

theorem DropsMethod.outward (h : u.DropsMethod name inner) (hdefined : u.DefinedBy id inner) :
    u.DropsMethod name id := by
  obtain ⟨⟨base, found, hbase, hfound, hmethod⟩, hname⟩ := h
  refine ⟨⟨base, found, .head hdefined hbase, hfound, hmethod⟩, ?_⟩
  rcases hname with ⟨f, hf, hname⟩ | ⟨t, hp, hsome⟩
  · exact Or.inl ⟨f, hdefined.hasField_iff.mpr hf, hname⟩
  · exact Or.inr ⟨t, hdefined.promotes hp, hsome⟩

theorem Overlooked.outward (h : u.Overlooked name inner) (hdefined : u.DefinedBy id inner) :
    u.Overlooked name id := by
  obtain ⟨t, hpath, ht⟩ := h
  rcases Relation.ReflTransGen.cases_head hpath with rfl | ⟨next, hstep, hrest⟩
  · exact ⟨id, .refl, ht.imp (·.outward hdefined) (·.outward hdefined)⟩
  · exact ⟨t, .head (hdefined.promotes hstep) hrest, ht⟩

theorem Overlooked.of_promotes (h : u.Overlooked name inner) (hp : u.Promotes id inner) :
    u.Overlooked name id := by
  obtain ⟨t, hpath, ht⟩ := h
  exact ⟨t, .head hp hpath, ht⟩

/-! ## What the search misses -/

theorem get?_eq_none_of_memberFrom (h : u.memberFrom name (n + 1) id = none) {t : NamedType}
    (ht : u.types[id]? = some t) : t.methods.get? name = none := by
  cases hm : t.methods.get? name with
  | none => rfl
  | some m => simp [memberFrom, ht, hm] at h

/-- On a type with an interface underneath the search misses nothing. -/
theorem HasSpec.not_selectable {methods : List InterfaceMethod} {embedded : List Ty}
    (hspec : u.HasSpec id methods embedded) (hclosed : u.Closed n id) (hle : n ≤ maxDepth + 1)
    (hdecl : ∀ t, u.types[id]? = some t → t.methods.get? name = none)
    (hnone : u.interfaceMember id name = none) : ¬ u.Selectable name id := by
  intro hsel
  cases hsel with
  | method ht hm => simp [hdecl _ ht] at hm
  | field hf _ => exact hf.not_hasSpec hspec
  | embedded hf _ _ => exact hf.not_hasSpec hspec
  | promoted hf _ _ _ => exact hf.not_hasSpec hspec
  | asked hasks =>
    have hsome := (hclosed.isSome_interfaceMember_iff hle).mpr hasks
    simp [hnone] at hsome

/-- A type that is defined by something else than a declared type has what it declares. -/
theorem not_selectable_of_kind? {ty : Ty} (hkind : u.kind? id = some (.defined ty))
    (hty : ∀ pkg name, ty ≠ .named pkg name)
    (hdecl : ∀ t, u.types[id]? = some t → t.methods.get? name = none) : ¬ u.Selectable name id := by
  have hnamed (pkg name : String) :
      TypeKind.defined ty ≠ .defined (.named pkg name) := by simp [hty]
  have hfield (f : Field) : ¬ u.HasField id f := by
    intro hf
    obtain ⟨fields, hfields, _⟩ := hf.kind_eq hkind hnamed
    nomatch hfields
  intro hsel
  cases hsel with
  | method ht hm => simp [hdecl _ ht] at hm
  | field hf _ => exact hfield _ hf
  | embedded hf _ _ => exact hfield _ hf
  | promoted hf _ _ _ => exact hfield _ hf
  | asked hasks =>
    obtain ⟨_, _, hspec⟩ := hasks.hasSpec
    nomatch hspec.kind_eq hkind hnamed

/-- Once the search has dropped a method on the way through a definition, it finds no name any more
that the struct underneath has. -/
theorem Closed.overlooked_of_dropped (h : u.Closed (n + 1) id) (hle : n ≤ maxDepth + 1)
    (hdecl : ∀ t, u.types[id]? = some t → t.methods.get? name = none)
    (hspec : ∀ methods embedded, ¬ u.HasSpec id methods embedded)
    (hdropped : ∃ base found, Relation.TransGen u.DefinedBy id base ∧
      u.memberOf base name = some found ∧ found.inherited? = none)
    (hparts : ∀ inner, u.Closed n inner → u.memberFrom name n inner = none →
      u.Selectable name inner → u.Overlooked name inner)
    (hsel : u.Selectable name id) : u.Overlooked name id := by
  cases hsel with
  | method ht hm => simp [hdecl _ ht] at hm
  | field hf hname => exact ⟨id, .refl, Or.inr ⟨hdropped, Or.inl ⟨_, hf, hname⟩⟩⟩
  | embedded hf hunnamed hname => exact ⟨id, .refl, Or.inl ⟨_, hf, hunnamed, hname⟩⟩
  | @promoted _ inner _ hf hunnamed hstands hsel =>
    have hp : u.Promotes id inner := ⟨_, hf, hunnamed, hstands⟩
    have hinner := h.of_promotes hp
    cases hmember : u.memberFrom name n inner with
    | none => exact (hparts inner hinner hmember hsel).of_promotes hp
    | some member =>
      have hsome := (hinner.memberOf_eq hle).trans hmember
      exact ⟨id, .refl, Or.inr ⟨hdropped, Or.inr ⟨inner, hp, by simp [hsome]⟩⟩⟩
  | asked hasks =>
    obtain ⟨methods, embedded, hasSpec⟩ := hasks.hasSpec
    exact absurd hasSpec (hspec methods embedded)

/-- What the search misses on a closed type is overlooked. -/
theorem Closed.overlooked (h : u.Closed n id) (hle : n ≤ maxDepth + 1)
    (hnone : u.memberFrom name n id = none) (hsel : u.Selectable name id) :
    u.Overlooked name id := by
  -- The induction is on the depth and not on `h`: the embedded field of a defined type lies behind
  -- the definition, two steps down.
  induction n generalizing id with
  | zero => nomatch h
  | succ n ih =>
    have hle' : n ≤ maxDepth + 1 := Nat.le_of_succ_le hle
    have hclosed := h
    have hdecl (t : NamedType) := get?_eq_none_of_memberFrom hnone (t := t)
    cases h with
    | struct hkind _ _ =>
      obtain ⟨t, ht, hk⟩ := exists_of_kind? hkind
      simp only [memberFrom_struct ht hk, Option.or_eq_none_iff, Option.map_eq_none_iff,
        List.findSome?_eq_none_iff, List.find?_eq_none] at hnone
      obtain ⟨-, hfields, hembedded⟩ := hnone
      have hmem {f : Field} (hf : u.HasField id f) : f ∈ _ := hf.mem_of_kind? hkind
      cases hsel with
      | method ht hm => simp [hdecl _ ht] at hm
      | field hf hname => exact absurd (hfields _ (hmem hf)) (by simp [hname])
      | embedded hf hunnamed hname => exact ⟨id, .refl, Or.inl ⟨_, hf, hunnamed, hname⟩⟩
      | promoted hf hunnamed hstands hsel =>
        obtain ⟨inner, hid, hinner⟩ := hclosed.of_hasField hf hunnamed
        obtain rfl := hstands.unique (stands_of_idOf hid)
        have hmissing := hembedded _ (mem_embeddedIds.mpr ⟨_, hmem hf, hunnamed, hid⟩)
        exact (ih hinner hle' hmissing hsel).of_promotes ⟨_, hf, hunnamed, hstands⟩
      | asked hasks =>
        obtain ⟨_, _, hspec⟩ := hasks.hasSpec
        nomatch hspec.kind_eq hkind (by simp)
    | interface hkind _ _ =>
      obtain ⟨t, ht, hk⟩ := exists_of_kind? hkind
      rw [memberFrom_interface ht hk, Option.or_eq_none_iff] at hnone
      exact absurd hsel (HasSpec.not_selectable ⟨id, .refl, hkind⟩ hclosed hle hdecl hnone.2)
    | @defined _ _ inner _ hkind hdefined hid hinner =>
      obtain ⟨t, ht, hk⟩ := exists_of_kind? hkind
      rw [memberFrom_defined ht hk hid, Option.or_eq_none_iff] at hnone
      have hiff : u.isInterface inner = true ↔ ∃ methods embedded,
          u.HasSpec inner methods embedded :=
        (hinner.mono (Nat.le_of_succ_le_succ hle)).isInterfaceFrom_iff
      by_cases hiface : u.isInterface inner = true
      · obtain ⟨methods, embedded, hspec⟩ := hiff.mp hiface
        rw [if_pos hiface] at hnone
        exact absurd hsel
          ((hdefined.hasSpec_iff.mpr hspec).not_selectable hclosed hle hdecl hnone.2)
      · rw [if_neg hiface] at hnone
        cases hfound : u.memberFrom name n inner with
        | none =>
          exact (ih hinner hle' hfound (hsel.inward hdefined hdecl)).outward hdefined
        | some found =>
          have hspec (methods : List InterfaceMethod) (embedded : List Ty) :
              ¬ u.HasSpec id methods embedded := fun hspec =>
            hiface (hiff.mpr ⟨methods, embedded, hdefined.hasSpec_iff.mp hspec⟩)
          have hdropped : found.inherited? = none := by simpa [hfound] using hnone.2
          exact hclosed.overlooked_of_dropped hle' hdecl hspec
            ⟨inner, found, .single hdefined, (hinner.memberOf_eq hle').trans hfound, hdropped⟩
            (fun _ hinner hmissing hsel => ih hinner hle' hmissing hsel) hsel
    | other hkind _ hty => exact absurd hsel (not_selectable_of_kind? hkind hty hdecl)

theorem Closed.of_path {t : TypeId} (h : u.Closed (n + 1) id)
    (hpath : Relation.ReflTransGen u.Promotes id t) : u.Closed (n + 1) t := by
  induction hpath with
  | refl => exact h
  | tail _ hp ih => exact (ih.of_promotes hp).mono (Nat.le_succ n)

theorem Closed.selectable_of_overlooked (h : u.Closed (maxDepth + 1) id)
    (hover : u.Overlooked name id) : u.Selectable name id := by
  obtain ⟨t, hpath, ht⟩ := hover
  refine .of_promotes hpath ?_
  rcases ht with ⟨f, hf, hunnamed, hname⟩ | ⟨_, ⟨f, hf, hname⟩ | ⟨inner, hp, hsome⟩⟩
  · exact .embedded hf hunnamed hname
  · exact .field hf hname
  · have hinner := h.of_path (hpath.tail hp)
    exact .of_promotes (.single hp) (hinner.selectable Nat.le.refl hsome)

/-- **Main statement**: what can be selected on a closed type is found, or it is overlooked in
one of the two ways. So a selection that finds nothing is an error of the program exactly if it
is not overlooked. -/
theorem selectable_iff_found_or_overlooked (hclosed : u.isClosed id = true) :
    u.Selectable name id ↔ (u.memberOf id name).isSome ∨ u.Overlooked name id := by
  have h := closed_of_isClosedFrom hclosed
  constructor
  · intro hsel
    cases hfound : u.memberOf id name with
    | none => exact Or.inr (h.overlooked Nat.le.refl hfound hsel)
    | some found => exact Or.inl rfl
  · rintro (hfound | hover)
    · exact h.selectable Nat.le.refl hfound
    · exact h.selectable_of_overlooked hover

/-! ## A program with both -/

/-- `Outer` embeds `Base`, which has a method `Run`, and `Copy` is defined by `Outer`. -/
def embedsBase : Disk where
  top := "/w"
  tree := .dir [("main.go", .file (some (
    "package main\n\n" ++
    "type Base struct \x7b\n\tn int\n\x7d\n\n" ++
    "func (b Base) Run() \x7b\x7d\n\n" ++
    "type Outer struct \x7b\n\tBase\n\x7d\n\n" ++
    "type Copy Outer\n\n" ++
    "func main() \x7b\x7d\n")))]

def embedsBaseModule : Module := { path := "example.com/m", root := [] }

def embedsBaseProgram : Program :=
  ((embedsBase.loadProgram .host embedsBaseModule "/w").toOption).getD {}

def baseField : Field := { name := none, ty := .named "example.com/m" "Base" }

-- One evaluation for all that is needed of the program, because loading it is what takes the time.
theorem embedsBase_evaluated :
    (embedsBase.loadProgram .host embedsBaseModule "/w").isOk = true ∧
      embedsBaseProgram.decls.kind? 2 = some (.struct [baseField]) ∧
      embedsBaseProgram.decls.kind? 3 = some (.defined (.named "example.com/m" "Outer")) ∧
      embedsBaseProgram.decls.lookup "example.com/m" "Base" = some 1 ∧
      embedsBaseProgram.decls.lookup "example.com/m" "Outer" = some 2 ∧
      (embedsBaseProgram.decls.isClosed 2 = true ∧ embedsBaseProgram.decls.isClosed 3 = true) ∧
      embedsBaseProgram.decls.memberOf 2 "Base" = none ∧
      embedsBaseProgram.decls.memberOf 3 "Run" = none ∧
      embedsBaseProgram.decls.memberOf 2 "Run" = some (.method 0) ∧
      embedsBaseProgram.decls.memberOf 1 "Run" = some (.method 0) := by
  decide +kernel

theorem embedsBase_loads :
    embedsBase.loadProgram .host embedsBaseModule "/w" = .ok embedsBaseProgram :=
  Disk.loadProgram_of_isOk embedsBase_evaluated.1

theorem outer_namesEmbedded : embedsBaseProgram.decls.NamesEmbedded "Base" 2 := by
  obtain ⟨_, houter, _⟩ := embedsBase_evaluated
  exact ⟨baseField, ⟨2, _, .refl, houter, List.mem_singleton_self _⟩, rfl, rfl⟩

theorem copy_dropsMethod : embedsBaseProgram.decls.DropsMethod "Run" 3 := by
  obtain ⟨_, houter, hcopy, hbase, hlookup, _, _, _, hrun, hbaseRun⟩ := embedsBase_evaluated
  have hdefined : embedsBaseProgram.decls.DefinedBy 3 2 :=
    ⟨"example.com/m", "Outer", hcopy, denotes_of_lookup hlookup⟩
  have hp : embedsBaseProgram.decls.Promotes 3 1 :=
    ⟨baseField, ⟨2, _, .single hdefined, houter, List.mem_singleton_self _⟩, rfl,
      "example.com/m", "Base", rfl, denotes_of_lookup hbase⟩
  exact ⟨⟨2, .method 0, .single hdefined, hrun, rfl⟩, Or.inr ⟨1, hp, by simp [hbaseRun]⟩⟩

theorem selectable_iff_found_or_overlooked_embedsBase :
    (embedsBaseProgram.decls.isClosed 2 = true ∧ embedsBaseProgram.decls.Selectable "Run" 2) ∧
      embedsBaseProgram.decls.isClosed 3 = true ∧ embedsBaseProgram.decls.Selectable "Run" 3 := by
  obtain ⟨_, _, _, _, _, ⟨houter, hcopy⟩, _, _, hrun, _⟩ := embedsBase_evaluated
  exact ⟨⟨houter, (selectable_iff_found_or_overlooked houter).mpr (Or.inl (by simp [hrun]))⟩,
    hcopy, (selectable_iff_found_or_overlooked hcopy).mpr
      (Or.inr ⟨3, .refl, Or.inr copy_dropsMethod⟩)⟩

/-- A program that loads has a closed type on which Go selects a name that the search does not find:
an embedded field under the name of its type, and a method promoted behind a definition. -/
theorem embedsBase_missing : ∃ p, embedsBase.loadProgram .host embedsBaseModule "/w" = .ok p ∧
    (p.decls.isClosed 2 = true ∧ p.decls.memberOf 2 "Base" = none ∧ p.decls.Selectable "Base" 2) ∧
    (p.decls.isClosed 3 = true ∧ p.decls.memberOf 3 "Run" = none ∧ p.decls.Selectable "Run" 3) := by
  obtain ⟨_, _, _, _, _, ⟨houter, hcopy⟩, hbase, hrun, _⟩ := embedsBase_evaluated
  have hclosed {id : TypeId} (h : embedsBaseProgram.decls.isClosed id = true) :=
    closed_of_isClosedFrom h
  exact ⟨embedsBaseProgram, embedsBase_loads,
    ⟨houter, hbase, (hclosed houter).selectable_of_overlooked ⟨2, .refl,
      Or.inl outer_namesEmbedded⟩⟩,
    hcopy, hrun, (hclosed hcopy).selectable_of_overlooked ⟨3, .refl, Or.inr copy_dropsMethod⟩⟩

end CallAtlas.Universe
