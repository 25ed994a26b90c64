import CallAtlas.Proofs.Resolve.Recorded
import CallAtlas.Proofs.Types.Closed
import Mathlib.Data.List.Lex

/-!
# Which of several members is selected

A struct can reach several members of one name through its embedded fields. The rule of the language
goes by depth: the declaration that lies closest is the one, if there is no other at its depth
(`declarationsAt`, `Chosen`). The searches do not go by depth. They look into the first embedded
field with all that it embeds before they look at the second one.

A place in the tree of embedded fields is a path, the list of positions on the way to it. The
searches take the paths in the order of lists, in which a path comes before those that extend it,
and stop at the first that offers the name (`Search.find_eq_some_iff`). The two searches differ in
the types that they enter and in what counts as an offer, so both are cases of one `Search`.

Main statement: a search selects the declaration that the rule names exactly if nothing overtakes
it, and a declaration that overtakes it lies deeper.
-/

set_option autoImplicit false

namespace CallAtlas.Universe

variable (u : Universe)

/-! ## The rule by depth -/

/-- The fields of a type, if it is a struct. -/
def fieldsOf (id : TypeId) : List Field :=
  match u.kind? id with
  | some (.struct fields) => fields
  | _ => []

/-- The types that a type embeds. -/
def embedded (id : TypeId) : List TypeId := u.embeddedIds (u.fieldsOf id)

/-- The method that a type declares under a name. -/
def declaredMethod (name : String) (id : TypeId) : Option Member :=
  (u.types[id]?.bind fun t => t.methods.get? name).map fun m => .method m.func

/-- What a type declares itself under a name: a method, and fields if it is a struct. -/
def declarations (name : String) (id : TypeId) : List Member :=
  (u.declaredMethod name id).toList ++
    ((u.fieldsOf id).filter fun f => f.name == some name).map fun f => .field id f.ty

/-- What is declared under a name at a depth. -/
def declarationsAt (name : String) : (depth : Nat) → TypeId → List Member
  | 0, id => u.declarations name id
  | depth + 1, id => (u.embedded id).flatMap (declarationsAt name depth)

/-- The rule of the language: the depth is the smallest at which the name is declared, and this is
the only declaration there. -/
structure Chosen (name : String) (id : TypeId) (depth : Nat) (member : Member) : Prop where
  declared : member ∈ u.declarationsAt name depth id
  only : ∀ other ∈ u.declarationsAt name depth id, other = member
  least : ∀ d < depth, u.declarationsAt name d id = []

/-! ## Paths -/

/-- The path leads from a type to another one. Its numbers are positions of embedded fields, and
every type on the way is one that may be entered. -/
inductive Leads (enters : TypeId → Bool) : TypeId → List Nat → TypeId → Prop
  | here (id : TypeId) : Leads enters id [] id
  | there {id inner other : TypeId} {i : Nat} {path : List Nat}
      (hi : (u.embedded id)[i]? = some inner) (henters : enters inner = true)
      (h : Leads enters inner path other) : Leads enters id (i :: path) other

variable {u} {enters : TypeId → Bool} {id inner other : TypeId} {name : String}

theorem Leads.unique {path : List Nat} {x y : TypeId} (h : u.Leads enters id path x)
    (h' : u.Leads enters id path y) : x = y := by
  induction h with
  | here id =>
    cases h'
    rfl
  | there hi _ _ ih =>
    cases h' with
    | there hi' _ h' =>
      rw [hi] at hi'
      cases hi'
      exact ih h'

theorem Leads.mono {enters' : TypeId → Bool} (hle : ∀ x, enters x = true → enters' x = true)
    {path : List Nat} (h : u.Leads enters id path other) : u.Leads enters' id path other := by
  induction h with
  | here id => exact .here id
  | there hi henters _ ih => exact .there hi (hle _ henters) ih

/-- What is declared at a depth is declared where a path of that length leads. -/
theorem mem_declarationsAt_iff {depth : Nat} {member : Member} :
    member ∈ u.declarationsAt name depth id ↔
      ∃ path x, u.Leads (fun _ => true) id path x ∧ path.length = depth ∧
        member ∈ u.declarations name x := by
  induction depth generalizing id with
  | zero =>
    constructor
    · intro h
      exact ⟨[], id, .here id, rfl, h⟩
    · rintro ⟨path, x, hleads, hlength, h⟩
      obtain rfl := List.eq_nil_of_length_eq_zero hlength
      cases hleads
      exact h
  | succ depth ih =>
    unfold declarationsAt
    rw [List.mem_flatMap]
    constructor
    · rintro ⟨inner, hinner, h⟩
      obtain ⟨i, hi⟩ := List.getElem?_of_mem hinner
      obtain ⟨path, x, hleads, hlength, h⟩ := ih.mp h
      exact ⟨i :: path, x, .there hi rfl hleads, by rw [List.length_cons, hlength], h⟩
    · rintro ⟨path, x, hleads, hlength, h⟩
      cases hleads with
      | here => cases hlength
      | @there _ inner _ i path hi _ hleads =>
        exact ⟨inner, List.mem_of_getElem? hi, ih.mpr ⟨path, x, hleads, Nat.succ.inj hlength, h⟩⟩

/-! ## Searches -/

/-- A search through embedded fields: the types that it enters, and what a type offers itself if so
many steps are left behind it. -/
structure Search where
  enters : TypeId → Bool
  offer : Nat → TypeId → Option Member

namespace Search

variable {s : Search} {n : Nat} {found : Member}

/-- The search goes on with the embedded types, one after another, if a type offers
nothing itself. -/
def find (u : Universe) (s : Search) : Nat → TypeId → Option Member
  | 0, _ => none
  | n + 1, id => (s.offer n id).or (((u.embedded id).filter s.enters).findSome? (find u s n))

/-- The path leads to a type that offers the member, in fewer steps than are allowed. -/
structure Offers (u : Universe) (s : Search) (n : Nat) (id : TypeId) (path : List Nat)
    (found : Member) : Prop where
  short : path.length < n
  exists_offer : ∃ x, u.Leads s.enters id path x ∧ s.offer (n - 1 - path.length) x = some found

theorem Offers.unique {path : List Nat} {found' : Member} (h : Offers u s n id path found)
    (h' : Offers u s n id path found') : found = found' := by
  obtain ⟨x, hleads, hoffer⟩ := h.exists_offer
  obtain ⟨y, hleads', hoffer'⟩ := h'.exists_offer
  rw [hleads.unique hleads', hoffer'] at hoffer
  exact (Option.some.inj hoffer).symm

theorem offers_nil_iff : Offers u s (n + 1) id [] found ↔ s.offer n id = some found := by
  constructor
  · rintro ⟨_, x, hleads, hoffer⟩
    cases hleads
    exact hoffer
  · intro h
    exact ⟨Nat.zero_lt_succ n, id, .here id, h⟩

theorem offers_cons_iff {i : Nat} {path : List Nat} : Offers u s (n + 1) id (i :: path) found ↔
    ∃ inner, (u.embedded id)[i]? = some inner ∧ s.enters inner = true ∧
      Offers u s n inner path found := by
  have hsteps : n + 1 - 1 - (i :: path).length = n - 1 - path.length := by
    rw [List.length_cons]
    omega
  constructor
  · rintro ⟨hshort, x, hleads, hoffer⟩
    rw [hsteps] at hoffer
    cases hleads with
    | there hi henters hleads =>
      exact ⟨_, hi, henters, Nat.lt_of_succ_lt_succ hshort, x, hleads, hoffer⟩
  · rintro ⟨inner, hi, henters, hshort, x, hleads, hoffer⟩
    refine ⟨Nat.succ_lt_succ hshort, x, .there hi henters hleads, ?_⟩
    rwa [hsteps]

theorem not_offers_zero {path : List Nat} : ¬ Offers u s 0 id path found :=
  fun h => Nat.not_lt_zero _ h.short

/-- A search that finds nothing is offered nothing. -/
theorem find_eq_none_iff : find u s n id = none ↔ ∀ path found, ¬ Offers u s n id path found := by
  induction n generalizing id with
  | zero => exact iff_of_true rfl fun path found => not_offers_zero
  | succ n ih =>
    unfold find
    rw [Option.or_eq_none_iff, List.findSome?_eq_none_iff]
    constructor
    · rintro ⟨hown, hrest⟩ path found hoffers
      cases path with
      | nil => simp [offers_nil_iff.mp hoffers] at hown
      | cons i path =>
        obtain ⟨inner, hi, henters, hinner⟩ := offers_cons_iff.mp hoffers
        have hmem := List.mem_filter.mpr ⟨List.mem_of_getElem? hi, henters⟩
        exact ih.mp (hrest inner hmem) path found hinner
    · intro hnone
      refine ⟨Option.eq_none_iff_forall_ne_some.mpr fun found hfound =>
        hnone [] found (offers_nil_iff.mpr hfound), ?_⟩
      intro inner hmem
      obtain ⟨hmem, henters⟩ := List.mem_filter.mp hmem
      obtain ⟨i, hi⟩ := List.getElem?_of_mem hmem
      rw [ih]
      intro path found hinner
      exact hnone (i :: path) found (offers_cons_iff.mpr ⟨inner, hi, henters, hinner⟩)

end Search

/-- The first that gives something, with its position. -/
theorem exists_first_of_findSome? {α β : Type} {p : α → Bool} {f : α → Option β}
    {xs : List α} {b : β} (h : (xs.filter p).findSome? f = some b) :
    ∃ i x, xs[i]? = some x ∧ p x = true ∧ f x = some b ∧
      ∀ (j : Nat) (y : α), j < i → xs[j]? = some y → p y = true → f y = none := by
  induction xs with
  | nil => cases h
  | cons a xs ih =>
    by_cases ha : p a = true ∧ f a = some b
    · exact ⟨0, a, rfl, ha.1, ha.2, fun j y hj => absurd hj (Nat.not_lt_zero j)⟩
    · -- the head is passed over, so it gives nothing, and the first is one further on
      have hskip : (p a = true → f a = none) ∧ (xs.filter p).findSome? f = some b := by
        by_cases hp : p a = true
        · rw [List.filter_cons_of_pos hp, List.findSome?_cons] at h
          cases hfa : f a with
          | none =>
            rw [hfa] at h
            exact ⟨fun _ => rfl, h⟩
          | some b' =>
            rw [hfa] at h
            exact absurd ⟨hp, hfa.trans h⟩ ha
        · rw [List.filter_cons_of_neg hp] at h
          exact ⟨fun hp' => absurd hp' hp, h⟩
      obtain ⟨i, x, hi, hp, hf, hbefore⟩ := ih hskip.2
      refine ⟨i + 1, x, hi, hp, hf, ?_⟩
      intro j y hj hy hpy
      cases j with
      | zero =>
        cases hy
        exact hskip.1 hpy
      | succ j => exact hbefore j y (Nat.lt_of_succ_lt_succ hj) hy hpy

namespace Search

variable {s : Search} {n : Nat} {found : Member}

/-- What is found is offered on a path, and no path before it offers anything. -/
theorem exists_first_of_find (h : find u s n id = some found) :
    ∃ path, Offers u s n id path found ∧
      ∀ q found', q < path → ¬ Offers u s n id q found' := by
  induction n generalizing id with
  | zero => cases h
  | succ n ih =>
    unfold find at h
    cases hown : s.offer n id with
    | some own =>
      rw [hown, Option.some_or] at h
      cases h
      exact ⟨[], offers_nil_iff.mpr hown, fun q _ hq => absurd hq (List.not_lt_nil q)⟩
    | none =>
      rw [hown, Option.none_or] at h
      obtain ⟨i, inner, hi, henters, hinner, hbefore⟩ := exists_first_of_findSome? h
      obtain ⟨path, hoffers, hfirst⟩ := ih hinner
      refine ⟨i :: path, offers_cons_iff.mpr ⟨inner, hi, henters, hoffers⟩, ?_⟩
      intro q found' hq hq'
      cases q with
      | nil => simp [offers_nil_iff.mp hq'] at hown
      | cons j q =>
        obtain ⟨y, hy, hentersy, hqy⟩ := offers_cons_iff.mp hq'
        rcases List.cons_lt_cons_iff.mp hq with hj | ⟨rfl, hlt⟩
        · exact find_eq_none_iff.mp (hbefore j y hj hy hentersy) q found' hqy
        · rw [hi] at hy
          cases hy
          exact hfirst q found' hlt hqy

/-- The path offers something else than the member, and comes before all paths that offer it. -/
structure Overtakes (u : Universe) (s : Search) (n : Nat) (id : TypeId) (member : Member)
    (path : List Nat) (found : Member) : Prop where
  offers : Offers u s n id path found
  differs : found ≠ member
  ahead : ∀ q, Offers u s n id q member → path < q

/-- The search finds a member if it is offered and not overtaken. -/
theorem find_eq_some_iff {member : Member} : find u s n id = some member ↔
    (∃ path, Offers u s n id path member) ∧ ¬ ∃ path found,
      Overtakes u s n id member path found := by
  constructor
  · intro h
    obtain ⟨path, hoffers, hfirst⟩ := exists_first_of_find h
    refine ⟨⟨path, hoffers⟩, ?_⟩
    rintro ⟨q, found, hover⟩
    exact hfirst q found (hover.ahead path hoffers) hover.offers
  · rintro ⟨⟨p, hp⟩, hnot⟩
    cases hfind : find u s n id with
    | none => exact absurd hp (find_eq_none_iff.mp hfind p member)
    | some found =>
      obtain ⟨path, hoffers, hfirst⟩ := exists_first_of_find hfind
      by_contra hne
      refine hnot ⟨path, found, hoffers, fun heq => hne (congrArg some heq), ?_⟩
      intro q hq
      rcases lt_trichotomy path q with hlt | rfl | hgt
      · exact hlt
      · exact absurd (congrArg some (hoffers.unique hq)) hne
      · exact absurd hq (hfirst q member hgt)

end Search

/-! ## The two searches -/

variable (u)

/-- The search for a member enters every embedded type. A struct offers what it declares, the method
before a field, and any other type what is found on it. -/
def memberSearch (name : String) : Search where
  enters _ := true
  offer n id :=
    match u.kind? id with
    | some (.struct _) => (u.declarations name id).head?
    | _ => u.memberFrom name (n + 1) id

/-- The search for a method passes over embedded interfaces, and over fields. -/
def methodSearch (name : String) : Search where
  enters id := !u.isInterface id
  offer _ id := u.declaredMethod name id

variable {u}

theorem fieldsOf_struct {fields : List Field} (h : u.kind? id = some (.struct fields)) :
    u.fieldsOf id = fields := by
  rw [fieldsOf, h]

theorem fieldsOf_of_not_struct (h : ∀ fields, u.kind? id ≠ some (.struct fields)) :
    u.fieldsOf id = [] := by
  unfold fieldsOf
  split
  · rename_i fields hkind
    exact absurd hkind (h fields)
  · rfl

theorem embedded_of_not_struct (h : ∀ fields, u.kind? id ≠ some (.struct fields)) :
    u.embedded id = [] := by
  rw [embedded, fieldsOf_of_not_struct h]
  rfl

theorem memberSearch_offer_struct {fields : List Field} (h : u.kind? id = some (.struct fields))
    (n : Nat) : (u.memberSearch name).offer n id = (u.declarations name id).head? := by
  simp only [memberSearch, h]

theorem memberSearch_offer_other (h : ∀ fields, u.kind? id ≠ some (.struct fields)) (n : Nat) :
    (u.memberSearch name).offer n id = u.memberFrom name (n + 1) id := by
  unfold memberSearch
  dsimp only
  split
  · rename_i fields hkind
    exact absurd hkind (h fields)
  · rfl

theorem declaredMethod_of_get {t : NamedType} (ht : u.types[id]? = some t) :
    u.declaredMethod name id = (t.methods.get? name).map fun m => Member.method m.func := by
  rw [declaredMethod, ht, Option.bind_some]

theorem head?_declarations : (u.declarations name id).head? = (u.declaredMethod name id).or
    (((u.fieldsOf id).find? fun f => f.name == some name).map fun f => Member.field id f.ty) := by
  rw [declarations, List.head?_append, Option.head?_toList, List.head?_map, List.head?_filter]

theorem memberFrom_eq_find (n : Nat) (id : TypeId) :
    u.memberFrom name n id = (u.memberSearch name).find u n id := by
  induction n generalizing id with
  | zero => rfl
  | succ n ih =>
    unfold Search.find
    by_cases hstruct : ∃ fields, u.kind? id = some (.struct fields)
    · obtain ⟨fields, hkind⟩ := hstruct
      obtain ⟨t, ht, hk⟩ := exists_of_kind? hkind
      have hall : (u.embedded id).filter (u.memberSearch name).enters = u.embeddedIds fields := by
        rw [embedded, fieldsOf_struct hkind]
        exact List.filter_true _
      rw [memberFrom_struct ht hk, memberSearch_offer_struct hkind, head?_declarations,
        declaredMethod_of_get ht, fieldsOf_struct hkind, hall, Option.or_assoc, funext ih]
    · have hother := not_exists.mp hstruct
      rw [memberSearch_offer_other hother, embedded_of_not_struct hother]
      exact Option.or_none.symm

theorem lookup_flatMap {α β : Type} (xs : List α) (f : α → List (String × β)) (name : String) :
    (xs.flatMap f).lookup name = xs.findSome? fun x => (f x).lookup name := by
  induction xs with
  | nil => rfl
  | cons x xs ih =>
    rw [List.flatMap_cons, List.lookup_append, ih, List.findSome?_cons]
    cases (f x).lookup name <;> rfl

theorem lookup_map_func (entries : List (String × Method)) (name : String) :
    (entries.map fun e => (e.1, e.2.func)).lookup name = (entries.lookup name).map Method.func := by
  induction entries with
  | nil => rfl
  | cons e entries ih =>
    rw [List.map_cons, List.lookup_cons, List.lookup_cons, ih]
    cases name == e.1 <;> rfl

theorem lookup_methodEntriesFrom (n : Nat) (id : TypeId) :
    ((u.methodEntriesFrom n id).lookup name).map Member.method =
      (u.methodSearch name).find u n id := by
  induction n generalizing id with
  | zero => rfl
  | succ n ih =>
    unfold Search.find
    cases ht : u.types[id]? with
    | none =>
      have hother : ∀ fields, u.kind? id ≠ some (.struct fields) := by simp [kind?, ht]
      rw [embedded_of_not_struct hother]
      simp [methodEntriesFrom, methodSearch, declaredMethod, ht]
    | some t =>
      have hkind : u.kind? id = some t.kind := by rw [kind?, ht, Option.map_some]
      have hown : ((t.methods.entries.map fun e => (e.1, e.2.func)).lookup name).map Member.method =
          (u.methodSearch name).offer n id := by
        rw [lookup_map_func, Option.map_map]
        exact (declaredMethod_of_get ht).symm
      by_cases hstruct : ∃ fields, t.kind = .struct fields
      · obtain ⟨fields, hk⟩ := hstruct
        have hentries : u.methodEntriesFrom (n + 1) id =
            (t.methods.entries.map fun e => (e.1, e.2.func)) ++
              ((u.embedded id).filter (u.methodSearch name).enters).flatMap
                  (u.methodEntriesFrom n) := by
          simp only [methodEntriesFrom, ht, hk, embedded,
            fieldsOf_struct (hkind.trans (congrArg some hk))]
          rfl
        rw [hentries, List.lookup_append, lookup_flatMap, Option.map_or, hown, List.map_findSome?]
        exact congrArg _ (findSome?_congr fun inner _ => ih inner)
      · have hother : ∀ fields, u.kind? id ≠ some (.struct fields) := by
          simpa [hkind] using hstruct
        have hentries : u.methodEntriesFrom (n + 1) id =
            t.methods.entries.map fun e => (e.1, e.2.func) := by
          simp only [methodEntriesFrom, ht]
          split
          · rename_i fields hk
            exact absurd ⟨fields, hk⟩ hstruct
          · rfl
        rw [hentries, hown, embedded_of_not_struct hother]
        exact Option.or_none.symm

theorem methodOf_map_method (id : TypeId) (name : String) :
    (u.methodOf id name).map Member.method = (u.methodSearch name).find u (maxDepth + 1) id :=
  lookup_methodEntriesFrom (maxDepth + 1) id

theorem methodOf_eq_some_iff {func : FuncId} : u.methodOf id name = some func ↔
    (u.methodSearch name).find u (maxDepth + 1) id = some (.method func) := by
  rw [← methodOf_map_method, Option.map_eq_some_iff]
  constructor
  · intro h
    exact ⟨func, h, rfl⟩
  · rintro ⟨func', h, heq⟩
    rwa [Member.method.inj heq] at h

theorem methodOf_eq_none_iff : u.methodOf id name = none ↔
    (u.methodSearch name).find u (maxDepth + 1) id = none := by
  rw [← methodOf_map_method, Option.map_eq_none_iff]

/-! ## Where the two rules agree -/

theorem memberFrom_of_declaredMethod {found : Member} (h : u.declaredMethod name id = some found)
    (n : Nat) : u.memberFrom name (n + 1) id = some found := by
  obtain ⟨m, hm, rfl⟩ := Option.map_eq_some_iff.mp h
  obtain ⟨t, ht, hget⟩ := Option.bind_eq_some_iff.mp hm
  simp only [memberFrom, ht, hget]

theorem mem_declarations_of_declaredMethod {found : Member}
    (h : u.declaredMethod name id = some found) : found ∈ u.declarations name id := by
  rw [declarations, h]
  exact List.mem_cons_self

/-- What a type declares it also offers, this or another one of its declarations. -/
theorem exists_offer_of_mem_declarations {member : Member} (h : member ∈ u.declarations name id)
    (n : Nat) : ∃ found ∈ u.declarations name id,
      (u.memberSearch name).offer n id = some found := by
  by_cases hstruct : ∃ fields, u.kind? id = some (.struct fields)
  · obtain ⟨fields, hkind⟩ := hstruct
    rw [memberSearch_offer_struct hkind]
    cases hdecl : u.declarations name id with
    | nil =>
      rw [hdecl] at h
      cases h
    | cons found rest => exact ⟨found, List.mem_cons_self, rfl⟩
  · -- without fields it is the method, and that is found before anything else
    have hother := not_exists.mp hstruct
    have hmethod : u.declaredMethod name id = some member := by
      simpa [declarations, fieldsOf_of_not_struct hother] using h
    rw [memberSearch_offer_other hother]
    exact ⟨member, h, memberFrom_of_declaredMethod hmethod n⟩

theorem mem_declarations_of_offer_method {n : Nat} {path : List Nat} {found : Member}
    (h : Search.Offers u (u.methodSearch name) n id path found) :
    ∃ x, u.Leads (fun _ => true) id path x ∧ found ∈ u.declarations name x := by
  obtain ⟨x, hleads, hoffer⟩ := h.exists_offer
  exact ⟨x, hleads.mono fun _ _ => rfl, mem_declarations_of_declaredMethod hoffer⟩

section Chosen

variable {depth : Nat} {member : Member} (h : u.Chosen name id depth member)
include h

/-- The search for a member comes past the declaration that the rule names. -/
theorem Chosen.offers (hle : depth ≤ maxDepth) :
    ∃ path, Search.Offers u (u.memberSearch name) (maxDepth + 1) id path member := by
  obtain ⟨path, x, hleads, hlength, hdecl⟩ := mem_declarationsAt_iff.mp h.declared
  obtain ⟨found, hfound, hoffer⟩ :=
    exists_offer_of_mem_declarations hdecl (maxDepth + 1 - 1 - path.length)
  have heq := h.only found (mem_declarationsAt_iff.mpr ⟨path, x, hleads, hlength, hfound⟩)
  subst heq
  exact ⟨path, by omega, x, hleads, hoffer⟩

/-- Any other declaration lies deeper. -/
theorem Chosen.lt_length {path : List Nat} {x : TypeId} {found : Member}
    (hleads : u.Leads (fun _ => true) id path x) (hdecl : found ∈ u.declarations name x)
    (hne : found ≠ member) : depth < path.length := by
  have hmem : found ∈ u.declarationsAt name path.length id :=
    mem_declarationsAt_iff.mpr ⟨path, x, hleads, rfl, hdecl⟩
  rcases Nat.lt_trichotomy path.length depth with hlt | heq | hgt
  · rw [h.least _ hlt] at hmem
    cases hmem
  · rw [heq] at hmem
    exact absurd (h.only found hmem) hne
  · exact hgt

/-- **The searches follow the rule unless something overtakes it.** Let a declaration be the only
one at the smallest depth at which the name is declared. The search for a member selects it exactly
if no path before all paths to it offers something else, and a declaration that is offered so lies
deeper. The search for a method selects it, if it is a method, exactly if it comes past it and no
method overtakes it; if it is a field, the search finds no method exactly if there is none to be
found; and these methods, too, lie deeper. -/
theorem selection_eq_chosen_iff {ty : Ty} (hid : u.idOf ty = some id) (hle : depth ≤ maxDepth) :
    (u.member ty name = some member ↔ ¬ ∃ path found,
      Search.Overtakes u (u.memberSearch name) (maxDepth + 1) id member path found) ∧
    (∀ path found, Search.Overtakes u (u.memberSearch name) (maxDepth + 1) id member path found →
      ∀ x, u.Leads (fun _ => true) id path x → found ∈ u.declarations name x →
        depth < path.length) ∧
    (∀ func, member = .method func → (u.methodOf id name = some func ↔
      (∃ path, Search.Offers u (u.methodSearch name) (maxDepth + 1) id path member) ∧
      ¬ ∃ path found,
        Search.Overtakes u (u.methodSearch name) (maxDepth + 1) id member path found)) ∧
    (∀ owner fieldTy, member = .field owner fieldTy → (u.methodOf id name = none ↔
      ¬ ∃ path found, Search.Offers u (u.methodSearch name) (maxDepth + 1) id path found)) ∧
    ∀ path found, Search.Offers u (u.methodSearch name) (maxDepth + 1) id path found →
      found ≠ member → depth < path.length := by
  refine ⟨?_, ?_, ?_, ?_, ?_⟩
  · rw [Universe.member, hid, Option.bind_eq_bind, Option.bind_some, memberOf, memberFrom_eq_find,
      Search.find_eq_some_iff, and_iff_right (h.offers hle)]
  · intro path found hover x hleads hdecl
    exact h.lt_length hleads hdecl hover.differs
  · intro func hmember
    rw [methodOf_eq_some_iff, ← hmember, Search.find_eq_some_iff]
  · intro owner fieldTy _
    rw [methodOf_eq_none_iff, Search.find_eq_none_iff]
    simp only [not_exists]
  · intro path found hoffers hne
    obtain ⟨x, hleads, hdecl⟩ := mem_declarations_of_offer_method hoffers
    exact h.lt_length hleads hdecl hne

end Chosen

/-! ## A deeper method that is first -/

/-- `Outer` has the method `Run` of `C`, and that of `B` in `A` comes before it. `Turned` embeds the
same in the other order. `Hidden` has a field of that name. -/
def deeperFirst : Disk where
  top := "/w"
  tree := .dir [("main.go", .file (some (
    "package main\n\n" ++
    "type B struct \x7b\x7d\n\n" ++
    "func (b B) Run() \x7b\x7d\n\n" ++
    "type A struct \x7b\n\tB\n\x7d\n\n" ++
    "type C struct \x7b\x7d\n\n" ++
    "func (c C) Run() \x7b\x7d\n\n" ++
    "type Outer struct \x7b\n\tA\n\tC\n\x7d\n\n" ++
    "type Turned struct \x7b\n\tC\n\tA\n\x7d\n\n" ++
    "type Hidden struct \x7b\n\tB\n\tRun int\n\x7d\n\n" ++
    "func main() \x7b\x7d\n")))]

def deeperFirstModule : Module := { path := "example.com/m", root := [] }

def deeperFirstProgram : Program :=
  ((deeperFirst.loadProgram .host deeperFirstModule "/w").toOption).getD {}

theorem deeperFirst_evaluated :
    (deeperFirst.loadProgram .host deeperFirstModule "/w").isOk = true ∧
      ((deeperFirstProgram.decls.idOf (.named "example.com/m" "Outer") = some 4 ∧
        deeperFirstProgram.decls.declarationsAt "Run" 0 4 = [] ∧
        deeperFirstProgram.decls.declarationsAt "Run" 1 4 = [.method 1]) ∧
      (deeperFirstProgram.decls.idOf (.named "example.com/m" "Turned") = some 5 ∧
        deeperFirstProgram.decls.declarationsAt "Run" 0 5 = [] ∧
        deeperFirstProgram.decls.declarationsAt "Run" 1 5 = [.method 1]) ∧
      deeperFirstProgram.decls.declarationsAt "Run" 0 6 = [.field 6 (.basic "int")]) ∧
      deeperFirstProgram.decls.member (.named "example.com/m" "Outer") "Run" = some (.method 0) ∧
      deeperFirstProgram.decls.member (.named "example.com/m" "Turned") "Run" = some (.method 1) ∧
      deeperFirstProgram.decls.methodOf 4 "Run" = some 0 ∧
      deeperFirstProgram.decls.methodOf 6 "Run" = some 0 := by
  decide +kernel

/-- The rule at a depth is seen by listing what is declared down to it. -/
theorem chosen_one {member : Member} (hnone : u.declarationsAt name 0 id = [])
    (hone : u.declarationsAt name 1 id = [member]) : u.Chosen name id 1 member where
  declared := by simp [hone]
  only := by simp [hone]
  least d hd := by
    obtain rfl : d = 0 := by omega
    exact hnone

theorem selection_eq_chosen_iff_deeperFirst :
    (deeperFirstProgram.decls.Chosen "Run" 4 1 (.method 1) ∧ ∃ path found,
      Search.Overtakes deeperFirstProgram.decls (deeperFirstProgram.decls.memberSearch "Run")
        (maxDepth + 1) 4 (.method 1) path found) ∧
    (deeperFirstProgram.decls.Chosen "Run" 5 1 (.method 1) ∧ ¬ ∃ path found,
      Search.Overtakes deeperFirstProgram.decls (deeperFirstProgram.decls.memberSearch "Run")
        (maxDepth + 1) 5 (.method 1) path found) := by
  obtain ⟨_, ⟨⟨hid, hnone, hone⟩, ⟨hid', hnone', hone'⟩, _⟩, hmember, hmember', _⟩ :=
    deeperFirst_evaluated
  have houter := chosen_one hnone hone
  have hturned := chosen_one hnone' hone'
  constructor
  · refine ⟨houter, ?_⟩
    by_contra hnot
    have hfound := (selection_eq_chosen_iff houter hid (by decide)).1.mpr hnot
    rw [hmember] at hfound
    cases hfound
  · exact ⟨hturned, (selection_eq_chosen_iff hturned hid' (by decide)).1.mp hmember'⟩

/-- In a program that loads, the searches select a method at depth two where the rule names one at
depth one, and a method at depth one where the rule names a field of the type itself. -/
theorem deeperFirst_not_chosen : ∃ p, deeperFirst.loadProgram .host deeperFirstModule "/w" = .ok p ∧
    (p.decls.Chosen "Run" 4 1 (.method 1) ∧
      p.decls.member (.named "example.com/m" "Outer") "Run" = some (.method 0) ∧
      p.decls.methodOf 4 "Run" = some 0) ∧
    p.decls.Chosen "Run" 6 0 (.field 6 (.basic "int")) ∧ p.decls.methodOf 6 "Run" = some 0 := by
  obtain ⟨hloads, ⟨⟨_, hnone, hone⟩, _, hfield⟩, hmember, _, hmethod, hmethod'⟩ :=
    deeperFirst_evaluated
  refine ⟨deeperFirstProgram, Disk.loadProgram_of_isOk hloads,
    ⟨chosen_one hnone hone, hmember, hmethod⟩, ?_, hmethod'⟩
  exact ⟨by simp [hfield], by simp [hfield], fun d hd => absurd hd (Nat.not_lt_zero d)⟩

end CallAtlas.Universe
