import CallAtlas.Analysis.ValueFlow
import CallAtlas.Proofs.Distinct
import CallAtlas.Proofs.Table
import Mathlib.Algebra.Order.BigOperators.Group.List
import Mathlib.Algebra.Order.Group.Nat
import Mathlib.Data.List.Perm.Subperm
import Mathlib.Logic.Relation

/-!
# The least solution of a flow graph

`solve` sends the atoms of a slot along its arcs whenever the slot has got new ones, and it works on
a snapshot of them. `mem_atoms_solve` says that an atom is in a slot at the end exactly if it was
put into some slot from which arcs lead there.

Two facts about one look at a slot carry the proof. An arc whose atoms have not all arrived starts
at a slot that is in the queue (`Settles.pending`), so nothing is missing once the queue is empty.
And every slot that enters the queue has got at least one atom more, so the entries of the queue and
the atoms that are still to come never grow together; the number of looks that `solve` allows is
enough, in whatever order slots are looked at.

Nothing is said of circles, because nothing depends on them.
-/

set_option autoImplicit false

namespace CallAtlas.FlowGraph

/-! ## Lists of atoms as sets -/

theorem union_cons (xs : List Atom) (y : Atom) (ys : List Atom) :
    union xs (y :: ys) = union (if xs.contains y then xs else xs ++ [y]) ys := rfl

theorem mem_union {xs ys : List Atom} {a : Atom} : a ∈ union xs ys ↔ a ∈ xs ∨ a ∈ ys := by
  induction ys generalizing xs with
  | nil => simp [union]
  | cons y ys ih =>
    rw [union_cons, ih, List.mem_cons, ← or_assoc]
    by_cases h : y ∈ xs
    · rw [if_pos (List.contains_iff_mem.mpr h)]
      exact or_congr_left ⟨Or.inl, fun ha => ha.elim id fun ha => ha ▸ h⟩
    · rw [if_neg fun hc => h (List.contains_iff_mem.mp hc), List.mem_append, List.mem_singleton]

theorem nodup_union {xs : List Atom} (ys : List Atom) (h : xs.Nodup) : (union xs ys).Nodup := by
  induction ys generalizing xs with
  | nil => exact h
  | cons y ys ih =>
    rw [union_cons]
    by_cases hy : y ∈ xs
    · rw [if_pos (List.contains_iff_mem.mpr hy)]
      exact ih h
    · rw [if_neg fun hc => hy (List.contains_iff_mem.mp hc)]
      refine ih (List.nodup_append.mpr ⟨h, by simp, fun a ha b hb hab => hy ?_⟩)
      rwa [← List.mem_singleton.mp hb, ← hab]

theorem length_le_union (xs ys : List Atom) : xs.length ≤ (union xs ys).length := by
  induction ys generalizing xs with
  | nil => exact Nat.le_refl _
  | cons y ys ih =>
    rw [union_cons]
    refine Nat.le_trans ?_ (ih _)
    split <;> simp

/-- A set grows if something new is put into it. -/
theorem length_lt_union {xs ys : List Atom} {a : Atom} (ha : a ∈ ys) (hx : a ∉ xs) :
    xs.length < (union xs ys).length := by
  induction ys generalizing xs with
  | nil => exact absurd ha (by simp)
  | cons y ys ih =>
    rw [union_cons]
    by_cases hy : y ∈ xs
    · rw [if_pos (List.contains_iff_mem.mpr hy)]
      rcases List.mem_cons.mp ha with rfl | ha
      · exact absurd hy hx
      · exact ih ha hx
    · rw [if_neg fun hc => hy (List.contains_iff_mem.mp hc)]
      exact Nat.lt_of_lt_of_le (by simp) (length_le_union _ ys)

/-! ## What is in a slot -/

variable {g : FlowGraph} {slot x y : Slot} {found : List Atom} {a : Atom}

theorem atoms_addAtoms_self : (g.addAtoms slot found).atoms slot = union (g.atoms slot) found := by
  rw [atoms, addAtoms, Table.get?_insert_self]
  rfl

theorem atoms_addAtoms_of_ne (h : x ≠ slot) : (g.addAtoms slot found).atoms x = g.atoms x := by
  rw [atoms, addAtoms, Table.get?_insert_of_ne h]
  rfl

theorem mem_atoms_addAtoms :
    a ∈ (g.addAtoms slot found).atoms x ↔ a ∈ g.atoms x ∨ x = slot ∧ a ∈ found := by
  by_cases h : x = slot
  · subst h
    rw [atoms_addAtoms_self, mem_union]
    simp
  · rw [atoms_addAtoms_of_ne h]
    simp [h]

@[simp] theorem atoms_addSlot : (g.addSlot slot).atoms x = g.atoms x := by
  by_cases h : slot ∈ g.values.keys
  · rw [addSlot, Table.insertNew_of_mem h]
  · simp only [atoms, addSlot, Table.insertNew_of_notMem h, Table.get?, List.lookup_append]
    cases hx : g.values.entries.lookup x with
    | some v => rfl
    | none =>
      rw [List.lookup_cons]
      cases x == slot <;> rfl

@[simp] theorem arcs_addSlot : (g.addSlot slot).arcs = g.arcs := rfl

@[simp] theorem values_addArc : (g.addArc x y).values = g.values := by
  unfold addArc
  split <;> rfl

@[simp] theorem atoms_addArc : (g.addArc x y).atoms slot = g.atoms slot := by
  rw [atoms, values_addArc]
  rfl

theorem mem_arcs_addArc {arc : Slot × Slot} :
    arc ∈ (g.addArc x y).arcs ↔ arc ∈ g.arcs ∨ x ≠ y ∧ arc = (x, y) := by
  by_cases hxy : x = y
  · simp [addArc, hxy]
  · by_cases h : (x, y) ∈ g.arcs
    · simp only [addArc, List.contains_iff_mem.mpr h, Bool.or_true, if_true]
      exact ⟨Or.inl, fun ha => ha.elim id fun ha => ha.2 ▸ h⟩
    · simp [addArc, hxy, h]

theorem mem_successors : y ∈ g.successors x ↔ (x, y) ∈ g.arcs := by
  simp [successors]

/-! ## Reaching a slot -/

/-- Arcs lead from one slot to the other. -/
def Leads (g : FlowGraph) : Slot → Slot → Prop := Relation.ReflTransGen fun x y => (x, y) ∈ g.arcs

/-- The atom is in a slot from which arcs lead to this one. -/
def Reaches (g : FlowGraph) (a : Atom) (slot : Slot) : Prop :=
  ∃ origin, a ∈ g.atoms origin ∧ g.Leads origin slot

/-- The graph can be solved: no slot holds an atom twice, and every arc leads to a slot of the
table. -/
structure Proper (g : FlowGraph) : Prop where
  nodup : ∀ e ∈ g.values.entries, e.2.Nodup
  sinks : ∀ arc ∈ g.arcs, arc.2 ∈ g.values.keys

/-- What holds of every entry of the table and of no atoms holds of the atoms in any slot. -/
theorem atoms_of_entries {P : List Atom → Prop} (hnil : P []) (h : ∀ e ∈ g.values.entries, P e.2)
    (slot : Slot) : P (g.atoms slot) := by
  unfold atoms
  cases hs : g.values.get? slot with
  | none => exact hnil
  | some v => exact h _ (Table.mem_entries_of_get? hs)

theorem mem_values_of_mem_atoms (h : a ∈ g.atoms slot) : a ∈ g.values.values.flatten := by
  have hsub : g.atoms slot ⊆ g.values.values.flatten :=
    atoms_of_entries (P := (· ⊆ _)) (by simp)
      (fun e he _ hb => List.mem_flatten.mpr ⟨e.2, List.mem_map.mpr ⟨e, he, rfl⟩, hb⟩) slot
  exact hsub h

/-! ## Building the graph -/

theorem Proper.addSlot (hg : g.Proper) : (g.addSlot slot).Proper := by
  refine ⟨fun e he => ?_, fun arc ha => Table.keys_insertNew.mpr (Or.inl (hg.sinks arc ha))⟩
  by_cases hs : slot ∈ g.values.keys
  · rw [FlowGraph.addSlot, Table.insertNew_of_mem hs] at he
    exact hg.nodup e he
  · rw [FlowGraph.addSlot, Table.insertNew_of_notMem hs] at he
    rcases List.mem_append.mp he with he | he
    · exact hg.nodup e he
    · rw [List.mem_singleton.mp he]
      exact List.nodup_nil

theorem Proper.addArc (hg : g.Proper) (hy : y ∈ g.values.keys) : (g.addArc x y).Proper := by
  refine ⟨fun e he => hg.nodup e (values_addArc ▸ he), fun arc ha => ?_⟩
  rw [values_addArc]
  rcases mem_arcs_addArc.mp ha with ha | ⟨_, rfl⟩
  · exact hg.sinks arc ha
  · exact hy

theorem Proper.addAtoms (hg : g.Proper) (hs : slot ∈ g.values.keys) :
    (g.addAtoms slot found).Proper := by
  refine ⟨fun e he => ?_, fun arc ha => ?_⟩
  · rcases Table.mem_entries_insert he with rfl | he
    · exact nodup_union found (atoms_of_entries List.nodup_nil hg.nodup slot)
    · exact hg.nodup e he
  · rw [FlowGraph.addAtoms, Table.keys_insert hs]
    exact hg.sinks arc ha

/-- The arcs into one slot are added one after the other; the slot itself has to be there. -/
theorem foldl_addArc_spec {sink : Slot} (slots : List Slot) (hsink : sink ∈ g.values.keys) :
    let h := slots.foldl (fun g source => (g.addSlot source).addArc source sink) g
    (∀ x, h.atoms x = g.atoms x) ∧
      (∀ arc, arc ∈ h.arcs ↔ arc ∈ g.arcs ∨ ∃ source ∈ slots, source ≠ sink ∧
        arc = (source, sink)) ∧
      sink ∈ h.values.keys ∧ (g.Proper → h.Proper) := by
  induction slots generalizing g with
  | nil => simpa using hsink
  | cons source rest ih =>
    have hslot : sink ∈ (g.addSlot source).values.keys := Table.keys_insertNew.mpr (Or.inl hsink)
    obtain ⟨hatoms, harcs, hkey, hproper⟩ :=
      ih (g := (g.addSlot source).addArc source sink) (by rwa [values_addArc])
    refine ⟨fun x => ?_, fun arc => ?_, hkey, fun hg => hproper (hg.addSlot.addArc hslot)⟩
    · rw [List.foldl_cons, hatoms, atoms_addArc, atoms_addSlot]
    · rw [List.foldl_cons, harcs, mem_arcs_addArc, arcs_addSlot, List.exists_mem_cons_iff, or_assoc]

/-- What one flow adds to a graph: its atoms to its sink and an arc from each of its slots. -/
theorem connect_spec (g : FlowGraph) (flow : Flow) :
    (∀ x a, a ∈ (g.connect flow).atoms x ↔
        a ∈ g.atoms x ∨ x = flow.sink ∧ a ∈ flow.source.atoms) ∧
      (∀ arc, arc ∈ (g.connect flow).arcs ↔
        arc ∈ g.arcs ∨ ∃ source ∈ flow.source.slots, source ≠ flow.sink ∧
          arc = (source, flow.sink)) ∧
      (g.Proper → (g.connect flow).Proper) := by
  obtain ⟨hatoms, harcs, hkey, hproper⟩ :=
    foldl_addArc_spec (g := g.addSlot flow.sink) flow.source.slots
      (Table.keys_insertNew.mpr (Or.inr rfl))
  refine ⟨fun x a => ?_, fun arc => harcs arc, fun hg => (hproper hg.addSlot).addAtoms hkey⟩
  rw [connect, mem_atoms_addAtoms, hatoms, atoms_addSlot]

/-- What a list of flows builds. -/
theorem foldl_connect_spec (flows : List Flow) :
    let g := flows.foldl connect {}
    (∀ x a, a ∈ g.atoms x ↔ ∃ flow ∈ flows, x = flow.sink ∧ a ∈ flow.source.atoms) ∧
      (∀ arc, arc ∈ g.arcs ↔
        ∃ flow ∈ flows, ∃ source ∈ flow.source.slots, source ≠ flow.sink ∧
          arc = (source, flow.sink)) ∧
      g.Proper := by
  induction flows using List.reverseRecOn with
  | nil => exact ⟨by simp [atoms, Table.get?], by simp, ⟨by simp, by simp⟩⟩
  | append_singleton flows flow ih =>
    obtain ⟨hatoms, harcs, hproper⟩ := ih
    obtain ⟨hatoms', harcs', hproper'⟩ := connect_spec (flows.foldl connect {}) flow
    simp only [List.foldl_append, List.foldl_cons, List.foldl_nil]
    refine ⟨fun x a => ?_, fun arc => ?_, hproper' hproper⟩
    · rw [hatoms', hatoms]
      simp [or_and_right, exists_or]
    · rw [harcs', harcs]
      simp [or_and_right, exists_or]

/-! ## Sending atoms -/

/-- The number of atoms in all slots. -/
def total (g : FlowGraph) : Nat := g.values.values.flatten.length

/-- What sending atoms into some slots does to a graph and its queue. A slot that has got something
new is in the queue, and the queue has grown by no more than the atoms have. -/
structure Sends (found : List Atom) (sinks : List Slot) (s t : FlowGraph × List Slot) : Prop where
  arcs : t.1.arcs = s.1.arcs
  keys : t.1.values.keys = s.1.values.keys
  mem_atoms : ∀ x a, a ∈ t.1.atoms x ↔ a ∈ s.1.atoms x ∨ x ∈ sinks ∧ a ∈ found
  queue : s.2 ⊆ t.2
  queued : ∀ x, x ∈ t.2 ∨ t.1.atoms x = s.1.atoms x
  nodup : (∀ e ∈ s.1.values.entries, e.2.Nodup) → ∀ e ∈ t.1.values.entries, e.2.Nodup
  within : ∀ all, found ⊆ all → (∀ e ∈ s.1.values.entries, e.2 ⊆ all) →
    ∀ e ∈ t.1.values.entries, e.2 ⊆ all
  length_le : t.2.length + s.1.total ≤ s.2.length + t.1.total

theorem Sends.refl (found : List Atom) (s : FlowGraph × List Slot) : Sends found [] s s :=
  ⟨rfl, rfl, by simp, fun _ h => h, fun _ => Or.inr rfl, id, fun _ _ h => h, Nat.le_refl _⟩

theorem Sends.trans {found : List Atom} {xs ys : List Slot} {s t u : FlowGraph × List Slot}
    (h₁ : Sends found xs s t) (h₂ : Sends found ys t u) : Sends found (xs ++ ys) s u := by
  refine ⟨h₂.arcs.trans h₁.arcs, h₂.keys.trans h₁.keys, fun x a => ?_,
    fun x hx => h₂.queue (h₁.queue hx), fun x => ?_, fun h => h₂.nodup (h₁.nodup h),
    fun all hf h => h₂.within all hf (h₁.within all hf h), ?_⟩
  · rw [h₂.mem_atoms, h₁.mem_atoms, List.mem_append, or_assoc, or_and_right]
  · rcases h₂.queued x with hx | hx
    · exact Or.inl hx
    · exact (h₁.queued x).imp (fun h => h₂.queue h) fun h => hx.trans h
  · have := h₁.length_le
    have := h₂.length_le
    omega

theorem total_lt_addAtoms (hslot : slot ∈ g.values.keys) (ha : a ∈ found)
    (hnew : a ∉ g.atoms slot) : g.total < (g.addAtoms slot found).total := by
  obtain ⟨old, hold⟩ := Option.isSome_iff_exists.mp (Table.mem_keys_iff.mp hslot)
  have hatoms : g.atoms slot = old := by rw [atoms, hold]; rfl
  have hinsert := Table.length_flatten_insert hold (union (g.atoms slot) found)
  have hgrown := length_lt_union ha hnew
  rw [hatoms] at hgrown hinsert
  simp only [total, addAtoms, hatoms]
  omega

theorem sends_push {s : FlowGraph × List Slot} (hslot : slot ∈ s.1.values.keys) :
    Sends found [slot] s (push found s slot) := by
  unfold push
  split
  · rename_i hall
    have hsub : ∀ a ∈ found, a ∈ s.1.atoms slot := by simpa using hall
    refine ⟨rfl, rfl, fun x a => ⟨Or.inl, ?_⟩, fun _ h => h, fun _ => Or.inr rfl, id,
      fun _ _ h => h, Nat.le_refl _⟩
    rintro (ha | ⟨hx, ha⟩)
    · exact ha
    · rw [List.mem_singleton.mp hx]
      exact hsub a ha
  · rename_i hall
    obtain ⟨a, ha, hnew⟩ : ∃ a ∈ found, a ∉ s.1.atoms slot := by simpa using hall
    have hlen := total_lt_addAtoms hslot ha hnew
    refine ⟨rfl, Table.keys_insert hslot, fun x b => ?_, fun x hx => ?_, fun x => ?_,
      fun hn e he => ?_, fun all hf hw e he => ?_, ?_⟩
    · rw [mem_atoms_addAtoms, List.mem_singleton]
    · split
      · exact hx
      · exact List.mem_append_left _ hx
    · by_cases hx : x = slot
      · refine Or.inl ?_
        subst hx
        split
        · rename_i hc
          exact List.contains_iff_mem.mp hc
        · simp
      · exact Or.inr (atoms_addAtoms_of_ne hx)
    · rcases Table.mem_entries_insert he with rfl | he
      · exact nodup_union found (atoms_of_entries List.nodup_nil hn slot)
      · exact hn e he
    · rcases Table.mem_entries_insert he with rfl | he
      · intro b hb
        rcases mem_union.mp hb with hb | hb
        · exact atoms_of_entries (P := (· ⊆ all)) (by simp) hw slot hb
        · exact hf hb
      · exact hw e he
    -- at most one entry is new, and at least one atom is
    · split
      · simp only
        omega
      · simp only [List.length_append, List.length_singleton]
        omega

theorem sends_foldl_push (sinks : List Slot) {s : FlowGraph × List Slot}
    (h : ∀ x ∈ sinks, x ∈ s.1.values.keys) : Sends found sinks s (sinks.foldl (push found) s) := by
  induction sinks generalizing s with
  | nil => exact Sends.refl found s
  | cons slot rest ih =>
    have hpush : Sends found [slot] s (push found s slot) := sends_push (h slot List.mem_cons_self)
    refine hpush.trans (ih fun x hx => ?_)
    rw [hpush.keys]
    exact h x (List.mem_cons_of_mem _ hx)

/-! ## Looking at the slots of the queue -/

/-- A graph on the way from `start` to its solution, with the slots that are still to be looked
at. -/
structure Settles (start g : FlowGraph) (queue : List Slot) : Prop where
  arcs : g.arcs = start.arcs
  keys : g.values.keys = start.values.keys
  grown : ∀ x, start.atoms x ⊆ g.atoms x
  sound : ∀ x, ∀ a ∈ g.atoms x, start.Reaches a x
  nodup : ∀ e ∈ g.values.entries, e.2.Nodup
  within : ∀ e ∈ g.values.entries, e.2 ⊆ start.values.values.flatten
  pending : ∀ arc ∈ g.arcs, arc.1 ∈ queue ∨ g.atoms arc.1 ⊆ g.atoms arc.2

theorem mem_occupied (h : a ∈ g.atoms x) : x ∈ g.occupied := by
  unfold atoms at h
  cases hx : g.values.get? x with
  | none => rw [hx] at h; exact absurd h (by simp)
  | some v =>
    rw [hx] at h
    refine List.mem_map.mpr ⟨(x, v), List.mem_filter.mpr ⟨Table.mem_entries_of_get? hx, ?_⟩, rfl⟩
    cases v with
    | nil => exact absurd h (by simp)
    | cons _ _ => rfl

theorem Proper.settles (hg : g.Proper) : Settles g g g.occupied := by
  refine ⟨rfl, rfl, fun _ _ h => h, fun x a ha => ⟨x, ha, Relation.ReflTransGen.refl⟩, hg.nodup,
    fun e he a ha => List.mem_flatten.mpr ⟨e.2, List.mem_map.mpr ⟨e, he, rfl⟩, ha⟩, fun arc _ => ?_⟩
  by_cases hempty : g.atoms arc.1 = []
  · exact Or.inr (by simp [hempty])
  · obtain ⟨a, ha⟩ := List.exists_mem_of_ne_nil _ hempty
    exact Or.inl (mem_occupied ha)

theorem Settles.of_subset {start : FlowGraph} {queue queue' : List Slot} (hsub : queue ⊆ queue')
    (h : Settles start g queue) : Settles start g queue' :=
  { h with pending := fun arc harc => (h.pending arc harc).imp_left fun hq => hsub hq }

/-- **One look keeps the invariant**, at whichever place of the queue the slot stands and in
whichever order its atoms are sent along its arcs, and uses up one entry of the queue for good. -/
theorem Settles.look {start : FlowGraph} (before : List Slot) {after order : List Slot}
    (hstart : start.Proper) (horder : ∀ x, x ∈ order ↔ x ∈ g.successors slot)
    (h : Settles start g (before ++ slot :: after)) :
    let t := order.foldl (push (g.atoms slot)) (g, before ++ after)
    Settles start t.1 t.2 ∧
      t.2.length + g.total + 1 ≤ (before ++ slot :: after).length + t.1.total := by
  have harcs : ∀ x, x ∈ order ↔ (slot, x) ∈ g.arcs := by
    intro x
    rw [horder, mem_successors]
  have hsinks : ∀ x ∈ order, x ∈ g.values.keys := by
    intro x hx
    rw [h.keys]
    exact hstart.sinks (slot, x) (h.arcs ▸ (harcs x).mp hx)
  intro t
  have hsends : Sends (g.atoms slot) order (g, before ++ after) t := sends_foldl_push _ hsinks
  refine ⟨⟨hsends.arcs.trans h.arcs, hsends.keys.trans h.keys, fun x a ha => ?_, fun x a ha => ?_,
    hsends.nodup h.nodup, hsends.within _ ?_ h.within, fun arc harc => ?_⟩, ?_⟩
  · exact (hsends.mem_atoms x a).mpr (Or.inl (h.grown x ha))
  · rcases (hsends.mem_atoms x a).mp ha with ha | ⟨hx, ha⟩
    · exact h.sound x a ha
    · obtain ⟨origin, horigin, hleads⟩ := h.sound slot a ha
      exact ⟨origin, horigin, hleads.tail (h.arcs ▸ (harcs x).mp hx)⟩
  · intro a ha
    obtain ⟨origin, horigin, _⟩ := h.sound slot a ha
    exact mem_values_of_mem_atoms horigin
  · rw [hsends.arcs] at harc
    -- a source that has got something new is in the queue; otherwise it is as it was
    -- before the look
    rcases hsends.queued arc.1 with hq | hsame
    · exact Or.inl hq
    · rcases h.pending arc harc with hq | hsub
      · rcases List.mem_append.mp hq with hq | hq
        · exact Or.inl (hsends.queue (List.mem_append_left _ hq))
        · rcases List.mem_cons.mp hq with hslot | hq
          · refine Or.inr fun a ha => ?_
            rw [hsame, hslot] at ha
            refine (hsends.mem_atoms arc.2 a).mpr (Or.inr ⟨(harcs arc.2).mpr ?_, ha⟩)
            rw [← hslot]
            exact harc
          · exact Or.inl (hsends.queue (List.mem_append_right _ hq))
      · refine Or.inr fun a ha => ?_
        rw [hsame] at ha
        exact (hsends.mem_atoms arc.2 a).mpr (Or.inl (hsub ha))
  · have := hsends.length_le
    simp only [List.length_append, List.length_cons] at this ⊢
    omega

/-! ## Looking until the queue is empty

Nothing above depends on which slot of the queue is looked at next, nor on the order in which its
arcs are followed. So looks are counted in any order; `drain` takes the slots from the front. -/

/-- One look at a slot somewhere in the queue. -/
inductive Look : FlowGraph × List Slot → FlowGraph × List Slot → Prop where
  | pick {g : FlowGraph} {slot : Slot} (before after : List Slot) {order : List Slot}
      (horder : order.Perm (g.successors slot)) :
      Look (g, before ++ slot :: after) (order.foldl (push (g.atoms slot)) (g, before ++ after))

/-- A number of looks, one after another. -/
inductive Looks : Nat → FlowGraph × List Slot → FlowGraph × List Slot → Prop where
  | refl (s : FlowGraph × List Slot) : Looks 0 s s
  | head {n : Nat} {s t u : FlowGraph × List Slot} (first : Look s t) (rest : Looks n t u) :
      Looks (n + 1) s u

theorem exists_look {queue : List Slot} (h : queue ≠ []) : ∃ t, Look (g, queue) t := by
  obtain ⟨slot, rest, rfl⟩ := List.exists_cons_of_ne_nil h
  exact ⟨_, .pick [] rest (List.Perm.refl (g.successors slot))⟩

section Counting

variable {start : FlowGraph} {s t : FlowGraph × List Slot} {n : Nat}

theorem Look.settles (hstart : start.Proper) (h : Look s t) (hs : Settles start s.1 s.2) :
    Settles start t.1 t.2 ∧ t.2.length + s.1.total + 1 ≤ s.2.length + t.1.total := by
  cases h with
  | pick before after horder => exact hs.look before hstart fun x => horder.mem_iff

/-- Looks keep the invariant, and each of them is paid for by an entry of the queue or by a new
atom. -/
theorem Looks.settles (hstart : start.Proper) (h : Looks n s t) (hs : Settles start s.1 s.2) :
    Settles start t.1 t.2 ∧ t.2.length + s.1.total + n ≤ s.2.length + t.1.total := by
  induction h with
  | refl s => exact ⟨hs, Nat.le_refl _⟩
  | head first _ ih =>
    obtain ⟨hnext, hlen⟩ := first.settles hstart hs
    obtain ⟨hlast, hrest⟩ := ih hnext
    exact ⟨hlast, by omega⟩

/-- No slot ever holds more than all the atoms there are. -/
theorem Settles.total_le {queue : List Slot} (h : Settles start g queue) :
    g.total ≤ start.values.entries.length * start.total := by
  have hlen : g.values.entries.length = start.values.entries.length := by
    simpa [Table.keys] using congrArg List.length h.keys
  rw [total, ← hlen, List.length_flatten, ← List.length_map (f := Prod.snd)]
  refine (List.sum_le_card_nsmul _ start.total fun n hn => ?_).trans (by simp [Table.values])
  obtain ⟨v, hv, rfl⟩ := List.mem_map.mp hn
  obtain ⟨e, he, rfl⟩ := List.mem_map.mp hv
  exact (List.subperm_of_subset (h.nodup e he) (h.within e he)).length_le

theorem length_occupied_le (g : FlowGraph) : g.occupied.length ≤ g.values.entries.length := by
  rw [occupied, List.length_map]
  exact List.length_filter_le _ _

/-- In whatever order, there are fewer looks than `solve` allows. -/
theorem Looks.lt_solveFuel (hstart : start.Proper) {queue : List Slot}
    (hqueue : queue.Perm start.occupied) (h : Looks n (start, queue) t) :
    Settles start t.1 t.2 ∧ n < start.solveFuel := by
  have hsettles : Settles start start queue := hstart.settles.of_subset hqueue.symm.subset
  obtain ⟨hlast, hlen⟩ := h.settles hstart hsettles
  refine ⟨hlast, ?_⟩
  have htotal := hlast.total_le
  have hentries := start.length_occupied_le
  rw [← hqueue.length_eq] at hentries
  rw [solveFuel, Nat.mul_add, ← total]
  simp only at hlen
  omega

end Counting

theorem exists_looks_drain (fuel : Nat) (g : FlowGraph) (queue : List Slot) :
    ∃ n rest, Looks n (g, queue) (drain fuel g queue, rest) ∧ (rest = [] ∨ n = fuel) := by
  induction fuel generalizing g queue with
  | zero => exact ⟨0, queue, .refl _, Or.inr rfl⟩
  | succ fuel ih =>
    cases queue with
    | nil => exact ⟨0, [], .refl _, Or.inl rfl⟩
    | cons slot queue =>
      obtain ⟨n, rest, hlooks, hend⟩ := ih
        ((g.successors slot).foldl (push (g.atoms slot)) (g, queue)).1
        ((g.successors slot).foldl (push (g.atoms slot)) (g, queue)).2
      exact ⟨n + 1, rest, .head (.pick [] queue (List.Perm.refl _)) hlooks,
        hend.imp_right (congrArg (· + 1))⟩

/-- The queue is empty at the end. -/
theorem Proper.looks_solve (hg : g.Proper) : ∃ n, Looks n (g, g.occupied) (g.solve, []) := by
  obtain ⟨n, rest, hlooks, hend⟩ := exists_looks_drain g.solveFuel g g.occupied
  obtain ⟨_, hfuel⟩ := hlooks.lt_solveFuel hg (List.Perm.refl _)
  obtain rfl := hend.resolve_right (Nat.ne_of_lt hfuel)
  exact ⟨n, hlooks⟩

/-- Once the queue is empty, every arc has delivered what its source holds. -/
theorem Settles.mem_atoms {start : FlowGraph} (h : Settles start g []) :
    a ∈ g.atoms slot ↔ start.Reaches a slot := by
  refine ⟨h.sound slot a, ?_⟩
  rintro ⟨origin, horigin, hleads⟩
  induction hleads with
  | refl => exact h.grown origin horigin
  | tail _ harc ih =>
    rw [← h.arcs] at harc
    exact (h.pending _ harc).resolve_left (by simp) ih

/-- **Main statement**: an atom is in a slot of the solution exactly if it reaches the slot. -/
theorem mem_atoms_solve (hg : g.Proper) : a ∈ g.solve.atoms slot ↔ g.Reaches a slot := by
  obtain ⟨n, hlooks⟩ := hg.looks_solve
  exact (hlooks.lt_solveFuel hg (List.Perm.refl _)).1.mem_atoms

theorem mem_valuesOf {origin : Origin} :
    a ∈ g.valuesOf origin ↔ a ∈ origin.atoms ∨ ∃ slot ∈ origin.slots, a ∈ g.atoms slot := by
  have hfold : ∀ (slots : List Slot) (acc : List Atom),
      a ∈ slots.foldl (fun acc slot => union acc (g.atoms slot)) acc ↔
        a ∈ acc ∨ ∃ slot ∈ slots, a ∈ g.atoms slot := by
    intro slots
    induction slots with
    | nil => simp
    | cons slot rest ih =>
      intro acc
      rw [List.foldl_cons, ih, mem_union, List.exists_mem_cons_iff, or_assoc]
  rw [valuesOf, hfold, mem_union]
  simp

end CallAtlas.FlowGraph
